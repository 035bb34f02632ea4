import FuzzyLogic.Data.Yaml.Tag
import FuzzyLogic.Data.Yaml.Token

set_option autoImplicit false

/-! # YAML nodes

A document is a tree of scalars, sequences and mappings, each of a kind that its tag names or its
form shows. A node can have a name, under which it stands again at a later place, even inside of
itself; there it is kept to a finite depth. A node that is left out is an empty plain scalar. -/

namespace FuzzyLogic.Data.Yaml

/-- A part of a document. -/
inductive Node where
  | scalar (tag : Tag) (text : String)
  | sequence (tag : Tag) (items : List Node)
  | mapping (tag : Tag) (entries : List (Node × Node))
  /-- A reference to the node of this name, inside of which it stands. -/
  | enclosing (name : String)
  /-- A node once more, inside of itself. -/
  | again (whole : Node)
  deriving Inhabited

namespace Node

/-- A node that is left out. -/
def absent : Node :=
  .scalar .null ""

/-! ## Nodes inside of themselves -/

mutual

/-- The node with `whole` in the place of the references to the enclosing node of this name. -/
def unfold (name : String) (whole : Node) : Node → Node
  | scalar tag text => .scalar tag text
  | sequence tag items => .sequence tag (unfoldItems name whole items)
  | mapping tag entries => .mapping tag (unfoldEntries name whole entries)
  | enclosing n => if n == name then .again whole else .enclosing n
  | again n => .again (unfold name whole n)

/-- The items with `whole` in the place of the references. -/
def unfoldItems (name : String) (whole : Node) : List Node → List Node
  | [] => []
  | n :: rest => unfold name whole n :: unfoldItems name whole rest

/-- The entries with `whole` in the place of the references. -/
def unfoldEntries (name : String) (whole : Node) : List (Node × Node) → List (Node × Node)
  | [] => []
  | (k, n) :: rest =>
    (unfold name whole k, unfold name whole n) :: unfoldEntries name whole rest

end

/-- A collection of the same form without content. -/
def emptied : Node → Node
  | mapping tag _ => .mapping tag []
  | sequence tag _ => .sequence tag []
  | n => n

/-- The node of this name, with itself once more in the place of the references to it. Inside of
that it is empty. -/
def close (name : String) (n : Node) : Node :=
  unfold name (unfold name n.emptied n) n

end Node

/-! ## Reading nodes -/

/-- The tokens still to be read, why no more follow them if the text breaks the rules there, the
nodes that have a name, and what the handles of tags stand for. -/
structure Source where
  tokens : List Token
  fault : Option ReadError
  named : List (String × Node)
  handles : List (String × String)

/-- The handles that every document has. -/
def standardHandles : List (String × String) :=
  [("!", "!"), ("!!", standardTags)]

/-- Reading a part of a document. -/
abbrev Reading (β : Type) := StateT Source (Except ReadError) β

namespace Reading

/-- The next token. -/
def peek : Reading (Option Token) := do
  let s ← get
  match s.tokens, s.fault with
  | t :: _, _ => return some t
  | [], some e => throw e
  | [], none => return none

/-- Skips the next token. -/
def skip : Reading Unit :=
  modify fun s => { s with tokens := s.tokens.drop 1 }

/-- Skips the token if it comes next. -/
def accept (t : Token) : Reading Bool := do
  if (← peek) == some t then
    skip
    return true
  else return false

/-- Skips the token, which has to come next. -/
def expect (t : Token) : Reading Unit := do
  if !(← accept t) then throw .malformed

/-- Whether one of the tokens comes next. -/
def atAny (ts : List Token) : Reading Bool := do
  match ← peek with
  | some t => return ts.contains t
  | none => return false

/-! ### Names and tags -/

/-- Refuses a name that is in use. -/
def checkNew (name : Option String) : Reading Unit := do
  match name with
  | none => return
  | some name => if ((← get).named.lookup name).isSome then throw .malformed

/-- Gives a node a name. -/
def define (name : String) (n : Node) : Reading Unit :=
  modify fun s => { s with named := (name, n) :: s.named }

/-- The node with the given name. -/
def nodeNamed (name : String) : Reading Node := do
  match (← get).named.lookup name with
  | some n => return n
  | none => throw .malformed

/-- A scalar under a name, if it has one. -/
def nameScalar (name : Option String) (n : Node) : Reading Node := do
  checkNew name
  match name with
  | none => return n
  | some name =>
    define name n
    return n

/-- A collection under a name, if it has one. Inside of it the name stands for the collection as a
whole. -/
def nameCollection (name : Option String) (content : Reading Node) : Reading Node := do
  checkNew name
  match name with
  | none => content
  | some name =>
    define name (.enclosing name)
    let n ← content
    define name (Node.close name n)
    return Node.close name n

/-- The name before a node, if it has one. -/
def anchorName : Reading (Option String) := do
  match ← peek with
  | some (.anchor name) =>
    skip
    return some name
  | _ => return none

/-- The tag before a node, if it has one. -/
def tagText : Reading (Option TagText) := do
  match ← peek with
  | some (.tag t) =>
    skip
    return some t
  | _ => return none

/-- The tag in full. -/
def fullTag : TagText → Reading String
  | ⟨none, text⟩ => return text
  | ⟨some handle, text⟩ => do
    match (← get).handles.lookup handle with
    | some expansion => return expansion ++ text
    | none => throw .malformed

/-- The name and the tag before a node, in either order. -/
def properties : Reading (Option String × Option String) := do
  let before ← anchorName
  let tag ← tagText
  let after ← if before.isNone && tag.isSome then anchorName else pure none
  let tag ← tag.mapM fullTag
  return (before.or after, tag)

/-- The kind of a collection. The tag `!` leaves it open. -/
def collectionTag (form : Tag) : Option String → Tag
  | none => form
  | some name => if name == "!" then form else .ofName name

/-- The kind of a scalar. The tag `!` leaves it open even if the scalar is not plain. -/
def scalarTag (text : String) (plain : Bool) : Option String → Tag
  | none => if plain then .ofPlain text else .text
  | some name => if name == "!" then .ofPlain text else .ofName name

/-! ### Nodes -/

/-- The greatest depth of collections inside one another. -/
def maxDepth : Nat :=
  488

mutual

/-- The next node, inside of `depth` collections. In a block it may be a block itself; behind a key
the entries of a sequence may stand without a block of their own. -/
def node (fuel depth : Nat) (block loose : Bool) : Reading Node :=
  match fuel with
  | 0 => throw .malformed
  | fuel + 1 => do
    if depth > maxDepth then throw .tooDeep
    match ← peek with
    | some (.reference name) =>
      skip
      nodeNamed name
    | _ =>
      let (name, tag) ← properties
      let sequence := fun items : Reading (List Node) =>
        nameCollection name do return .sequence (collectionTag .list tag) (← items)
      let mapping := fun entries : Reading (List (Node × Node)) =>
        nameCollection name do return .mapping (collectionTag .mapping tag) (← entries)
      let absent : Reading Node :=
        if name.isSome || tag.isSome then nameScalar name (.scalar (scalarTag "" true tag) "")
        else throw .malformed
      match ← peek with
      | some .entry => if loose then sequence (looseItems fuel (depth + 1)) else absent
      | some (.scalar text plain) =>
        skip
        nameScalar name (.scalar (scalarTag text plain tag) text)
      | some .sequenceOpen => sequence (skip *> flowItems fuel (depth + 1) true)
      | some .mappingOpen => mapping (skip *> flowEntries fuel (depth + 1) true)
      | some .sequenceBlock =>
        if block then sequence (skip *> blockItems fuel (depth + 1)) else absent
      | some .mappingBlock =>
        if block then mapping (skip *> blockEntries fuel (depth + 1)) else absent
      | _ => absent

/-- A node unless one of the tokens comes next. -/
def nodeUnless (fuel depth : Nat) (ends : List Token) (block loose : Bool) : Reading Node :=
  match fuel with
  | 0 => throw .malformed
  | fuel + 1 => do
    if ← atAny ends then return .absent
    else node fuel depth block loose

/-- The entries of a sequence in a block. -/
def blockItems (fuel depth : Nat) : Reading (List Node) :=
  match fuel with
  | 0 => throw .malformed
  | fuel + 1 => do
    if ← accept .entry then
      let first ← nodeUnless fuel depth [.entry, .blockEnd] true false
      let others ← blockItems fuel depth
      return first :: others
    else
      expect .blockEnd
      return []

/-- The entries of a sequence without a block. -/
def looseItems (fuel depth : Nat) : Reading (List Node) :=
  match fuel with
  | 0 => throw .malformed
  | fuel + 1 => do
    if ← accept .entry then
      let first ← nodeUnless fuel depth [.entry, .key, .value, .blockEnd] true false
      let others ← looseItems fuel depth
      return first :: others
    else return []

/-- The entries of a mapping in a block. -/
def blockEntries (fuel depth : Nat) : Reading (List (Node × Node)) :=
  match fuel with
  | 0 => throw .malformed
  | fuel + 1 => do
    if ← accept .key then
      let key ← nodeUnless fuel depth [.key, .value, .blockEnd] true true
      let value ←
        if ← accept .value then nodeUnless fuel depth [.key, .value, .blockEnd] true true
        else pure .absent
      let others ← blockEntries fuel depth
      return (key, value) :: others
    else
      expect .blockEnd
      return []

/-- The items between square brackets. An item may be a mapping of one entry. -/
def flowItems (fuel depth : Nat) (first : Bool) : Reading (List Node) :=
  match fuel with
  | 0 => throw .malformed
  | fuel + 1 => do
    if ← accept .sequenceClose then return []
    else
      if !first then expect .comma
      if ← accept .sequenceClose then return []
      else
        let item ←
          if ← accept .key then
            let key ← nodeUnless fuel (depth + 1) [.value, .comma, .sequenceClose] false false
            let value ←
              if ← accept .value then
                nodeUnless fuel (depth + 1) [.comma, .sequenceClose] false false
              else pure .absent
            pure (.mapping .mapping [(key, value)])
          else node fuel depth false false
        let others ← flowItems fuel depth false
        return item :: others

/-- The entries between curly brackets. An entry without a colon has no value. -/
def flowEntries (fuel depth : Nat) (first : Bool) : Reading (List (Node × Node)) :=
  match fuel with
  | 0 => throw .malformed
  | fuel + 1 => do
    if ← accept .mappingClose then return []
    else
      if !first then expect .comma
      if ← accept .mappingClose then return []
      else
        let entry ←
          if ← accept .key then
            let key ← nodeUnless fuel depth [.value, .comma, .mappingClose] false false
            let value ←
              if ← accept .value then nodeUnless fuel depth [.comma, .mappingClose] false false
              else pure .absent
            pure (key, value)
          else
            let key ← node fuel depth false false
            pure (key, .absent)
        let others ← flowEntries fuel depth false
        return entry :: others

end

/-! ### Documents -/

/-- Takes the directives at the front and gives the handles their meanings. A document has one
version, the first, and no handle has two meanings. -/
def directives (fuel : Nat) (versioned : Bool) (handles : List (String × String)) :
    Reading Unit :=
  match fuel with
  | 0 => throw .malformed
  | fuel + 1 => do
    match ← peek with
    | some (.directive d) =>
      skip
      match d with
      | .version major =>
        if versioned || major != 1 then throw .malformed
        directives fuel true handles
      | .handle name expansion =>
        if (handles.lookup name).isSome then throw .malformed
        directives fuel versioned ((name, expansion) :: handles)
      | .other => directives fuel versioned handles
    | _ => modify fun s => { s with handles := handles ++ standardHandles }

/-- Whether a directive comes next. -/
def atDirective : Reading Bool := do
  match ← peek with
  | some (.directive _) => return true
  | _ => return false

/-- The node behind the mark at the beginning of a document. -/
def content (fuel : Nat) : Reading Node := do
  if (← peek).isNone then return .absent
  else if ← atDirective then return .absent
  else nodeUnless fuel 0 [.documentStart, .documentEnd] true false

/-- Skips the marks at the end of a document. -/
def skipEnds : Nat → Reading Unit
  | 0 => return
  | fuel + 1 => do
    if ← accept .documentEnd then skipEnds fuel

/-- The only document of a text, if there is one. -/
def document (fuel : Nat) : Reading (Option Node) := do
  if (← peek).isNone then return none
  let root ←
    if (← atDirective) || (← atAny [.documentStart]) then
      directives fuel false []
      expect .documentStart
      content fuel
    else node fuel 0 true false
  skipEnds fuel
  if (← peek).isSome then throw .malformed
  return some root

end Reading

/-- The document of a text, if it has one. Every step but the opening of a node consumes a token, so
three times their number is fuel enough. -/
def document (text : String) : Except ReadError (Option Node) :=
  let (tokens, fault) := tokens text
  let source : Source := { tokens, fault, named := [], handles := standardHandles }
  (Reading.document (3 * tokens.length + 3)).run' source

end FuzzyLogic.Data.Yaml
