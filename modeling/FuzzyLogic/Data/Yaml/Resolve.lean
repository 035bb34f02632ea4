import FuzzyLogic.Data.Base64
import FuzzyLogic.Data.Yaml.Node
import FuzzyLogic.Data.Yaml.Number
import FuzzyLogic.Data.Yaml.Staged

set_option autoImplicit false

/-! # The values of YAML nodes

The value of a node is read by its kind. The key `<<` stands for the entries of the mappings that it
is given; those come before the mapping's own entries, so that the own ones count. Where a scalar is
asked for, a mapping stands for the value under its key `=`. -/

namespace FuzzyLogic.Data.Yaml

/-- The kind of a node. -/
def Node.tag : Node → Tag
  | .scalar tag _ => tag
  | .sequence tag _ => tag
  | .mapping tag _ => tag
  | .enclosing _ => .unknown
  | .again n => n.tag

/-! ## Merging -/

/-- The node out of the collection that it stands in. -/
def Node.takenOut : Node → Node
  | .again n => n
  | n => n

/-- The entries of a mapping for use in another one. -/
def mappingEntries? : Node → Option (List (Node × Node))
  | .mapping _ entries => some (entries.map fun e => (e.1, e.2.takenOut))
  | .again (.mapping _ entries) => some entries
  | _ => none

/-- The entries that the key `<<` stands for. Of several mappings the first counts most. -/
def mergedEntries? : Node → Option (List (Node × Node))
  | .sequence _ items | .again (.sequence _ items) =>
    (items.mapM mappingEntries?).map fun parts => parts.reverse.flatten
  | n => mappingEntries? n

mutual

/-- The node with all keys `<<` replaced by the entries that they stand for. A key that stands for
none is left. -/
def Node.merge : Node → Node
  | .sequence tag items => .sequence tag (mergeItems items)
  | .mapping tag entries =>
    let (merged, own) := mergeEntries entries
    .mapping tag (merged ++ own)
  | .again n => .again n.merge
  | n => n

/-- The items with all keys `<<` replaced. -/
def mergeItems : List Node → List Node
  | [] => []
  | n :: rest => n.merge :: mergeItems rest

/-- The entries that come from other mappings, and the mapping's own. -/
def mergeEntries : List (Node × Node) → List (Node × Node) × List (Node × Node)
  | [] => ([], [])
  | (k, n) :: rest =>
    let key := k.merge
    let value := n.merge
    let (merged, own) := mergeEntries rest
    match if key.tag == .merge then mergedEntries? value else none with
    | some entries => (entries ++ merged, own)
    | none => (merged, (key, value) :: own)

end

/-! ## Scalars -/

/-- The truth value that a word stands for, in any letter case. -/
def truthOf (text : String) : Except ReadError Bool :=
  let word := Text.lower text
  if ["yes", "true", "on"].contains word then .ok true
  else if ["no", "false", "off"].contains word then .ok false
  else .error .notATruthWord

/-- The bytes that a text spells in base 64. -/
def bytesOf (text : String) : Except ReadError (List UInt8) :=
  if text.toList.all (fun c => c.toNat < 0x80) then orMalformed (Base64.decode? text)
  else .error .malformed

/-- The day or the moment that a text spells. -/
def timeOf (text : String) : Except ReadError Value :=
  match TimeText.read? (withoutFinalBreak text.toList) with
  | none => .error .notATime
  | some (.day d _) => if d.isValid then .ok (.date d) else .error .malformed
  | some (.moment m) => if m.isValid then .ok (.moment m) else .error .malformed

/-- The value of a scalar of the given kind. -/
def scalarValue (text : String) : Tag → Except ReadError Value
  | .null => .ok .null
  | .truth => (truthOf text).map .bool
  | .integer => (integerOf text).map .integer
  | .float => (floatOf text).map .number
  | .binary => (bytesOf text).map .bytes
  | .time => timeOf text
  | .text => .ok (.text text)
  | _ => .error .malformed

mutual

/-- The text of a node where a scalar is asked for. -/
def Node.scalarText? : Node → Option String
  | .scalar _ text => some text
  | .mapping _ entries => valueText? entries
  | _ => none

/-- The text under the key `=`. -/
def valueText? : List (Node × Node) → Option String
  | [] => none
  | (k, n) :: rest => if k.tag == .value then n.scalarText? else valueText? rest

end

/-- The value of a mapping of the kind of a scalar. -/
def mappingScalar (entries : List (Node × Node)) (tag : Tag) : Except ReadError Value := do
  let text ← orMalformed (valueText? entries)
  if tag == .time then .error .timeOfMapping
  scalarValue text tag

/-! ## Collections -/

/-- Enters all entries, later ones in the place of earlier ones with the same key. -/
def putAll (entries : List (Value × Value)) : List (Value × Value) :=
  entries.foldl (fun acc (k, v) => Value.putEntry k v acc) []

/-- The set of the keys of a mapping. -/
def keySet (entries : List (Value × Value)) : Value :=
  .set ((putAll entries).map Prod.fst)

/-- The empty value of a kind of collections. -/
def emptyCollection? : Tag → Option Value
  | .list | .orderedMap | .pairs => some (.list [])
  | .mapping => some (.mapping [])
  | .set => some (.set [])
  | _ => none

/-- A node that is no collection of the kind that it is said to be: the value is begun, and cannot
be filled. -/
def unfilled (tag : Tag) : Staged Value :=
  match emptyCollection? tag with
  | some v => (Staged.fail .malformed v).later
  | none => .fail .malformed .null

/-- A value as a key. -/
def checkKey (v : Value) : Staged Value :=
  if v.isKey then .pure v else .fail .malformed v

mutual

/-- The value of a node. -/
def Node.value : Node → Staged Value
  | .scalar tag text =>
    if (emptyCollection? tag).isSome then unfilled tag
    else .ofExcept (scalarValue text tag)
  | .sequence tag items =>
    match tag with
    | .list => ((itemValues items).map .list).later
    | .orderedMap | .pairs => ((pairValues items).map .list).later
    | tag => unfilled tag
  | .mapping tag entries =>
    let filled := fun build : List (Value × Value) → Value =>
      if entries.any fun e => e.1.tag == .merge then unfilled tag
      else ((entryValues entries).map build).later
    match tag with
    | .mapping => filled fun es => .mapping (putAll es)
    | .set => filled keySet
    | tag =>
      if (emptyCollection? tag).isSome then unfilled tag
      else .ofExcept (mappingScalar entries tag)
  | .enclosing _ => .fail .malformed .null
  | .again n => n.value.map .again

/-- The values of the items of a sequence. -/
def itemValues : List Node → Staged (List Value)
  | [] => .pure []
  | n :: rest => n.value.both (· :: ·) (itemValues rest)

/-- The values of items that are mappings of one entry. -/
def pairValues : List Node → Staged (List Value)
  | [] => .pure []
  | .mapping _ [(k, n)] :: rest =>
    (k.value.both .pair n.value).both (· :: ·) (pairValues rest)
  | _ :: _ => .fail .malformed []

/-- The values of the entries of a mapping. The key `=` is a text. -/
def entryValues : List (Node × Node) → Staged (List (Value × Value))
  | [] => .pure []
  | (k, n) :: rest =>
    let key : Staged Value := match k with
      | .scalar .value text => .pure (.text text)
      | k => k.value
    let key := key.both (fun v _ => v) (checkKey key.value)
    (key.both Prod.mk n.value).both (· :: ·) (entryValues rest)

end

/-! ## Texts -/

/-- The value that a text spells; a text without a document spells null. -/
def read (text : String) : Except ReadError Value := do
  match ← document text with
  | none => return .null
  | some root => root.merge.value.result

end FuzzyLogic.Data.Yaml
