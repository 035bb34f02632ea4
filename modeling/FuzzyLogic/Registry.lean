set_option autoImplicit false

/-! # Registries

A registry keeps objects under names, in the order in which the names were first entered. It is the
shape of every store of a model: the variables, the labels of a variable, the rules, and a list of
inputs. Giving a name a new object keeps the name's place. -/

namespace FuzzyLogic

/-- Objects of type `β` under names, in the order of entry. -/
structure Registry (β : Type) where
  entries : List (String × β)
  deriving Repr, BEq

namespace Registry

variable {β γ : Type}

/-- The registry without entries. -/
def empty : Registry β :=
  ⟨[]⟩

instance : EmptyCollection (Registry β) where
  emptyCollection := empty

/-! ## Reading -/

/-- The names in order. -/
def names (r : Registry β) : List String :=
  r.entries.map Prod.fst

/-- The objects in order. -/
def objects (r : Registry β) : List β :=
  r.entries.map Prod.snd

/-- The number of entries. -/
def size (r : Registry β) : Nat :=
  r.entries.length

/-- The object under the name. -/
def get? (r : Registry β) (name : String) : Option β :=
  r.entries.lookup name

/-- Whether the name is in use. -/
def contains (r : Registry β) (name : String) : Bool :=
  (r.get? name).isSome

/-! ## Changing -/

/-- Replaces the object of a name that is in use, in its place. -/
def replaceIn (name : String) (b : β) : List (String × β) → List (String × β)
  | [] => []
  | (n, c) :: rest => if name == n then (n, b) :: rest else (n, c) :: replaceIn name b rest

/-- Puts the object under the name: in the name's place if it is in use, and at the end
otherwise. -/
def insert (r : Registry β) (name : String) (b : β) : Registry β :=
  if r.contains name then ⟨replaceIn name b r.entries⟩ else ⟨r.entries ++ [(name, b)]⟩

/-- Drops the entry under the name. -/
def erase (r : Registry β) (name : String) : Registry β :=
  ⟨r.entries.filter fun e => e.1 != name⟩

/-- Enters the pairs one after the other. -/
def ofList (pairs : List (String × β)) : Registry β :=
  pairs.foldl (fun r e => r.insert e.1 e.2) empty

/-- Changes every object. -/
def map (f : β → γ) (r : Registry β) : Registry γ :=
  ⟨r.entries.map fun e => (e.1, f e.2)⟩

/-! ## Laws -/

@[simp] theorem get?_empty (name : String) : (empty : Registry β).get? name = none := rfl

theorem lookup_replaceIn (entries : List (String × β)) (name n : String) (b : β)
    (h : (entries.lookup name).isSome) :
    (replaceIn name b entries).lookup n = if n = name then some b else entries.lookup n := by
  induction entries with
  | nil => simp at h
  | cons e rest ih =>
    obtain ⟨m, c⟩ := e
    simp only [List.lookup_cons] at h
    by_cases hm : name = m
    · subst hm
      by_cases hn : n = name
      · simp [replaceIn, hn]
      · have hf : (n == name) = false := by simp [hn]
        simp [replaceIn, List.lookup_cons, hn, hf]
    · have hf : (name == m) = false := by simp [hm]
      simp only [hf] at h
      simp only [replaceIn, hf, Bool.false_eq_true, if_false, List.lookup_cons]
      by_cases hn : n = m
      · subst hn
        simp [Ne.symm hm]
      · have hf' : (n == m) = false := by simp [hn]
        simp [hf', ih h]

/-- After an insertion the name has the new object and every other name its old one. -/
theorem get?_insert (r : Registry β) (name n : String) (b : β) :
    (r.insert name b).get? n = if n = name then some b else r.get? n := by
  unfold insert
  split
  · next h => exact lookup_replaceIn r.entries name n b h
  · next h =>
    simp only [contains, get?, Bool.not_eq_true, Option.isSome_eq_false_iff,
      Option.isNone_iff_eq_none] at h
    simp only [get?, List.lookup_append, List.lookup_cons, List.lookup_nil]
    by_cases hn : n = name
    · subst hn; simp [h]
    · have hf : (n == name) = false := by simp [hn]
      simp [hf, hn]

theorem names_replaceIn (entries : List (String × β)) (name : String) (b : β) :
    (replaceIn name b entries).map Prod.fst = entries.map Prod.fst := by
  induction entries with
  | nil => rfl
  | cons e rest ih =>
    obtain ⟨m, c⟩ := e
    by_cases hm : name == m <;> simp [replaceIn, hm, ih]

/-- An insertion keeps the names and their order, and adds a new name at the end. -/
theorem names_insert (r : Registry β) (name : String) (b : β) :
    (r.insert name b).names = if r.contains name then r.names else r.names ++ [name] := by
  unfold insert names
  split <;> simp [names_replaceIn]

theorem names_erase (r : Registry β) (name : String) :
    (r.erase name).names = r.names.filter (· != name) := by
  simp only [erase, names, List.filter_map]
  congr 1

end Registry

end FuzzyLogic
