import FuzzyLogic.Assignment
import FuzzyLogic.Proofs.Decimal
import FuzzyLogic.Proofs.Failure
import FuzzyLogic.Proofs.Registry
import FuzzyLogic.Proofs.Text.Word
import Mathlib.Data.List.Forall2
import Mathlib.Data.List.TakeDrop

set_option autoImplicit false

/-! # Reading assignments

However assignments are given, they are read in turn: either all of them can be read, and their
values are entered under their keys, or the first one that cannot be read is the error. An
assignment `key=value` is cut at its first equals sign, so the key has to be without one. -/

namespace FuzzyLogic

open Text

namespace Assignment

/-! ## Items -/

theorem splitAtCommas_eq_splitOn (cs : List Char) : splitAtCommas cs = cs.splitOn ',' := by
  induction cs with
  | nil => rfl
  | cons c cs ih =>
      rw [splitAtCommas, List.splitOn_cons_eq_if_modifyHead, ih]
      split
      · rfl
      · obtain ⟨part, parts, hparts⟩ := List.exists_cons_of_ne_nil (List.splitOn_ne_nil ',' cs)
        rw [hparts]
        rfl

/-- A text without commas is one item, or none if it is blank. -/
theorem items_of_no_comma {text : String} (h : ',' ∉ text.toList) :
    items text = [trim text].filter fun item => !item.isEmpty := by
  rw [items, splitAtCommas_eq_splitOn, List.splitOn_eq_singleton h, List.map_singleton,
    String.ofList_toList]

/-- A comma between two texts keeps their items apart. -/
theorem items_append_comma (s t : String) : items (s ++ "," ++ t) = items s ++ items t := by
  have hchars : (s ++ "," ++ t).toList = s.toList ++ ',' :: t.toList := by simp
  simp only [items, splitAtCommas_eq_splitOn, hchars, List.splitOn_append_cons_self,
    List.map_append, List.filter_append]

/-- The items of texts that are joined by commas are those of the texts, in their order. -/
theorem items_intercalate (texts : List String) :
    items (",".intercalate texts) = texts.flatMap items := by
  induction texts with
  | nil => rfl
  | cons text rest ih =>
      cases rest with
      | nil => simp
      | cons next rest =>
          rw [String.intercalate_cons_cons, items_append_comma, ih, ← List.flatMap_cons]

/-! ## Reading in turn -/

section

variable {ι : Type}

/-- What is read item by item is entered. -/
def enter (f : ι → Except ValueError (String × Float)) (items : List ι) :
    Except ValueError (Registry Float) := do
  let pairs ← items.mapM f
  return .ofList pairs

/-- The outcome of reading item by item: if all can be read, the keys stand in the order in which
they come first, and each has the value that it is given last; otherwise the error is that of the
first item that cannot be read. -/
inductive Entered (f : ι → Except ValueError (String × Float)) (items : List ι) :
    Except ValueError (Registry Float) → Prop
  | all {pairs : List (String × Float)} {inputs : Registry Float}
      (hread : items.map f = pairs.map .ok)
      (hkeys : inputs.names = (pairs.map Prod.fst).eraseDups)
      (hvalues : ∀ key, inputs.get? key = pairs.reverse.lookup key) :
      Entered f items (.ok inputs)
  | first {before : List ι} {item : ι} {after : List ι} {e : ValueError}
      (hitems : items = before ++ item :: after) (hbefore : ∀ i ∈ before, ∃ pair, f i = .ok pair)
      (hitem : f item = .error e) : Entered f items (.error e)

variable {f g : ι → Except ValueError (String × Float)} {items : List ι}
  {inputs : Registry Float}

theorem enter_eq_ok_iff :
    enter f items = .ok inputs ↔ ∃ pairs, items.map f = pairs.map .ok ∧ inputs = .ofList pairs := by
  simp only [enter, bind_eq_ok_iff, listMapM_eq_ok_iff, pure_eq_ok_iff, eq_comm (a := inputs)]

theorem entered_enter (f : ι → Except ValueError (String × Float)) (items : List ι) :
    Entered f items (enter f items) := by
  cases h : enter f items with
  | ok inputs =>
      obtain ⟨pairs, hread, rfl⟩ := enter_eq_ok_iff.1 h
      exact .all hread (Registry.names_ofList pairs) (Registry.get?_ofList_eq pairs)
  | error e =>
      obtain h | ⟨pairs, -, hpure⟩ := bind_eq_error_iff.1 h
      · obtain ⟨before, item, after, hitems, hbefore, hitem⟩ := listMapM_eq_error_iff.1 h
        exact .first hitems hbefore hitem
      · cases hpure

/-- Whoever reads the same gets the same. -/
theorem enter_eq_ok_of_forall (h : ∀ i ∈ items, ∀ pair, f i = .ok pair → g i = .ok pair)
    (hf : enter f items = .ok inputs) : enter g items = .ok inputs := by
  obtain ⟨pairs, hread, rfl⟩ := enter_eq_ok_iff.1 hf
  refine enter_eq_ok_iff.2 ⟨pairs, ?_, rfl⟩
  rw [← hread]
  refine List.map_congr_left fun i hi => ?_
  have hmem : f i ∈ pairs.map .ok := hread ▸ List.mem_map_of_mem hi
  obtain ⟨pair, -, hpair⟩ := List.mem_map.1 hmem
  rw [h i hi pair hpair.symm, ← hpair]

end

/-! ## Texts -/

/-- One item as a part of a configuration. -/
def readItem (item : String) : Except ValueError (String × Float) :=
  (read item).mapError .assignment

theorem ofText_eq (text : String) : ofText text = (items text).mapM readItem := by
  have hmap : ofText text = ((items text).mapM read).mapError ValueError.assignment := by
    rw [ofText]
    cases (items text).mapM read <;> rfl
  exact hmap.trans (listMapM_mapError read ValueError.assignment (items text)).symm

/-- Texts in a list are read item by item, wherever one of them ends. -/
theorem ofItems_texts (texts : List String) :
    ofItems (texts.map .text) = enter readItem (texts.flatMap items) := by
  have hread (text : String) : (written (.text text) >>= ofText) = (items text).mapM readItem :=
    ofText_eq text
  rw [ofItems, enter, List.mapM_map, listMapM_flatMap]
  simp only [Function.comp_def, hread]
  cases texts.mapM fun text => (items text).mapM readItem <;> rfl

theorem ofValue_list (values : List Data.Value) : ofValue (.list values) = ofItems values := by
  cases values <;> rfl

theorem ofValue_text (text : String) : ofValue (.text text) = ofItems [.text text] := by
  cases h : text.isEmpty with
  | false => simp [ofValue, Data.Value.isBlank, h]
  | true =>
      obtain rfl : text = "" := by simpa using h
      rfl

/-! ## Keys and values -/

/-- The assignment of a value to a key, as it is written. -/
def write (key value : String) : String :=
  key ++ "=" ++ value

/-- A text that stays the key when a value is written behind it. -/
structure Key (key : String) : Prop where
  ne_empty : key ≠ ""
  trim_eq : trim key = key
  no_equals : '=' ∉ key.toList
  no_comma : ',' ∉ key.toList

theorem key_iff {key : String} :
    Key key ↔ key ≠ "" ∧ trim key = key ∧ '=' ∉ key.toList ∧ ',' ∉ key.toList :=
  ⟨fun h => ⟨h.ne_empty, h.trim_eq, h.no_equals, h.no_comma⟩,
    fun h => ⟨h.1, h.2.1, h.2.2.1, h.2.2.2⟩⟩

instance (key : String) : Decidable (Key key) :=
  decidable_of_iff _ key_iff.symm

theorem toList_write (key value : String) :
    (write key value).toList = key.toList ++ '=' :: value.toList := by
  simp [write]

variable {key value : String}

theorem Key.trimmed (hkey : Key key) : Trimmed isBlank key.toList := by
  have htrim := congrArg String.toList hkey.trim_eq
  rw [trim, String.toList_ofList] at htrim
  exact htrim ▸ trimmed_trimBy isBlank key.toList

/-- The blanks behind the value are the only ones at the ends of an assignment. -/
theorem exists_trim_write (hkey : Key key) (value : String) :
    ∃ shown, trim (write key value) = write key shown ∧ trim shown = trim value := by
  have hne : key.toList ≠ [] := by simpa using hkey.ne_empty
  have hvalue : value.toList.rdropWhile isBlank ++ value.toList.rtakeWhile isBlank = value.toList :=
    List.rdropWhile_append_rtakeWhile
  have hback : ∀ c ∈ value.toList.rtakeWhile isBlank, isBlank c = true :=
    fun c hc => List.mem_rtakeWhile_imp hc
  refine ⟨String.ofList (value.toList.rdropWhile isBlank), ?_, ?_⟩
  · have hlast : ∀ c ∈ ('=' :: value.toList.rdropWhile isBlank).getLast?, isBlank c = false := by
      intro c hc
      rw [List.getLast?_cons] at hc
      obtain rfl := Option.some.inj hc
      cases hend : (value.toList.rdropWhile isBlank).getLast? with
      | none => decide
      | some d => exact not_of_mem_getLast?_rdropWhile isBlank value.toList d hend
    have hitem := trimBy_append_right (key.toList ++ '=' :: value.toList.rdropWhile isBlank) hback
    rw [trimBy_eq_of_trimmed (hkey.trimmed.append hne (by simp) hlast), List.append_assoc,
      List.cons_append, hvalue] at hitem
    rw [trim, toList_write, hitem, ← String.toList_inj, toList_write]
    simp
  · rw [trim, trim, String.toList_ofList, ← trimBy_append_right _ hback, hvalue]

theorem splitAtEquals_append {cs rest : List Char} (h : '=' ∉ cs) :
    splitAtEquals (cs ++ '=' :: rest) = some (cs, rest) := by
  have hkeys : ∀ c ∈ cs, (c != '=') = true :=
    fun c hc => bne_iff_ne.2 (ne_of_mem_of_not_mem hc h)
  have hspan : (cs ++ '=' :: rest).span (· != '=') = (cs, '=' :: rest) := by
    rw [List.span_eq_takeWhile_dropWhile, List.takeWhile_append_of_pos hkeys,
      List.dropWhile_append_of_pos hkeys]
    simp
  rw [splitAtEquals, hspan]

/-- A value under its key, if `spells` tells the number that it spells. -/
def entry (spells : String → Option Float) (complain : String × String → ValueError)
    (a : String × String) : Except ValueError (String × Float) :=
  match spells a.2 with
  | some x => .ok (a.1, x)
  | none => .error (complain a)

theorem entry_eq_ok_iff {spells : String → Option Float} {complain : String × String → ValueError}
    {a : String × String} {pair : String × Float} :
    entry spells complain a = .ok pair ↔ a.1 = pair.1 ∧ spells a.2 = some pair.2 := by
  unfold entry
  cases spells a.2 with
  | some x => simp [Prod.ext_iff]
  | none => simp

/-- What is wrong with an assignment whose value spells no number. -/
def complaint (a : String × String) : AssignmentError :=
  if (trim a.2).isEmpty then .emptyPart (trim (write a.1 a.2))
  else .valueNotANumber (trim a.2) (trim (write a.1 a.2))

/-- The number that a text spells without the blanks around it. -/
def spelled? (value : String) : Option Float :=
  Decimal.read? (trim value)

/-- An assignment is read as its key and the number that the value spells without the blanks around
it. -/
theorem readItem_trim_write (hkey : Key key) (value : String) :
    readItem (trim (write key value))
      = entry spelled? (fun a => .assignment (complaint a)) (key, value) := by
  obtain ⟨shown, hitem, hshown⟩ := exists_trim_write hkey value
  have hsplit : splitAtEquals (write key shown).toList = some (key.toList, shown.toList) := by
    rw [toList_write, splitAtEquals_append hkey.no_equals]
  have hkeyne : key.isEmpty = false := by simpa using hkey.ne_empty
  rw [readItem, entry, complaint, hitem, read, hsplit]
  simp only [String.ofList_toList, hkey.trim_eq, hshown, hkeyne, Bool.false_or, spelled?]
  by_cases hempty : (trim value).isEmpty = true
  · obtain hnil : trim value = "" := by simpa using hempty
    have hnone : Decimal.read? "" = none := by decide +kernel
    simp [hnil, hnone, Except.mapError]
  · simp only [hempty]
    cases Decimal.read? (trim value) <;> rfl

theorem items_write (hkey : Key key) (hvalue : ',' ∉ value.toList) :
    items (write key value) = [trim (write key value)] := by
  obtain ⟨shown, hitem, -⟩ := exists_trim_write hkey value
  have hne : (write key shown).isEmpty = false := by simp [write]
  have hcommas : ',' ∉ (write key value).toList := by
    rw [toList_write, List.mem_append, List.mem_cons, not_or, not_or]
    exact ⟨hkey.no_comma, by decide, hvalue⟩
  rw [items_of_no_comma hcommas, hitem, List.filter_cons_of_pos (by simp [hne]), List.filter_nil]

/-! ## Lists of assignments -/

/-- Keys that stay the keys when the values are written behind them, and values without commas. -/
def Separable (assignments : List (String × String)) : Prop :=
  ∀ a ∈ assignments, Key a.1 ∧ ',' ∉ a.2.toList

instance (assignments : List (String × String)) : Decidable (Separable assignments) :=
  inferInstanceAs (Decidable (∀ a ∈ assignments, _))

/-- The value of an option that was given by assignments. -/
def given (assignments : List (String × String)) : Data.Value :=
  .list (assignments.map fun a => .text (write a.1 a.2))

theorem mapM_readItem_write {assignments : List (String × String)} (h : Separable assignments) :
    ((assignments.map fun a => write a.1 a.2).flatMap items).mapM readItem
      = assignments.mapM (entry spelled? fun a => .assignment (complaint a)) := by
  induction assignments with
  | nil => rfl
  | cons a rest ih =>
      obtain ⟨⟨hkey, hvalue⟩, hrest⟩ := List.forall_mem_cons.1 h
      rw [List.map_cons, List.flatMap_cons, items_write hkey hvalue, List.singleton_append,
        List.mapM_cons, List.mapM_cons, readItem_trim_write hkey, ih hrest]

theorem ofValue_given {assignments : List (String × String)} (h : Separable assignments) :
    ofValue (given assignments)
      = enter (entry spelled? fun a => .assignment (complaint a)) assignments := by
  have htexts : given assignments = .list ((assignments.map fun a => write a.1 a.2).map .text) := by
    rw [given, List.map_map]
    rfl
  rw [htexts, ofValue_list, ofItems_texts, enter, enter, mapM_readItem_write h]

/-- The value of the first pair spells that of the second, under the same key. -/
def Reads (assignment : String × String) (pair : String × Float) : Prop :=
  assignment.1 = pair.1 ∧ Decimal.read? assignment.2 = some pair.2

/-- Assignments can be read if all their values can. -/
theorem exists_reads_iff {assignments : List (String × String)} :
    (∃ pairs, List.Forall₂ Reads assignments pairs) ↔
      ∀ a ∈ assignments, ∃ x, Decimal.read? a.2 = some x := by
  induction assignments with
  | nil => simp
  | cons a rest ih =>
      rw [List.forall_mem_cons, ← ih]
      constructor
      · rintro ⟨_, hall⟩
        obtain ⟨pair, pairs, hpair, hpairs, rfl⟩ := List.forall₂_cons_left_iff.1 hall
        exact ⟨⟨_, hpair.2⟩, pairs, hpairs⟩
      · rintro ⟨⟨x, hx⟩, pairs, hpairs⟩
        exact ⟨(a.1, x) :: pairs, .cons ⟨rfl, hx⟩ hpairs⟩

theorem keys_eq_of_reads {assignments : List (String × String)} {pairs : List (String × Float)}
    (h : List.Forall₂ Reads assignments pairs) : assignments.map Prod.fst = pairs.map Prod.fst := by
  induction h with
  | nil => rfl
  | cons hpair _ ih => rw [List.map_cons, List.map_cons, hpair.1, ih]

theorem map_entry_eq_iff {complain : String × String → ValueError}
    {assignments : List (String × String)} {pairs : List (String × Float)} :
    assignments.map (entry Decimal.read? complain) = pairs.map .ok ↔
      List.Forall₂ Reads assignments pairs := by
  rw [← List.forall₂_eq_eq_eq, List.forall₂_map_left_iff, List.forall₂_map_right_iff]
  simp only [entry_eq_ok_iff]
  rfl

/-- Keys and values are plain words. -/
def PlainWords (assignments : List (String × String)) : Prop :=
  ∀ a ∈ assignments, PlainWord a.1 ∧ PlainWord a.2

theorem key_of_plainWord (h : PlainWord key) : Key key where
  ne_empty := h.ne_empty
  trim_eq := h.trim_eq
  no_equals hmem := ne_of_isPlain (h.plain _ hmem) (by decide) rfl
  no_comma hmem := ne_of_isPlain (h.plain _ hmem) (by decide) rfl

theorem PlainWords.separable {assignments : List (String × String)} (h : PlainWords assignments) :
    Separable assignments := by
  intro a ha
  obtain ⟨hkey, hvalue⟩ := h a ha
  exact ⟨key_of_plainWord hkey, (key_of_plainWord hvalue).no_comma⟩

theorem ofValue_given_eq_ok_iff {assignments : List (String × String)} (h : PlainWords assignments)
    {inputs : Registry Float} :
    ofValue (given assignments) = .ok inputs ↔
      ∃ pairs, List.Forall₂ Reads assignments pairs ∧ inputs = .ofList pairs := by
  have hspelled : assignments.map (entry spelled? fun a => .assignment (complaint a))
      = assignments.map (entry Decimal.read? fun a => .assignment (complaint a)) := by
    refine List.map_congr_left fun a ha => ?_
    rw [entry, entry, spelled?, (h a ha).2.trim_eq]
  rw [ofValue_given h.separable, enter_eq_ok_iff, hspelled]
  simp only [map_entry_eq_iff]

end Assignment

end FuzzyLogic
