import FuzzyLogic.Proofs.ModelFile.Reachable
import FuzzyLogic.Proofs.Range

set_option autoImplicit false

/-! # Setting inputs together

A mapping from names to numbers is set one entry after the other. Whether an entry can be set
depends on the range of its variable only, and different names of the database mean different
variables, so that the entries do not see each other: as long as none is refused, every variable
gets the number under its own name, whatever the order is. -/

namespace FuzzyLogic

namespace Model

/-! ## Names of variables -/

section

variable {α : Type} {m u : Model α} {name n : String} {ref ref' : VariableRef}

/-- One of the names is that of the variable that the reference points to. -/
def Names (m : Model α) (names : List String) (ref : VariableRef) : Prop :=
  ∃ name ∈ names, ∃ other, m.database.get? name = some other ∧ other.id = ref.id

/-- Names of one variable are the same name. -/
theorem Held.name_eq (hm : m.Held) (h : m.database.get? name = some ref)
    (h' : m.database.get? n = some ref') (hid : ref.id = ref'.id) : name = n := by
  obtain ⟨v, hv, hname⟩ := hm _ (Registry.mem_entries_of_get? h)
  obtain ⟨w, hw, hname'⟩ := hm _ (Registry.mem_entries_of_get? h')
  obtain rfl := Option.some.inj (hw.symm.trans ((deref?_congr hid).trans hv))
  exact hname.symm.trans hname'

end

/-! ## Setting one input -/

section

variable {α : Type} [Scalar α] {m u w : Model α} {clamp : Bool} {name : String} {x : α}
  {inputs before after : List (String × α)} {entry : String × α}

/-- The entry of a mapping can be set: the name is known, and the variable admits the input that it
is given for the number. -/
def Accepts (m : Model α) (clamp : Bool) (entry : String × α) : Prop :=
  ∃ ref v, m.find entry.1 = .ok (ref, v) ∧ v.admits (v.taken clamp entry.2) = true

theorem assign_eq_ok_iff_find :
    m.assign clamp name x = .ok u ↔
      ∃ ref v, m.find name = .ok (ref, v) ∧ v.admits (v.taken clamp x) = true ∧
        u = m.replace ref { v with input := v.taken clamp x } := by
  rw [assign_eq_ok_iff]
  refine exists_congr fun ref => exists_congr fun v => ?_
  rw [find_eq_ok_iff, setInput_eq_ok_iff, and_assoc]
  refine and_congr_right fun _ => and_congr_right fun hv => ?_
  simp only [hv, Option.some.injEq, exists_eq_left']
  rfl

theorem accepts_iff : m.Accepts clamp (name, x) ↔ ∃ u, m.assign clamp name x = .ok u := by
  simp only [assign_eq_ok_iff_find]
  constructor
  · rintro ⟨ref, v, hfind, hadmits⟩
    exact ⟨_, ref, v, hfind, hadmits, rfl⟩
  · rintro ⟨u, ref, v, hfind, hadmits, -⟩
    exact ⟨ref, v, hfind, hadmits⟩

theorem setInput_eq_error_iff {ref : VariableRef} {v : LinguisticVariable α} {e : ModelError α}
    (hv : m.deref? ref = some v) :
    m.setInput ref x = .error e ↔
      v.admits x = false ∧ e = .inputOutside x v.name v.lower v.upper := by
  unfold setInput modify LinguisticVariable.withInput
  simp only [hv]
  split
  · next h => simp [h, bind, Except.bind, pure, Except.pure]
  · next h => simp [h, bind, Except.bind, eq_comm]

theorem assign_eq_error_iff {e : ModelError α} :
    m.assign clamp name x = .error e ↔
      m.find name = .error e ∨ ∃ ref v, m.find name = .ok (ref, v) ∧
        v.admits (v.taken clamp x) = false ∧
        e = .inputOutside (v.taken clamp x) v.name v.lower v.upper := by
  unfold assign
  rw [bind_eq_error_iff]
  refine or_congr_right ⟨?_, ?_⟩
  · rintro ⟨⟨ref, v⟩, hfind, h⟩
    exact ⟨ref, v, hfind, (setInput_eq_error_iff (find_eq_ok_iff.1 hfind).2).1 h⟩
  · rintro ⟨ref, v, hfind, h⟩
    exact ⟨(ref, v), hfind, (setInput_eq_error_iff (find_eq_ok_iff.1 hfind).2).2 h⟩

theorem Held.assign (hm : m.Held) (h : m.assign clamp name x = .ok u) : u.Held := by
  obtain ⟨ref, v, hfind, hadmits, rfl⟩ := assign_eq_ok_iff_find.1 h
  have hchange : Change False (fun _ => False) m (m.replace ref { v with input := _ }) :=
    .setInput (find_eq_ok_iff.1 hfind).2 hadmits
  exact hm.change hchange

/-- Setting an input is not seen under another name. -/
theorem Held.find_assign (hm : m.Held) (h : m.assign clamp name x = .ok u) {n : String}
    (hne : n ≠ name) : u.find n = m.find n := by
  obtain ⟨ref, v, hfind, -, rfl⟩ := assign_eq_ok_iff_find.1 h
  refine find_congr rfl fun other hother => ?_
  have hid : ref.id ≠ other.id := fun hid =>
    hne (hm.name_eq (find_eq_ok_iff.1 hfind).1 hother hid).symm
  exact deref?_replace_of_ne hid _

theorem Held.accepts_assign (hm : m.Held) (h : m.assign clamp name x = .ok u)
    (hne : entry.1 ≠ name) : u.Accepts clamp entry ↔ m.Accepts clamp entry := by
  unfold Accepts
  rw [hm.find_assign h hne]

/-! ## Setting all inputs -/

/-- Every variable that the mapping names has the input that it is given for its number, and nothing
else has changed. -/
structure Given (m : Model α) (clamp : Bool) (inputs : List (String × α)) (u : Model α) : Prop where
  rest : u = { m with pool := u.pool }
  size : u.pool.size = m.pool.size
  named : ∀ entry ∈ inputs, ∃ ref v, m.find entry.1 = .ok (ref, v) ∧
    u.deref? ref = some { v with input := v.taken clamp entry.2 }
  others : ∀ ref, ¬ m.Names (inputs.map Prod.fst) ref → u.deref? ref = m.deref? ref

theorem given_nil : m.Given clamp [] m where
  rest := rfl
  size := rfl
  named := by simp
  others _ _ := rfl

theorem Given.cons (hm : m.Held) (h : m.assign clamp name x = .ok u)
    (hname : name ∉ inputs.map Prod.fst) (hw : u.Given clamp inputs w) :
    m.Given clamp ((name, x) :: inputs) w := by
  have hfind {entry : String × α} (hentry : entry ∈ inputs) : u.find entry.1 = m.find entry.1 :=
    hm.find_assign h (ne_of_mem_of_not_mem (List.mem_map_of_mem hentry) hname)
  obtain ⟨ref, v, hv, -, rfl⟩ := assign_eq_ok_iff_find.1 h
  obtain ⟨href, hderef⟩ := find_eq_ok_iff.1 hv
  -- Another entry for the variable would have the same name.
  have honly : ¬ m.Names (inputs.map Prod.fst) ref := by
    rintro ⟨n, hn, other, hother, hid⟩
    exact hname (hm.name_eq hother href hid ▸ hn)
  refine
    { rest := hw.rest
      size := hw.size.trans (Array.size_setIfInBounds ..)
      named := List.forall_mem_cons.2 ⟨⟨ref, v, hv, ?_⟩, fun entry hentry => ?_⟩
      others := fun other hother => ?_ }
  · exact (hw.others ref honly).trans (deref?_replace_self hderef _)
  · rw [← hfind hentry]
    exact hw.named entry hentry
  · have hid : ref.id ≠ other.id := fun hid => hother ⟨name, List.mem_cons_self, ref, href, hid⟩
    have hrest : ¬ m.Names (inputs.map Prod.fst) other :=
      fun ⟨n, hn, hnames⟩ => hother ⟨n, List.mem_cons_of_mem name hn, hnames⟩
    exact (hw.others other hrest).trans (deref?_replace_of_ne hid _)

theorem Given.exists_of_names (hu : m.Given clamp inputs u) {ref : VariableRef}
    (h : m.Names (inputs.map Prod.fst) ref) :
    ∃ entry ∈ inputs, ∃ other v, m.find entry.1 = .ok (other, v) ∧ other.id = ref.id := by
  obtain ⟨_, hname, other, hother, hid⟩ := h
  obtain ⟨entry, hentry, rfl⟩ := List.mem_map.1 hname
  obtain ⟨other', v, hfind, -⟩ := hu.named entry hentry
  obtain rfl := Option.some.inj (hother.symm.trans (find_eq_ok_iff.1 hfind).1)
  exact ⟨entry, hentry, other, v, hfind, hid⟩

theorem Given.deref?_eq (hu : m.Given clamp inputs u) (hentry : entry ∈ inputs)
    {ref other : VariableRef} {v : LinguisticVariable α} (hfind : m.find entry.1 = .ok (other, v))
    (hid : other.id = ref.id) :
    u.deref? ref = some { v with input := v.taken clamp entry.2 } := by
  obtain ⟨other', v', hfind', hset⟩ := hu.named entry hentry
  cases hfind.symm.trans hfind'
  rw [deref?_congr hid]
  exact hset

/-- Two models with the inputs of the same entries differ at most in what the variables are given
for them. -/
theorem Given.deref?_cases {inputs' : List (String × α)} {clamp' : Bool}
    (hu : m.Given clamp inputs u) (hw : m.Given clamp' inputs' w)
    (hmem : ∀ entry, entry ∈ inputs ↔ entry ∈ inputs') (ref : VariableRef) :
    u.deref? ref = w.deref? ref ∨
      ∃ entry ∈ inputs, ∃ other v, m.find entry.1 = .ok (other, v) ∧
        u.deref? ref = some { v with input := v.taken clamp entry.2 } ∧
        w.deref? ref = some { v with input := v.taken clamp' entry.2 } := by
  by_cases h : m.Names (inputs.map Prod.fst) ref
  · obtain ⟨entry, hentry, other, v, hfind, hid⟩ := hu.exists_of_names h
    exact .inr ⟨entry, hentry, other, v, hfind, hu.deref?_eq hentry hfind hid,
      hw.deref?_eq ((hmem entry).1 hentry) hfind hid⟩
  · have h' : ¬ m.Names (inputs'.map Prod.fst) ref := by
      rintro ⟨n, hn, hnames⟩
      obtain ⟨entry, hentry, rfl⟩ := List.mem_map.1 hn
      exact h ⟨_, List.mem_map_of_mem ((hmem entry).2 hentry), hnames⟩
    exact .inl ((hu.others ref h).trans (hw.others ref h').symm)

/-- There is only one such model, and the order of the entries does not matter to it. -/
theorem Given.eq {inputs' : List (String × α)} {clamp' : Bool} (hu : m.Given clamp inputs u)
    (hw : m.Given clamp' inputs' w) (hmem : ∀ entry, entry ∈ inputs ↔ entry ∈ inputs')
    (htaken : ∀ entry ∈ inputs, ∀ ref v, m.find entry.1 = .ok (ref, v) →
      v.taken clamp entry.2 = v.taken clamp' entry.2) : u = w := by
  have hpool : u.pool = w.pool := by
    refine Array.ext_getElem? fun i => ?_
    obtain hsame | ⟨entry, hentry, other, v, hfind, hinput, hinput'⟩ :=
      hu.deref?_cases hw hmem ⟨i, ""⟩
    · exact hsame
    · rw [htaken entry hentry other v hfind] at hinput
      exact hinput.trans hinput'.symm
  rw [hu.rest, hw.rest, hpool]

/-- **If every entry can be set, all of them are.** -/
theorem Held.setInputs (hm : m.Held) (hnodup : (inputs.map Prod.fst).Nodup)
    (h : ∀ entry ∈ inputs, m.Accepts clamp entry) :
    ∃ u, m.setInputs clamp inputs = (u, .ok ()) ∧ m.Given clamp inputs u := by
  induction inputs generalizing m with
  | nil => exact ⟨m, rfl, given_nil⟩
  | cons entry rest ih =>
      obtain ⟨name, x⟩ := entry
      obtain ⟨hhead, htail⟩ := List.forall_mem_cons.1 h
      obtain ⟨hname, hrest⟩ := List.nodup_cons.1 hnodup
      obtain ⟨u, hu⟩ := accepts_iff.1 hhead
      obtain ⟨w, hw, hgiven⟩ := ih (hm.assign hu) hrest fun entry hentry =>
        (hm.accepts_assign hu (ne_of_mem_of_not_mem (List.mem_map_of_mem hentry) hname)).2
          (htail entry hentry)
      refine ⟨w, ?_, hgiven.cons hm hu hname⟩
      rw [Model.setInputs, hu]
      exact hw

theorem setInputs_append (h : m.setInputs clamp before = (u, .ok ())) :
    m.setInputs clamp (before ++ after) = u.setInputs clamp after := by
  induction before generalizing m with
  | nil =>
      cases h
      rfl
  | cons entry rest ih =>
      obtain ⟨name, x⟩ := entry
      rw [List.cons_append, Model.setInputs]
      rw [Model.setInputs] at h
      split at h
      · exact ih h
      · cases h

theorem Given.find_eq (hm : m.Held) (hu : m.Given clamp inputs u)
    (hname : name ∉ inputs.map Prod.fst) : u.find name = m.find name := by
  refine find_congr (by rw [hu.rest]) fun ref href => hu.others ref ?_
  rintro ⟨n, hn, other, hother, hid⟩
  exact hname (hm.name_eq hother href hid ▸ hn)

/-- **The first entry that cannot be set ends the setting**, and the entries before it stay set. -/
theorem Held.setInputs_refused (hm : m.Held)
    (hnodup : ((before ++ (name, x) :: after).map Prod.fst).Nodup)
    (hbefore : ∀ d ∈ before, m.Accepts clamp d) (hentry : ¬ m.Accepts clamp (name, x)) :
    ∃ u e, m.setInputs clamp before = (u, .ok ()) ∧ m.Given clamp before u ∧
      m.setInputs clamp (before ++ (name, x) :: after) = (u, .error e) ∧
      m.assign clamp name x = .error e := by
  rw [List.map_append, List.nodup_append] at hnodup
  obtain ⟨hnodup, -, hdisjoint⟩ := hnodup
  obtain ⟨u, hu, hgiven⟩ := hm.setInputs hnodup hbefore
  have hname : name ∉ before.map Prod.fst := fun hmem =>
    hdisjoint name hmem name List.mem_cons_self rfl
  rw [accepts_iff] at hentry
  obtain ⟨e, he⟩ : ∃ e, m.assign clamp name x = .error e := by
    cases h : m.assign clamp name x with
    | error e => exact ⟨e, rfl⟩
    | ok w => exact absurd ⟨w, h⟩ hentry
  have hsame : u.assign clamp name x = .error e := by
    rw [assign_eq_error_iff] at he ⊢
    rwa [hgiven.find_eq hm hname]
  refine ⟨u, e, hu, hgiven, ?_, he⟩
  rw [setInputs_append hu, Model.setInputs, hsame]

/-- How setting inputs together ends: with all of them set, or at the first that cannot be. -/
theorem Held.setInputs_cases (hm : m.Held) (hnodup : (inputs.map Prod.fst).Nodup) (clamp : Bool) :
    (∃ u, (∀ entry ∈ inputs, m.Accepts clamp entry) ∧ m.setInputs clamp inputs = (u, .ok ()) ∧
      m.Given clamp inputs u) ∨
    ∃ before entry after u e, inputs = before ++ entry :: after ∧
      (∀ d ∈ before, m.Accepts clamp d) ∧ ¬ m.Accepts clamp entry ∧
      m.setInputs clamp before = (u, .ok ()) ∧ m.Given clamp before u ∧
      m.setInputs clamp inputs = (u, .error e) := by
  obtain h | ⟨before, entry, after, rfl, hbefore, hentry⟩ :=
    forall_or_exists_first (m.Accepts clamp) inputs
  · obtain ⟨u, hu, hgiven⟩ := hm.setInputs hnodup h
    exact .inl ⟨u, h, hu, hgiven⟩
  · obtain ⟨u, e, hu, hgiven, he, -⟩ := hm.setInputs_refused hnodup hbefore hentry
    exact .inr ⟨before, entry, after, u, e, rfl, hbefore, hentry, hu, hgiven, he⟩

theorem Held.of_setInputs_eq_ok (hm : m.Held) (hnodup : (inputs.map Prod.fst).Nodup)
    (h : m.setInputs clamp inputs = (u, .ok ())) :
    (∀ entry ∈ inputs, m.Accepts clamp entry) ∧ m.Given clamp inputs u := by
  obtain ⟨w, haccepts, hw, hgiven⟩ | ⟨_, _, _, _, _, -, -, -, -, -, he⟩ :=
    hm.setInputs_cases hnodup clamp
  · cases h.symm.trans hw
    exact ⟨haccepts, hgiven⟩
  · cases h.symm.trans he

/-- The models are the same but for the inputs of variables that are among the names. -/
structure InputsOnly (m : Model α) (names : List String) (u : Model α) : Prop where
  rest : u = { m with pool := u.pool }
  size : u.pool.size = m.pool.size
  inputs : ∀ ref v, m.deref? ref = some v → ∃ x, u.deref? ref = some { v with input := x }
  others : ∀ ref, ¬ m.Names names ref → u.deref? ref = m.deref? ref

theorem Given.inputsOnly (hu : m.Given clamp inputs u) {names : List String}
    (hnames : ∀ name ∈ inputs.map Prod.fst, name ∈ names) : m.InputsOnly names u where
  rest := hu.rest
  size := hu.size
  inputs ref v hv := by
    by_cases h : m.Names (inputs.map Prod.fst) ref
    · obtain ⟨entry, hentry, other, w, hfind, hid⟩ := hu.exists_of_names h
      have hw := (deref?_congr hid).trans (find_eq_ok_iff.1 hfind).2
      obtain rfl := Option.some.inj (hv.symm.trans hw)
      exact ⟨_, hu.deref?_eq hentry hfind hid⟩
    · exact ⟨v.input, (hu.others ref h).trans hv⟩
  others ref href := hu.others ref fun ⟨n, hn, h⟩ => href ⟨n, hnames n hn, h⟩

/-- However the setting ends, the variables under the names of the mapping have other inputs at
most. -/
theorem Held.inputsOnly_setInputs (hm : m.Held) (hnodup : (inputs.map Prod.fst).Nodup)
    (clamp : Bool) : m.InputsOnly (inputs.map Prod.fst) (m.setInputs clamp inputs).1 := by
  obtain ⟨w, -, hw, hgiven⟩ | ⟨before, entry, after, w, e, rfl, -, -, -, hgiven, hrefused⟩ :=
    hm.setInputs_cases hnodup clamp
  · rw [hw]
    exact hgiven.inputsOnly fun _ => id
  · rw [hrefused]
    refine hgiven.inputsOnly fun name hname => ?_
    rw [List.map_append]
    exact List.mem_append_left _ hname

omit [Scalar α] in
theorem InputsOnly.held {names : List String} (hm : m.Held) (h : m.InputsOnly names u) :
    u.Held := by
  refine hm.of_keeps (fun ref v hv => ?_) (by rw [h.rest]; exact fun _ => id)
  obtain ⟨x, hx⟩ := h.inputs ref v hv
  exact ⟨_, hx, rfl⟩

end

/-! ## Models that are in order -/

/-- The entry can be set: its name is known, and its number lies in the range of the variable unless
numbers are moved there. -/
def Takes (m : Model Float) (clamp : Bool) (entry : String × Float) : Prop :=
  ∃ ref v, m.find entry.1 = .ok (ref, v) ∧
    (clamp = false → v.lower ≤ entry.2 ∧ entry.2 ≤ v.upper)

/-- The models are the same, except that inputs that are zeros may be different zeros. -/
structure SameButZeros (m u : Model Float) : Prop where
  rest : u = { m with pool := u.pool }
  size : u.pool.size = m.pool.size
  inputs : ∀ ref v, m.deref? ref = some v → ∃ x, u.deref? ref = some { v with input := x } ∧
    Scalar.Same x v.input

/-- What it is to set the inputs of a mapping, whose numbers may be moved into the ranges first. -/
structure SetsInputs (m : Model Float) (inputs : Registry Float) : Prop where
  /-- All inputs are set if each of them can be. -/
  succeeds : ∀ clamp, (m.setInputs clamp inputs.entries).2 = .ok () ↔
    ∀ entry ∈ inputs.entries, m.Takes clamp entry
  order : ∀ clamp u, m.setInputs clamp inputs.entries = (u, .ok ()) →
    ∀ entries, entries.Perm inputs.entries → m.setInputs clamp entries = (u, .ok ())
  plain : ∀ u, m.setInputs false inputs.entries = (u, .ok ()) → ∀ entry ∈ inputs.entries,
    ∃ ref v, m.find entry.1 = .ok (ref, v) ∧ u.deref? ref = some { v with input := entry.2 }
  clamped : ∀ u, m.setInputs true inputs.entries = (u, .ok ()) → ∀ entry ∈ inputs.entries,
    ∃ ref v x, m.find entry.1 = .ok (ref, v) ∧ v.Nearest entry.2 x ∧
      u.deref? ref = some { v with input := x }
  /-- If nothing has to be moved, moving makes no difference. -/
  agree : ∀ u, m.setInputs false inputs.entries = (u, .ok ()) →
    ∃ w, m.setInputs true inputs.entries = (w, .ok ()) ∧ u.SameButZeros w ∧
      ((∀ entry ∈ inputs.entries, (entry.2 == 0) = false) → w = u)
  /-- The entries before the first one that cannot be set stay set. -/
  refused : ∀ clamp u e, m.setInputs clamp inputs.entries = (u, .error e) →
    ∃ before entry after, inputs.entries = before ++ entry :: after ∧
      (∀ d ∈ before, m.Takes clamp d) ∧ ¬ m.Takes clamp entry ∧
      m.setInputs clamp before = (u, .ok ())
  inputsOnly : ∀ clamp, m.InputsOnly inputs.names (m.setInputs clamp inputs.entries).1

variable {m u w : Model Float} {clamp : Bool} {inputs : List (String × Float)}

theorem Sound.accepts_iff_takes (hm : m.Sound) (entry : String × Float) :
    m.Accepts clamp entry ↔ m.Takes clamp entry := by
  refine exists_congr fun ref => exists_congr fun v => and_congr_right fun hfind => ?_
  cases clamp with
  | false =>
      change v.admits entry.2 = true ↔ _
      simp only [LinguisticVariable.admits_iff_le, forall_const]
  | true =>
      have hrange := (hm.pool ref v (find_eq_ok_iff.1 hfind).2).range
      simp only [LinguisticVariable.taken, if_true, LinguisticVariable.admits_clamp hrange,
        Bool.true_eq_false, false_implies]

/-- Moving numbers that need not be moved leaves them the numbers that they are. -/
theorem Sound.same_taken (hm : m.Sound) {entry : String × Float} (h : m.Takes false entry)
    {ref : VariableRef} {v : LinguisticVariable Float} (hfind : m.find entry.1 = .ok (ref, v)) :
    Scalar.Same (v.taken true entry.2) entry.2 := by
  obtain ⟨ref', v', hfind', htakes⟩ := h
  cases hfind.symm.trans hfind'
  obtain ⟨hlower, hupper⟩ := htakes rfl
  have hrange := (hm.pool ref v (find_eq_ok_iff.1 hfind).2).range
  exact (LinguisticVariable.nearest_clamp hrange (Scalar.defined_of_le hupper).1).same hlower hupper

theorem Sound.setInputs_eq_ok_iff (hm : m.Sound) (hnodup : (inputs.map Prod.fst).Nodup) :
    m.setInputs clamp inputs = (u, .ok ()) ↔
      (∀ entry ∈ inputs, m.Takes clamp entry) ∧ m.Given clamp inputs u := by
  simp only [← hm.accepts_iff_takes]
  constructor
  · exact hm.toHeld.of_setInputs_eq_ok hnodup
  · rintro ⟨haccepts, hu⟩
    obtain ⟨w, hw, hgiven⟩ := hm.toHeld.setInputs hnodup haccepts
    rw [hw, hu.eq hgiven (fun _ => Iff.rfl) fun _ _ _ _ _ => rfl]

/-- **What was set without being moved is also set, to the same, if numbers are moved.** -/
theorem Sound.setInputs_agree (hm : m.Sound) (hnodup : (inputs.map Prod.fst).Nodup)
    (h : m.setInputs false inputs = (u, .ok ())) :
    ∃ w, m.setInputs true inputs = (w, .ok ()) ∧ u.SameButZeros w ∧
      ((∀ entry ∈ inputs, (entry.2 == 0) = false) → w = u) := by
  obtain ⟨htakes, hu⟩ := (hm.setInputs_eq_ok_iff hnodup).1 h
  have hmoved : ∀ entry ∈ inputs, m.Accepts true entry := by
    intro entry hentry
    obtain ⟨ref, v, hfind, -⟩ := htakes entry hentry
    exact (hm.accepts_iff_takes entry).2 ⟨ref, v, hfind, by simp⟩
  obtain ⟨w, hw, hgiven⟩ := hm.toHeld.setInputs hnodup hmoved
  refine ⟨w, hw, ⟨?_, hgiven.size.trans hu.size.symm, ?_⟩, fun hzero => ?_⟩
  · rw [hgiven.rest, hu.rest]
  · intro ref v hv
    obtain hsame | ⟨entry, hentry, other, t, hfind, hinput, hinput'⟩ :=
      hu.deref?_cases hgiven (fun _ => Iff.rfl) ref
    · exact ⟨v.input, hsame.symm.trans hv, .refl _⟩
    · obtain rfl := Option.some.inj (hv.symm.trans hinput)
      exact ⟨_, hinput', hm.same_taken (htakes entry hentry) hfind⟩
  · refine hgiven.eq hu (fun _ => Iff.rfl) fun entry hentry ref v hfind => ?_
    obtain hsame | ⟨-, hzero'⟩ := hm.same_taken (htakes entry hentry) hfind
    · exact hsame
    · exact absurd hzero' (by rw [hzero entry hentry]; decide)

/-- **Inputs are set together as they should be**, in every sound model. -/
theorem Sound.setsInputs (hm : m.Sound) {inputs : Registry Float} (hnodup : inputs.names.Nodup)
    (hdefined : ∀ entry ∈ inputs.entries, Scalar.isUndefined entry.2 = false) :
    m.SetsInputs inputs where
  succeeds clamp := by
    constructor
    · intro h
      exact ((hm.setInputs_eq_ok_iff hnodup).1 (Prod.ext rfl h)).1
    · intro h
      obtain ⟨u, hu, -⟩ := hm.toHeld.setInputs hnodup
        fun entry hentry => (hm.accepts_iff_takes entry).2 (h entry hentry)
      rw [hu]
  order clamp u h entries hperm := by
    obtain ⟨htakes, hu⟩ := (hm.setInputs_eq_ok_iff hnodup).1 h
    have hnodup' : (entries.map Prod.fst).Nodup := (hperm.map Prod.fst).nodup_iff.2 hnodup
    obtain ⟨w, hw, hgiven⟩ := hm.toHeld.setInputs hnodup'
      fun entry hentry => (hm.accepts_iff_takes entry).2 (htakes entry (hperm.subset hentry))
    rw [hw, hgiven.eq hu (fun _ => hperm.mem_iff) fun _ _ _ _ _ => rfl]
  plain u h := ((hm.setInputs_eq_ok_iff hnodup).1 h).2.named
  clamped u h entry hentry := by
    obtain ⟨ref, v, hfind, hinput⟩ := ((hm.setInputs_eq_ok_iff hnodup).1 h).2.named entry hentry
    have hrange := (hm.pool ref v (find_eq_ok_iff.1 hfind).2).range
    have hnearest := LinguisticVariable.nearest_clamp hrange (hdefined entry hentry)
    exact ⟨ref, v, _, hfind, hnearest, hinput⟩
  agree u h := hm.setInputs_agree hnodup h
  refused clamp u e h := by
    obtain ⟨w, -, hw, -⟩ | ⟨before, entry, after, w, e', hentries, hbefore, hentry, hw, -, hend⟩ :=
      hm.toHeld.setInputs_cases hnodup clamp
    · cases h.symm.trans hw
    · cases h.symm.trans hend
      refine ⟨before, entry, after, hentries, fun d hd => ?_, ?_, hw⟩
      · exact (hm.accepts_iff_takes d).1 (hbefore d hd)
      · rwa [← hm.accepts_iff_takes]
  inputsOnly := hm.toHeld.inputsOnly_setInputs hnodup

/-! ## Undefined numbers -/

section

variable {before after : List (String × Float)} {name : String} {x : Float} {ref : VariableRef}
  {v : LinguisticVariable Float}

/-- What holds where the entries before one are set. -/
theorem Sound.find_setInputs (hm : m.Sound)
    (hnodup : ((before ++ (name, x) :: after).map Prod.fst).Nodup)
    (hu : m.setInputs clamp before = (u, .ok ())) : u.Held ∧ u.find name = m.find name := by
  rw [List.map_append, List.map_cons, List.nodup_append] at hnodup
  obtain ⟨hbefore, -, hdisjoint⟩ := hnodup
  obtain ⟨-, hgiven⟩ := hm.toHeld.of_setInputs_eq_ok hbefore hu
  refine ⟨(hgiven.inputsOnly fun _ => id).held hm.toHeld, hgiven.find_eq hm.toHeld fun hmem => ?_⟩
  exact hdisjoint name hmem name List.mem_cons_self rfl

/-- **An undefined number is refused if numbers are not moved**, as it is when it is set by itself,
and the input stays as it was. -/
theorem Sound.setInputs_undefined (hm : m.Sound)
    (hnodup : ((before ++ (name, x) :: after).map Prod.fst).Nodup)
    (hx : Scalar.isUndefined x = true) (hfind : m.find name = .ok (ref, v))
    (hu : m.setInputs false before = (u, .ok ())) :
    m.setInputs false (before ++ (name, x) :: after)
        = (u, .error (.inputOutside x v.name v.lower v.upper)) ∧
      u.deref? ref = some v ∧
      u.setInput ref x = .error (.inputOutside x v.name v.lower v.upper) := by
  have hfind' := (hm.find_setInputs hnodup hu).2.trans hfind
  have hderef := (find_eq_ok_iff.1 hfind').2
  have hadmits : v.admits x = false := by rw [LinguisticVariable.admits, hx]; rfl
  have hrefused : u.assign false name x = .error (.inputOutside x v.name v.lower v.upper) :=
    assign_eq_error_iff.2 (.inr ⟨ref, v, hfind', hadmits, rfl⟩)
  refine ⟨?_, hderef, (setInput_eq_error_iff hderef).2 ⟨hadmits, rfl⟩⟩
  rw [setInputs_append hu, Model.setInputs, hrefused]

/-- **If numbers are moved, an undefined one is moved to the upper end.** -/
theorem Sound.setInputs_clamp_undefined (hm : m.Sound)
    (hnodup : ((before ++ (name, x) :: after).map Prod.fst).Nodup)
    (hx : Scalar.isUndefined x = true) (hfind : m.find name = .ok (ref, v))
    (hu : m.setInputs true before = (u, .ok ())) :
    (m.setInputs true (before ++ [(name, x)])).2 = .ok () ∧
      (m.setInputs true (before ++ (name, x) :: after)).1.deref? ref
        = some { v with input := v.upper } := by
  obtain ⟨hheld, hfind'⟩ := hm.find_setInputs hnodup hu
  replace hfind' := hfind'.trans hfind
  obtain ⟨href, hderef⟩ := find_eq_ok_iff.1 hfind'
  have hrange := (hm.pool ref v (find_eq_ok_iff.1 hfind).2).range
  have htaken : v.taken true x = v.upper := LinguisticVariable.clamp_of_undefined hx hrange
  have hset : u.assign true name x = .ok (u.replace ref { v with input := v.upper }) :=
    assign_eq_ok_iff_find.2 ⟨ref, v, hfind', v.admits_clamp hrange x, by rw [htaken]⟩
  rw [setInputs_append hu, setInputs_append hu, Model.setInputs, Model.setInputs, hset]
  refine ⟨rfl, ?_⟩
  -- The entries behind it are about other variables.
  rw [List.map_append, List.map_cons, List.nodup_append, List.nodup_cons] at hnodup
  obtain ⟨-, ⟨hname, hafter⟩, -⟩ := hnodup
  have hothers := ((hheld.assign hset).inputsOnly_setInputs hafter true).others ref ?_
  · exact hothers.trans (deref?_replace_self hderef _)
  · rintro ⟨n, hn, other, hother, hid⟩
    exact hname (hheld.name_eq hother href hid ▸ hn)

end

end Model

/-! ## Sessions -/

namespace Session

variable {allowed : Operation Float → Prop} {start m : Model Float} {past : List (Model Float)}

/-- **Whatever a model went through, inputs are set together as they should be.** -/
theorem sets_inputs (hstart : start.Fresh) (h : Session allowed start past m)
    {inputs : Registry Float} (hnodup : inputs.names.Nodup)
    (hdefined : ∀ entry ∈ inputs.entries, Scalar.isUndefined entry.2 = false) :
    m.SetsInputs inputs :=
  (all_sound hstart h m List.mem_cons_self).setsInputs hnodup hdefined

/-- **What becomes of an undefined number** when the entries before it are set: it is refused if
numbers are not moved, and becomes the upper end of the range if they are. -/
theorem undefined_input (hstart : start.Fresh) (h : Session allowed start past m)
    {inputs : Registry Float} (hnodup : inputs.names.Nodup) {before after : List (String × Float)}
    {name : String} {x : Float} (hentries : inputs.entries = before ++ (name, x) :: after)
    (hx : Scalar.isUndefined x = true) {ref : VariableRef} {v : LinguisticVariable Float}
    (hfind : m.find name = .ok (ref, v)) :
    (∀ u, m.setInputs false before = (u, .ok ()) →
      m.setInputs false inputs.entries
        = (u, .error (.inputOutside x v.name v.lower v.upper)) ∧
      u.deref? ref = some v ∧
      u.setInput ref x = .error (.inputOutside x v.name v.lower v.upper)) ∧
    ∀ u, m.setInputs true before = (u, .ok ()) →
      (m.setInputs true (before ++ [(name, x)])).2 = .ok () ∧
      (m.setInputs true inputs.entries).1.deref? ref = some { v with input := v.upper } := by
  have hm := all_sound hstart h m List.mem_cons_self
  rw [Registry.names, hentries] at hnodup
  rw [hentries]
  exact ⟨fun u hu => hm.setInputs_undefined hnodup hx hfind hu,
    fun u hu => hm.setInputs_clamp_undefined hnodup hx hfind hu⟩

end Session

/-- A model with two variables, one of which has an input, and a rule. -/
def Model.gauges : Model Float :=
  Operation.performAll (.empty "min" "max")
    [.addVariable "Heat" 0 90, .addVariable "Flow" 0 10,
      .addLabel ⟨0, "Heat"⟩ "high" (.rightShoulder 60 80),
      .newRule "R" "IF Heat is high THEN Heat is high", .setInput ⟨0, "Heat"⟩ 20]

theorem Model.session_gauges :
    ∃ past, Session (fun _ : Operation Float => True) (.empty "min" "max") past gauges :=
  ⟨_, .step (.step (.step (.step (.step .start
    (.addVariable "Heat" 0 90) trivial trivial)
    (.addVariable "Flow" 0 10) trivial trivial)
    (.addLabel ⟨0, "Heat"⟩ "high" (.rightShoulder 60 80)) trivial trivial)
    (.newRule "R" "IF Heat is high THEN Heat is high") trivial trivial)
    (.setInput ⟨0, "Heat"⟩ 20) trivial trivial⟩

theorem Session.sets_inputs_gauges :
    Model.gauges.SetsInputs ⟨[("Flow", 4), ("Heat", 100)]⟩ ∧
      (Model.gauges.setInputs true [("Flow", 4), ("Heat", 100)]).2 = .ok () ∧
      (Model.gauges.setInputs true [("Flow", 4), ("Heat", 100)]).1.pool.map (·.input)
        = #[90, 4] ∧
      (Model.gauges.setInputs false [("Flow", 4), ("Heat", 100)]).2.isOk = false ∧
      (Model.gauges.setInputs false [("Flow", 4), ("Heat", 100)]).1.pool.map (·.input)
        = #[20, 4] := by
  obtain ⟨past, hsession⟩ := Model.session_gauges
  have hnodup : (⟨[("Flow", 4), ("Heat", 100)]⟩ : Registry Float).names.Nodup := by decide
  have hsets := hsession.sets_inputs (.empty "min" "max") hnodup (by decide +kernel)
  exact ⟨hsets, eq_ok_of_isOk (by decide +kernel), by decide +kernel, by decide +kernel,
    by decide +kernel⟩

theorem Session.undefined_input_gauges :
    ∃ u, Model.gauges.setInputs false [("Flow", 4)] = (u, .ok ()) ∧
      u.pool.map (·.input) = #[20, 4] ∧
      Model.gauges.setInputs false [("Flow", 4), ("Heat", 0 / 0)]
        = (u, .error (.inputOutside (0 / 0) "Heat" 0 90)) := by
  obtain ⟨past, hsession⟩ := Model.session_gauges
  have hheat : (Model.gauges.find "Heat").toOption.map (fun p => (p.2.name, p.2.lower, p.2.upper))
      = some ("Heat", 0, 90) := by decide +kernel
  obtain ⟨⟨ref, v⟩, hfind, hv⟩ := Option.map_eq_some_iff.1 hheat
  obtain ⟨hname, hlower, hupper⟩ : v.name = "Heat" ∧ v.lower = 0 ∧ v.upper = 90 := by
    simpa only [Prod.mk.injEq] using hv
  have hflow : Model.gauges.setInputs false [("Flow", 4)]
      = ((Model.gauges.setInputs false [("Flow", 4)]).1, .ok ()) :=
    eq_mk_ok_of_isOk (by decide +kernel)
  have hnodup : (⟨[("Flow", 4), ("Heat", 0 / 0)]⟩ : Registry Float).names.Nodup := by decide
  have hentries : (⟨[("Flow", 4), ("Heat", 0 / 0)]⟩ : Registry Float).entries
      = [("Flow", 4)] ++ ("Heat", 0 / 0) :: [] := rfl
  have hrefused := (hsession.undefined_input (.empty "min" "max") hnodup hentries
    (by decide +kernel) (toOption_eq_some_iff.1 hfind)).1 _ hflow
  rw [hname, hlower, hupper] at hrefused
  exact ⟨_, hflow, by decide +kernel, hrefused.1⟩

/-- Moved into the range, an undefined number replaces the input 20 by 90. -/
theorem Model.undefined_input_moved :
    Scalar.isUndefined (0 / 0 : Float) = true ∧ gauges.pool.map (·.input) = #[20, 0] ∧
      (gauges.setInputs true [("Heat", 0 / 0)]).2 = .ok () ∧
      (gauges.setInputs true [("Heat", 0 / 0)]).1.pool.map (·.input) = #[90, 0] :=
  ⟨by decide +kernel, by decide +kernel, eq_ok_of_isOk (by decide +kernel), by decide +kernel⟩

end FuzzyLogic
