import FuzzyLogic.Proofs.Evaluation
import FuzzyLogic.Proofs.Model.Session
import FuzzyLogic.Proofs.Rule.Scope
import FuzzyLogic.Proofs.Scalar

set_option autoImplicit false

/-! # What holds at any time

However a model was operated on, its stores have every object once and under its own name, every
variable has an input in its range, and every rule is about variables that exist and has a program
that fits its stack. The variables are those that were ever made: a rule keeps its variables when
they are taken out of the database. -/

namespace FuzzyLogic

variable {α : Type} [Scalar α]

/-! ## Variables -/

/-- The range of the variable is not empty, its input lies in the range and is defined, and every
label stands once and under its own name. -/
structure LinguisticVariable.Sound (v : LinguisticVariable α) : Prop where
  range : v.lower < v.upper
  lower_le : v.lower ≤ v.input
  le_upper : v.input ≤ v.upper
  defined : Scalar.isUndefined v.input = false
  labels : v.labels.Keyed Label.name

namespace LinguisticVariable.Sound

variable {v w : LinguisticVariable α}

theorem of_make {name : String} {lower upper : Float} {v : LinguisticVariable Float}
    (h : make name lower upper = .ok v) : v.Sound := by
  obtain ⟨hrange, rfl⟩ := make_eq_ok_iff.1 h
  exact
    { range := hrange
      lower_le := Scalar.le_self_of_lt hrange
      le_upper := Scalar.le_of_lt hrange
      defined := Scalar.isUndefined_of_lt hrange
      labels := .empty }

theorem withLabel (hv : v.Sound) {l : Label α} (h : v.withLabel l = .ok w) : w.Sound := by
  obtain ⟨-, rfl⟩ := withLabel_eq_ok_iff.1 h
  exact { hv with labels := hv.labels.insert l }

theorem withoutLabels (hv : v.Sound) : v.withoutLabels.Sound :=
  { hv with labels := .empty }

theorem withInput (hv : v.Sound) {x : α} (h : v.admits x = true) :
    { v with input := x }.Sound := by
  simp only [admits, Bool.and_eq_true, Bool.not_eq_true', decide_eq_true_eq] at h
  exact { hv with lower_le := h.2.1, le_upper := h.2.2, defined := h.1 }

end LinguisticVariable.Sound

/-! ## Models -/

namespace Model

/-- All variables are sound, the database holds variables that exist, and both the database and the
rulebase have every object once and under its own name. -/
structure Sound (m : Model α) : Prop where
  pool : ∀ ref v, m.deref? ref = some v → v.Sound
  held : ∀ ref ∈ m.database.objects, ∃ v, m.deref? ref = some v ∧ v.name = ref.name
  database : m.database.Keyed VariableRef.name
  rules : m.rules.Keyed Rule.name

theorem sound_empty (tnorm snorm : String) : (empty tnorm snorm : Model α).Sound where
  pool := by simp [empty, deref?]
  held := by simp [empty, EmptyCollection.emptyCollection, Registry.empty, Registry.objects]
  database := .empty
  rules := .empty

/-- The database of a sound model lists its variables under their names. -/
theorem Sound.toHeld {m : Model α} (hm : m.Sound) : m.Held := by
  intro e he
  obtain ⟨v, hv, hname⟩ := hm.held e.2 (List.mem_map.2 ⟨e, he, rfl⟩)
  exact ⟨v, hv, hname.trans (hm.database.key_eq e he)⟩

/-- Every variable of the database stands under its own name, whatever changes. -/
theorem keyed_database_of_change {m m' : Model α} {removing : Prop} {known : Rule α → Prop}
    (h : Change removing known m m') (hm : m.database.Keyed VariableRef.name) :
    m'.database.Keyed VariableRef.name := by
  cases h with
  | @enterVariable ref v hv hfree => exact hm.insert ⟨ref.id, v.name⟩
  | removeVariable _ name => exact hm.erase name
  | clearVariables _ => exact .empty
  | _ => exact hm

/-- All variables stay sound, whatever changes. -/
theorem sound_of_change {m m' : Model Float} {removing : Prop} {known : Rule Float → Prop}
    (h : Change removing known m m') (hm : ∀ ref v, m.deref? ref = some v → v.Sound) :
    ∀ ref v, m'.deref? ref = some v → v.Sound := by
  have hreplace {ref : VariableRef} {v w : LinguisticVariable Float} (hv : m.deref? ref = some v)
      (hw : w.Sound) : ∀ other u, (m.replace ref w).deref? other = some u → u.Sound := by
    intro other u hu
    obtain ⟨-, hother⟩ | hsame := deref?_replace_cases hv w other
    · rwa [← Option.some.inj (hother.symm.trans hu)]
    · exact hm other u (hsame ▸ hu)
  cases h with
  | @makeVariable name lower upper v hv =>
      intro ref w hw
      rw [deref?_push] at hw
      split at hw
      · rw [← Option.some.inj hw]
        exact .of_make hv
      · exact hm ref w hw
  | addLabel hv hw labelCount => exact hreplace hv ((hm _ _ hv).withLabel hw)
  | clearLabels _ hv => exact hreplace hv (hm _ _ hv).withoutLabels
  | setInput hv hx => exact hreplace hv ((hm _ _ hv).withInput hx)
  | _ => exact hm

/-- **Every change keeps a model sound.** -/
theorem Sound.change {m m' : Model Float} {removing : Prop} {known : Rule Float → Prop}
    (hm : m.Sound) (h : Change removing known m m') : m'.Sound where
  pool := sound_of_change h hm.pool
  held := by
    intro ref href
    obtain ⟨e, he, rfl⟩ := List.mem_map.1 href
    obtain ⟨v, hv, hname⟩ := hm.toHeld.change h e he
    exact ⟨v, hv, hname.trans ((keyed_database_of_change h hm.database).key_eq e he).symm⟩
  database := keyed_database_of_change h hm.database
  rules := keyed_rules_of_change h hm.rules

/-! ## Rules -/

/-- All clauses of the rule are about sound variables, and its program is that of a tree. So the
program fits its stack, and running it meets no fault of a malformed program. -/
structure SoundRule (m : Model α) (r : Rule α) : Prop where
  clauses : ∀ c, c = r.output ∨ c ∈ r.program.operands →
    ∃ v, m.deref? c.subject = some v ∧ v.name = c.subject.name ∧ v.Sound
  program : ∃ t : Tree (ModelClause α), r.program = t.postorder
  strength : WellFormedResult (m.strength r)

/-- A rule that was compiled in a sound model is sound in every later one. -/
theorem soundRule_of_compiles {m u : Model α} (hu : u.Sound) (hm : m.Sound) (hkeeps : u.Keeps m)
    {r : Rule α} (hr : u.Compiles r) : m.SoundRule r := by
  obtain ⟨t, hprogram, hnamed⟩ := Rule.named_of_compile hr
  replace hprogram : r.program = t.postorder := hprogram
  refine
    { clauses := fun c hc => ?_
      program := ⟨t, hprogram⟩
      strength := ?_ }
  · rw [hprogram, Tree.operands_postorder] at hc
    obtain ⟨subject, label, hnames⟩ := hnamed c hc
    have hsubject := Registry.mem_objects_of_get? hnames.lookup_eq
    obtain ⟨v, hv, hname⟩ := hu.held c.subject hsubject
    obtain ⟨w, hw, hname'⟩ := hkeeps c.subject v hv
    exact ⟨w, hw, hname'.trans hname, hm.pool _ _ hw⟩
  · rw [Model.strength, hprogram, Tree.evaluate_postorder]
    exact t.wellFormed_value r.wellFormed_connectives m.wellFormed_degree

end Model

/-! ## Sessions -/

/-- **A session that starts with an empty model comes to sound models only.** Every rule is sound in
them, whether it is in the rulebase or was only compiled at some time. -/
theorem Session.sound {tnorm snorm : String} {past : List (Model Float)} {m : Model Float}
    (h : Session (fun _ => True) (.empty tnorm snorm) past m) :
    m.Sound ∧ ∀ r, r ∈ m.rules.objects ∨ Known (m :: past) r → m.SoundRule r := by
  have hall : ∀ u ∈ m :: past, u.Sound :=
    h.invariant (fun hchange hu => hu.change hchange) (fun _ _ _ => trivial : ∀ o, _ → _ → True)
      (Model.sound_empty tnorm snorm)
  have hkeeps : ∀ u ∈ m :: past, u.Keeps m :=
    h.related .refl .trans Model.keeps_of_change (fun _ _ _ => trivial : ∀ o, _ → _ → True)
  have hm := hall m List.mem_cons_self
  refine ⟨hm, fun r hr => ?_⟩
  have hknown : Known (m :: past) r := by
    refine hr.elim (fun hr => h.known_of_mem_rules ?_ r hr) id
    exact fun r hr => absurd hr List.not_mem_nil
  obtain ⟨u, hu, hcompiled⟩ := hknown
  exact Model.soundRule_of_compiles (hall u hu) hm (hkeeps u hu) hcompiled

/-- A model whose only variable was taken out of the database after a rule had been compiled. -/
def Model.orphaned : Model Float :=
  Operation.performAll (.empty "min" "max")
    [.addVariable "Heat" 0 90, .addLabel ⟨0, "Heat"⟩ "high" (.rightShoulder 60 80),
      .newRule "R" "IF Heat is high THEN Heat is high", .setInput ⟨0, "Heat"⟩ 100,
      .removeVariable "Heat"]

theorem Session.sound_orphaned :
    Model.orphaned.rules.names = ["R"] ∧ Model.orphaned.database.names = [] ∧
      Model.orphaned.Sound ∧ ∀ r ∈ Model.orphaned.rules.objects, Model.orphaned.SoundRule r := by
  have hsession : Session (fun _ : Operation Float => True) (.empty "min" "max")
      [_, _, _, _, _] Model.orphaned :=
    .step (.step (.step (.step (.step .start
      (.addVariable "Heat" 0 90) trivial trivial)
      (.addLabel ⟨0, "Heat"⟩ "high" (.rightShoulder 60 80)) trivial trivial)
      (.newRule "R" "IF Heat is high THEN Heat is high") trivial trivial)
      (.setInput ⟨0, "Heat"⟩ 100) trivial trivial)
      (.removeVariable "Heat") trivial trivial
  obtain ⟨hsound, hrules⟩ := hsession.sound
  exact ⟨by decide +kernel, by decide +kernel, hsound, fun r hr => hrules r (.inl hr)⟩

end FuzzyLogic
