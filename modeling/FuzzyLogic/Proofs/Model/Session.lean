import FuzzyLogic.Proofs.Model.Change
import FuzzyLogic.Proofs.Registry

set_option autoImplicit false

/-! # Sessions

A session is a run of operations on a model, refused ones among them. It remembers the models that
it went through, because a rule that was compiled in one of them may be entered at any later time.
What all elementary changes keep holds in a whole session. -/

namespace FuzzyLogic

open Relation

variable {α : Type}

/-- The rule was compiled in one of the models. -/
def Session.Known (models : List (Model α)) (r : Rule α) : Prop :=
  ∃ u ∈ models, u.Compiles r

theorem Session.Known.mono {models models' : List (Model α)} {r : Rule α} (hr : Known models r)
    (h : ∀ u ∈ models, u ∈ models') : Known models' r := by
  obtain ⟨u, hu, hr⟩ := hr
  exact ⟨u, h u hu, hr⟩

/-- The operation can be asked for after the models: a rule that is entered was compiled in one of
them. -/
def Operation.Possible (models : List (Model α)) : Operation α → Prop
  | enterRule r => Session.Known models r
  | _ => True

/-- A run of allowed operations that starts with one model and has come to another one by way of
those of the past, the latest first. -/
inductive Session [Scalar α] (allowed : Operation α → Prop) (start : Model α) :
    List (Model α) → Model α → Prop
  | start : Session allowed start [] start
  | step {past : List (Model α)} {m : Model α} (h : Session allowed start past m)
      (o : Operation α) (hallowed : allowed o) (hpossible : o.Possible (m :: past)) :
      Session allowed start (m :: past) (o.perform m).1

theorem Operation.Possible.mono {models models' : List (Model α)} {o : Operation α}
    (ho : o.Possible models) (h : ∀ u ∈ models, u ∈ models') : o.Possible models' := by
  cases o with
  | enterRule r => exact Session.Known.mono ho h
  | _ => trivial

namespace Session

open Model

variable [Scalar α] {allowed : Operation α → Prop} {removing : Prop} {start m : Model α}
  {past : List (Model α)}

/-! ## Sessions from sessions -/

theorem mono {allowed' : Operation α → Prop} (hallowed : ∀ o, allowed o → allowed' o)
    (h : Session allowed start past m) : Session allowed' start past m := by
  induction h with
  | start => exact .start
  | step h o ho hpossible ih => exact .step ih o (hallowed o ho) hpossible

/-- A session can go on where another one has come to. -/
theorem trans {u : Model α} {past' : List (Model α)} (h : Session allowed start past u)
    (h' : Session allowed u past' m) : Session allowed start (past' ++ past) m := by
  induction h' with
  | start => exact h
  | step h' o ho hpossible ih =>
      refine .step ih o ho (hpossible.mono fun v hv => ?_)
      rw [← List.cons_append]
      exact List.mem_append_left past hv

/-- An operation that succeeds is a session of its own, unless it enters a rule. -/
theorem of_perform {o : Operation α} {m' : Model α} (hallowed : allowed o)
    (hpossible : ∀ r, o ≠ .enterRule r) (h : o.perform m = (m', .ok ())) :
    Session allowed m [m] m' := by
  have hpossible' : o.Possible [m] := by
    cases o with
    | enterRule r => exact absurd rfl (hpossible r)
    | _ => trivial
  have hsession : Session allowed m [m] (o.perform m).1 := .step .start o hallowed hpossible'
  rwa [h] at hsession

/-- Steps along a list that are sessions make up a session. -/
theorem exists_of_foldlM {β ε : Type} {f : Model α → β → Except ε (Model α)} {l : List β}
    (hstep : ∀ u b t, f u b = .ok t → ∃ past, Session allowed u past t) {m t : Model α}
    (h : l.foldlM f m = .ok t) : ∃ past, Session allowed m past t := by
  induction l generalizing m with
  | nil =>
      obtain rfl := foldlM_nil_eq_ok_iff.1 h
      exact ⟨[], .start⟩
  | cons b l ih =>
      obtain ⟨u, hu, ht⟩ := foldlM_cons_eq_ok_iff.1 h
      obtain ⟨past, hpast⟩ := hstep m b u hu
      obtain ⟨past', hpast'⟩ := ih ht
      exact ⟨past' ++ past, hpast.trans hpast'⟩

/-! ## What holds along a session -/

theorem changes {o : Operation α} (hpossible : o.Possible (m :: past))
    (hremoves : o.Removes → removing) :
    Changes removing (Known (m :: past)) m (o.perform m).1 := by
  refine o.changes_perform hremoves (fun r hr => ⟨m, List.mem_cons_self, hr⟩) fun r hr => ?_
  subst hr
  exact hpossible

/-- What every change keeps holds in all models of a session. -/
theorem invariant {inv : Model α → Prop}
    (hchange : ∀ {known u u'}, Change removing known u u' → inv u → inv u')
    (hallowed : ∀ o, allowed o → o.Removes → removing) (hstart : inv start)
    (h : Session allowed start past m) : ∀ u ∈ m :: past, inv u := by
  induction h with
  | start => exact List.forall_mem_singleton.2 hstart
  | @step past m h o ho hpossible ih =>
      refine List.forall_mem_cons.2 ⟨?_, ih⟩
      have hchanges := changes hpossible (hallowed o ho)
      generalize (o.perform m).1 = m' at hchanges ⊢
      induction hchanges with
      | refl => exact ih m List.mem_cons_self
      | tail _ hlast hinv => exact hchange hlast hinv

/-- How every change relates the old model to the new one, all models of a session are related to
the last one. -/
theorem related {R : Model α → Model α → Prop} (hrefl : ∀ u, R u u)
    (htrans : ∀ {u v w}, R u v → R v w → R u w)
    (hchange : ∀ {known u u'}, Change removing known u u' → R u u')
    (hallowed : ∀ o, allowed o → o.Removes → removing) (h : Session allowed start past m) :
    ∀ u ∈ m :: past, R u m := by
  induction h with
  | start => exact List.forall_mem_singleton.2 (hrefl start)
  | @step past m h o ho hpossible ih =>
      refine List.forall_mem_cons.2 ⟨hrefl _, fun u hu => htrans (ih u hu) ?_⟩
      have hchanges := changes hpossible (hallowed o ho)
      generalize (o.perform m).1 = m' at hchanges ⊢
      induction hchanges with
      | refl => exact hrefl m
      | tail _ hlast hbefore => exact htrans hbefore (hchange hlast)

/-! ## The rules of a session -/

/-- A change enters no rules but known ones, and binding a rule to other operators leaves it
known. -/
theorem known_of_change {models : List (Model α)} {u u' : Model α}
    (h : Change removing (Known models) u u') (hu : ∀ r ∈ u.rules.objects, Known models r) :
    ∀ r ∈ u'.rules.objects, Known models r := by
  cases h with
  | enterRule hr hfree =>
      intro s hs
      obtain rfl | hs := Registry.mem_objects_insert hs
      · exact hr
      · exact hu s hs
  | removeRule name => exact fun s hs => hu s (Registry.mem_objects_erase hs)
  | clearRules =>
      intro s hs
      exact absurd hs List.not_mem_nil
  | bindRule hr norm conorm =>
      intro s hs
      obtain rfl | hs := Registry.mem_objects_insert hs
      · have hknown := hu _ (Registry.mem_objects_of_get? hr)
        exact hknown
      · exact hu s hs
  | bindRules norm conorm tnorm snorm =>
      intro s hs
      obtain ⟨r, hr, rfl⟩ := Registry.mem_objects_map hs
      exact hu r hr
  | _ => exact hu

/-- Every rule of the rulebase was compiled in some model of the session. -/
theorem known_of_mem_rules (hstart : ∀ r ∈ start.rules.objects, start.Compiles r)
    (h : Session allowed start past m) : ∀ r ∈ m.rules.objects, Known (m :: past) r := by
  induction h with
  | start => exact fun r hr => ⟨start, List.mem_cons_self, hstart r hr⟩
  | @step past m h o ho hpossible ih =>
      have hchanges := changes hpossible (fun _ => trivial : o.Removes → True)
      have hknown : ∀ r ∈ (o.perform m).1.rules.objects, Known (m :: past) r := by
        generalize (o.perform m).1 = m' at hchanges ⊢
        induction hchanges with
        | refl => exact ih
        | tail _ hlast hbefore => exact known_of_change hlast hbefore
      exact fun r hr => (hknown r hr).mono fun u => List.mem_cons_of_mem _

end Session

end FuzzyLogic
