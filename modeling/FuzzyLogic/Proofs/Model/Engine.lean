import FuzzyLogic.Proofs.Model.Run
import FuzzyLogic.Proofs.ModelFile.Loaded
import Mathlib.Data.List.Induction

set_option autoImplicit false

/-! # Rules in step with the model

A rule that is made in a model is bound to the operators that the model names, and so is every rule
when the model gets other operators. A rule is out of step only if it was entered with operators of
its own, or bound to one by itself, and the model has not got an operator since. The AND and the OR
are independent of each other, and what is said of both is said once. -/

namespace FuzzyLogic

namespace Operation

open Model

section

variable {α : Type} [Scalar α]

/-- At some point of the run the rule with the name was entered with operators of its own, or one
that `rebinds` bound it to an operator. Ever since it was there, and no operation for all rules that
`chooses` has been done. -/
def OnItsOwn (rebinds chooses : Operation α → Prop) (name : String) (start : Model α)
    (run : List (Operation α)) : Prop :=
  ∃ before o after, run = before ++ o :: after ∧ o.Succeeds (performAll start before) ∧
    (o.EntersBound name ∨ rebinds o) ∧
    Along (fun u p => ¬ p.Drops name ∧ ¬ (chooses p ∧ p.Succeeds u))
      (performAll start (before ++ [o])) after

/-- How a rule that is there after an operation has come to its operator: it is in step, the
operation gave it one of its own, or it was there before and the operation left it alone. -/
inductive Standing (inStep : Model α → Rule α → Prop) (rebinds chooses : Operation α → Prop)
    (name : String) (m : Model α) (o : Operation α) (m' : Model α) (r' : Rule α) : Prop
  | inStep (h : inStep m' r')
  | onItsOwn (hsucceeds : o.Succeeds m) (h : o.EntersBound name ∨ rebinds o)
  | before {r : Rule α} (hr : m.rules.get? name = some r) (hkeeps : ¬ o.Drops name)
      (hchooses : ¬ (chooses o ∧ o.Succeeds m)) (h : inStep m r → inStep m' r')

variable {inStep : Model α → Rule α → Prop} {rebinds chooses : Operation α → Prop} {name : String}

/-- The standing of a rule after a run, from the standing of rules after one operation. -/
theorem inStep_or_onItsOwn
    (hperform : ∀ (m : Model α) (o : Operation α) (r' : Rule α),
      (o.perform m).1.rules.get? name = some r' →
        Standing inStep rebinds chooses name m o (o.perform m).1 r')
    {start : Model α} (hstart : ∀ r, start.rules.get? name = some r → inStep start r)
    (run : List (Operation α)) {r : Rule α} (hr : (performAll start run).rules.get? name = some r) :
    inStep (performAll start run) r ∨ OnItsOwn rebinds chooses name start run := by
  induction run using List.reverseRecOn generalizing r with
  | nil => exact .inl (hstart r hr)
  | append_singleton run o ih =>
      rw [performAll_concat] at hr ⊢
      cases hperform _ o r hr with
      | inStep h => exact .inl h
      | onItsOwn hsucceeds h => exact .inr ⟨run, o, [], rfl, hsucceeds, h, trivial⟩
      | before hbefore hkeeps hchooses h =>
          refine (ih hbefore).imp h ?_
          rintro ⟨before, p, after, rfl, hsucceeds, hp, hafter⟩
          refine ⟨before, p, after ++ [o], by simp, hsucceeds, hp, along_concat.2 ⟨hafter, hkeeps, ?_⟩⟩
          rwa [← performAll_append, List.append_assoc, List.singleton_append]

theorem standing_norm {m : Model α} {o : Operation α} {r' : Rule α}
    (hr' : (o.perform m).1.rules.get? name = some r') :
    Standing NormInStep (RebindsNorm name) ChoosesNorm name m o (o.perform m).1 r' := by
  have heffect := ruleEffect_perform o m name
  generalize (o.perform m).1 = m' at heffect hr' ⊢
  cases heffect with
  | spared hspares hrule htnorm _ =>
      refine .before (hrule.symm.trans hr') hspares.not_drops (fun h => hspares.not_chooses.1 h.1) ?_
      rintro ⟨norm, hnorm, hr⟩
      exact ⟨norm, by rw [htnorm, hnorm], hr⟩
  | refused hkeeps hrefused => exact .before hr' hkeeps (fun h => hrefused h.2) id
  | dropped _ hrule => exact absurd (hrule.symm.trans hr') (by simp)
  | @made _ norm _ r _ hnorm _ hrnorm _ =>
      rw [Registry.get?_insert, if_pos rfl] at hr'
      obtain rfl := Option.some.inj hr'
      exact .inStep ⟨norm, hnorm, hrnorm⟩
  | entered _ henters hsucceeds => exact .onItsOwn hsucceeds (.inl henters)
  | boundNorm _ hsucceeds => exact .onItsOwn hsucceeds (.inr rfl)
  | @boundConorm r _ hr _ =>
      rw [Registry.get?_insert, if_pos rfl] at hr'
      obtain rfl := Option.some.inj hr'
      exact .before hr id (fun h => h.1) id
  | @chosen tnorm snorm norm conorm hnorm _ =>
      rw [withOperators, Registry.get?_map] at hr'
      obtain ⟨r, hr, rfl⟩ := Option.map_eq_some_iff.1 hr'
      obtain ⟨rfl, rfl⟩ | ⟨_, n, rfl, -, rfl⟩ := mapM_eq_ok_iff.1 hnorm
      · exact .before hr id (fun h => absurd h.1 (by simp [ChoosesNorm])) id
      · exact .inStep ⟨n, n.ofName?_name, rfl⟩

theorem standing_conorm {m : Model α} {o : Operation α} {r' : Rule α}
    (hr' : (o.perform m).1.rules.get? name = some r') :
    Standing ConormInStep (RebindsConorm name) ChoosesConorm name m o (o.perform m).1 r' := by
  have heffect := ruleEffect_perform o m name
  generalize (o.perform m).1 = m' at heffect hr' ⊢
  cases heffect with
  | spared hspares hrule _ hsnorm =>
      refine .before (hrule.symm.trans hr') hspares.not_drops (fun h => hspares.not_chooses.2 h.1) ?_
      rintro ⟨conorm, hconorm, hr⟩
      exact ⟨conorm, by rw [hsnorm, hconorm], hr⟩
  | refused hkeeps hrefused => exact .before hr' hkeeps (fun h => hrefused h.2) id
  | dropped _ hrule => exact absurd (hrule.symm.trans hr') (by simp)
  | @made _ _ conorm r _ _ hconorm _ hrconorm =>
      rw [Registry.get?_insert, if_pos rfl] at hr'
      obtain rfl := Option.some.inj hr'
      exact .inStep ⟨conorm, hconorm, hrconorm⟩
  | entered _ henters hsucceeds => exact .onItsOwn hsucceeds (.inl henters)
  | @boundNorm r _ hr _ =>
      rw [Registry.get?_insert, if_pos rfl] at hr'
      obtain rfl := Option.some.inj hr'
      exact .before hr id (fun h => h.1) id
  | boundConorm _ hsucceeds => exact .onItsOwn hsucceeds (.inr rfl)
  | @chosen tnorm snorm norm conorm _ hconorm =>
      rw [withOperators, Registry.get?_map] at hr'
      obtain ⟨r, hr, rfl⟩ := Option.map_eq_some_iff.1 hr'
      obtain ⟨rfl, rfl⟩ | ⟨_, n, rfl, -, rfl⟩ := mapM_eq_ok_iff.1 hconorm
      · exact .before hr id (fun h => absurd h.1 (by simp [ChoosesConorm])) id
      · exact .inStep ⟨n, n.ofName?_name, rfl⟩

theorem keyed_rules_performAll {m : Model α} (hm : m.rules.Keyed Rule.name)
    (run : List (Operation α)) : (performAll m run).rules.Keyed Rule.name := by
  induction run generalizing m with
  | nil => exact hm
  | cons o rest ih =>
      have hchanges : Changes True (fun _ => True) m (o.perform m).1 :=
        o.changes_perform (fun _ => trivial) (fun _ _ => trivial) fun _ _ => trivial
      have hperform : (o.perform m).1.rules.Keyed Rule.name := by
        generalize (o.perform m).1 = m' at hchanges
        induction hchanges with
        | refl => exact hm
        | tail _ hlast hbefore => exact keyed_rules_of_change hlast hbefore
      exact ih hperform

end

end Operation

/-! ## Operators for all rules -/

namespace Model

open Operation

variable {α : Type}

/-- With names of operators the choice of operators succeeds on every model. -/
theorem exists_setEngine_eq {tnorm snorm : Option String}
    (htnorm : ∀ name ∈ tnorm, (TNorm.ofName? name).isSome)
    (hsnorm : ∀ name ∈ snorm, (SNorm.ofName? name).isSome) :
    ∃ norm conorm, norm.isSome = tnorm.isSome ∧ conorm.isSome = snorm.isSome ∧
      ∀ m : Model α, m.setEngine tnorm snorm = .ok (m.withOperators norm conorm) := by
  have hnorms : ∃ norm, tnorm.mapM TNorm.named = (.ok norm : Except (ModelError α) _) := by
    refine exists_mapM_eq_ok fun name hname => ?_
    obtain ⟨n, hn⟩ := Option.isSome_iff_exists.1 (htnorm name hname)
    exact ⟨n, TNorm.named_eq_ok_iff.2 hn⟩
  have hconorms : ∃ conorm, snorm.mapM SNorm.named = (.ok conorm : Except (ModelError α) _) := by
    refine exists_mapM_eq_ok fun name hname => ?_
    obtain ⟨s, hs⟩ := Option.isSome_iff_exists.1 (hsnorm name hname)
    exact ⟨s, SNorm.named_eq_ok_iff.2 hs⟩
  obtain ⟨norm, hnorm⟩ := hnorms
  obtain ⟨conorm, hconorm⟩ := hconorms
  exact ⟨norm, conorm, isSome_of_mapM_eq_ok hnorm, isSome_of_mapM_eq_ok hconorm,
    fun m => setEngine_eq_ok_iff.2 ⟨norm, conorm, hnorm, hconorm, rfl⟩⟩

theorem inStep_withOperators (m : Model α) (norm : Option TNorm) (conorm : Option SNorm) :
    ∀ r ∈ (m.withOperators norm conorm).rules.objects,
      (norm.isSome → (m.withOperators norm conorm).NormInStep r) ∧
        (conorm.isSome → (m.withOperators norm conorm).ConormInStep r) := by
  intro r hr
  obtain ⟨r, -, rfl⟩ := Registry.mem_objects_map hr
  constructor
  · intro h
    obtain ⟨n, rfl⟩ := Option.isSome_iff_exists.1 h
    exact ⟨n, n.ofName?_name, rfl⟩
  · intro h
    obtain ⟨n, rfl⟩ := Option.isSome_iff_exists.1 h
    exact ⟨n, n.ofName?_name, rfl⟩

theorem addRule_withOperators (m : Model α) (r : Rule α) (norm : Option TNorm)
    (conorm : Option SNorm) :
    (m.withOperators norm conorm).addRule (r.withOperators norm conorm)
      = (m.addRule r).map fun u => u.withOperators norm conorm := by
  have hcontains : (m.withOperators norm conorm).rules.contains r.name = m.rules.contains r.name :=
    Registry.contains_map ..
  unfold addRule
  rw [show (r.withOperators norm conorm).name = r.name from rfl, hcontains]
  split
  · rfl
  · simp only [withOperators, Except.map, Registry.map_insert]

/-- The operators of a rule that is made in the model are those that the model names. -/
theorem newRule_eq {m : Model α} {norm : TNorm} {conorm : SNorm}
    (hnorm : TNorm.ofName? m.tnorm = some norm) (hconorm : SNorm.ofName? m.snorm = some conorm)
    (name text : String) :
    m.newRule name text = (m.compile name text (.stock norm) (.stock conorm)).bind m.addRule := by
  unfold newRule
  rw [TNorm.named_eq_ok_iff.2 hnorm, SNorm.named_eq_ok_iff.2 hconorm]
  rfl

/-- Making a rule and getting other operators can be done in either order. -/
theorem newRule_withOperators {m : Model α} {n : TNorm} {s : SNorm}
    (hn : TNorm.ofName? m.tnorm = some n) (hs : SNorm.ofName? m.snorm = some s)
    (norm : Option TNorm) (conorm : Option SNorm) (name text : String) :
    (m.withOperators norm conorm).newRule name text
      = (m.newRule name text).map fun u => u.withOperators norm conorm := by
  have hnorm : TNorm.ofName? (m.withOperators norm conorm).tnorm = some (norm.getD n) := by
    cases norm with
    | none => exact hn
    | some norm => exact norm.ofName?_name
  have hconorm : SNorm.ofName? (m.withOperators norm conorm).snorm = some (conorm.getD s) := by
    cases conorm with
    | none => exact hs
    | some conorm => exact conorm.ofName?_name
  rw [newRule_eq hn hs, newRule_eq hnorm hconorm]
  unfold compile
  -- The names of the model mean the same with other operators.
  have hscope : (m.withOperators norm conorm).scope = m.scope := rfl
  rw [hscope]
  cases Rule.compile m.scope text with
  | error e => rfl
  | ok c =>
      simp only [Except.bind]
      rw [← addRule_withOperators]
      congr 1
      cases norm <;> cases conorm <;> rfl

/-- **Rules are in step with the model unless they came to operators of their own after the last
choice for all rules.** Choosing operators brings all rules in step, and it does not matter whether
a rule is made before or after that. -/
theorem Fresh.in_step {start : Model Float} (hstart : start.Fresh) (run : List (Operation Float))
    (w : Model Float) {tnorm snorm : Option String}
    (htnorm : ∀ name ∈ tnorm, (TNorm.ofName? name).isSome)
    (hsnorm : ∀ name ∈ snorm, (SNorm.ofName? name).isSome) :
    (∀ r ∈ (performAll start run).rules.objects,
      ((performAll start run).NormInStep r ∨
        OnItsOwn (RebindsNorm r.name) ChoosesNorm r.name start run) ∧
      ((performAll start run).ConormInStep r ∨
        OnItsOwn (RebindsConorm r.name) ChoosesConorm r.name start run)) ∧
    ∃ chosen, w.setEngine tnorm snorm = .ok chosen ∧
      (∀ r ∈ chosen.rules.objects,
        (tnorm.isSome → chosen.NormInStep r) ∧ (snorm.isSome → chosen.ConormInStep r)) ∧
      ((TNorm.ofName? w.tnorm).isSome → (SNorm.ofName? w.snorm).isSome → ∀ name text,
        chosen.newRule name text = (w.newRule name text).bind (·.setEngine tnorm snorm)) := by
  obtain ⟨-, hkeyed, -, hnorm, hconorm⟩ := hstart.start
  refine ⟨fun r hr => ?_, ?_⟩
  · have hget := (keyed_rules_performAll hkeyed run).get?_of_mem_objects hr
    constructor
    · refine inStep_or_onItsOwn (fun m o r' => standing_norm) (fun s hs => ?_) run hget
      exact hnorm s (Registry.mem_objects_of_get? hs)
    · refine inStep_or_onItsOwn (fun m o r' => standing_conorm) (fun s hs => ?_) run hget
      exact hconorm s (Registry.mem_objects_of_get? hs)
  · obtain ⟨norm, conorm, hnorm, hconorm, hset⟩ := exists_setEngine_eq htnorm hsnorm
    refine ⟨_, hset w, fun r hr => ?_, fun hn hs name text => ?_⟩
    · rw [← hnorm, ← hconorm]
      exact inStep_withOperators w norm conorm r hr
    · obtain ⟨n, hn⟩ := Option.isSome_iff_exists.1 hn
      obtain ⟨s, hs⟩ := Option.isSome_iff_exists.1 hs
      rw [newRule_withOperators hn hs]
      cases w.newRule name text with
      | error e => rfl
      | ok u => exact (hset u).symm

/-- A run in which one rule is made in the model and another brings its own AND. -/
def mixedRun : List (Operation Float) :=
  [.addVariable "Heat" 0 90, .addLabel ⟨0, "Heat"⟩ "high" (.rightShoulder 60 80),
    .setEngine none (some "PROB"), .newRule "R" "IF Heat is high THEN Heat is high",
    .addRule "S" "IF Heat is high THEN Heat is high" (.stock .product) (.stock .probabilistic),
    .setEngine (some "none") none]

theorem Fresh.in_step_mixedRun :
    let mixed := performAll (.empty "min" "max") mixedRun
    mixed.rules.names = ["R", "S"] ∧
      (∀ r ∈ mixed.rules.objects, mixed.NormInStep r ∨
        OnItsOwn (RebindsNorm r.name) ChoosesNorm r.name (.empty "min" "max") mixedRun) ∧
      ∃ chosen, mixed.setEngine (some "PROD") none = .ok chosen ∧
        ∀ r ∈ chosen.rules.objects, chosen.NormInStep r := by
  intro mixed
  have htnorm : ∀ name ∈ some "PROD", (TNorm.ofName? name).isSome := by decide
  have hsnorm : ∀ name ∈ (none : Option String), (SNorm.ofName? name).isSome := by simp
  obtain ⟨hrules, chosen, hchosen, hstep, -⟩ :=
    Fresh.in_step (.empty "min" "max") mixedRun mixed htnorm hsnorm
  exact ⟨by decide +kernel, fun r hr => (hrules r hr).1, chosen, hchosen,
    fun r hr => (hstep r hr).1 rfl⟩

end Model

end FuzzyLogic
