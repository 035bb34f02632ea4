import FuzzyLogic.Proofs.Membership
import FuzzyLogic.Proofs.Model.Soundness
import FuzzyLogic.Proofs.ModelFile.Loaded

set_option autoImplicit false

/-! # Loading as a session

What a text describes is done by operations that could have been asked for one by one. So a model
that has been loaded is one to which a session comes that starts with an empty model, and everything
that holds along sessions holds of it. -/

namespace FuzzyLogic

open ModelFile

/-- A label that the operation brings along has a function whose parameters are in order. There are no
others, since they are checked when a function is built. -/
def Operation.Shaped {α : Type} [Scalar α] : Operation α → Prop
  | .addLabel _ _ function => function.Ordered
  | .enterLabel _ l => l.function.Ordered
  | _ => True

namespace Session

variable {m t : Model Float}

theorem exists_of_takeIn {directive : Directive} (h : takeIn m directive = .ok t) :
    ∃ past, Session Operation.Shaped m past t := by
  cases directive with
  | makeVariable name lower upper =>
      have hadd := takeIn_makeVariable_eq_ok_iff.1 h
      exact ⟨_, of_perform (o := .addVariable name lower upper) trivial (by simp)
        (by rw [Operation.perform, hadd]; rfl)⟩
  | makeLabel owner label shape params =>
      obtain ⟨ref, function, -, hmake, hadd⟩ := takeIn_makeLabel_eq_ok_iff.1 h
      exact ⟨_, of_perform (o := .addLabel ref label function)
        (MembershipFunction.ordered_of_make hmake) (by simp)
        (by rw [Operation.perform, hadd]; rfl)⟩
  | chooseNorm name =>
      have hset := onModel_eq_ok_iff.1 h
      exact ⟨_, of_perform (o := .setEngine (some name) none) trivial (by simp)
        (by rw [Operation.perform, hset]; rfl)⟩
  | chooseConorm name =>
      have hset := onModel_eq_ok_iff.1 h
      exact ⟨_, of_perform (o := .setEngine none (some name)) trivial (by simp)
        (by rw [Operation.perform, hset]; rfl)⟩
  | setInput name x =>
      obtain rfl := Except.ok.inj h
      exact ⟨[], .start⟩
  | addRule name text =>
      obtain rfl := Except.ok.inj h
      exact ⟨[], .start⟩

theorem exists_of_assign {name : String} {x : Float} (h : m.assign false name x = .ok t) :
    ∃ past, Session Operation.Shaped m past t :=
  ⟨_, of_perform (o := .setInputs false ⟨[(name, x)]⟩) trivial (by simp)
    (by rw [Operation.perform, Model.setInputs, h]; rfl)⟩

theorem exists_of_newRule {name text : String} (h : m.newRule name text = .ok t) :
    ∃ past, Session Operation.Shaped m past t :=
  ⟨_, of_perform (o := .newRule name text) trivial (by simp)
    (by rw [Operation.perform, h]; rfl)⟩

/-- **What is loaded could have been built by hand.** -/
theorem exists_of_load {text : String} (h : load text = .ok m) :
    ∃ past, Session Operation.Shaped .initial past m := by
  obtain ⟨-, built, set, hbuilt, hset, hrules⟩ := load_eq_ok_iff.1 h
  obtain ⟨past, hpast⟩ := exists_of_foldlM (fun _ _ _ => exists_of_takeIn) hbuilt
  obtain ⟨past', hpast'⟩ := exists_of_foldlM (fun _ _ _ => exists_of_assign) hset
  obtain ⟨past'', hpast''⟩ := exists_of_foldlM (fun _ _ _ => exists_of_newRule) hrules
  exact ⟨_, (hpast.trans hpast').trans hpast''⟩

theorem exists_of_fresh (h : m.Fresh) :
    ∃ tnorm snorm past, Session Operation.Shaped (.empty tnorm snorm) past m := by
  cases h with
  | empty tnorm snorm => exact ⟨tnorm, snorm, [], .start⟩
  | loaded h =>
      obtain ⟨past, hpast⟩ := exists_of_load h
      exact ⟨_, _, past, hpast⟩

/-! ## Soundness -/

variable {start : Model Float} {past : List (Model Float)} {allowed : Operation Float → Prop}

theorem sound_of_fresh (h : m.Fresh) : m.Sound := by
  obtain ⟨tnorm, snorm, past, hpast⟩ := exists_of_fresh h
  exact (hpast.mono fun _ _ => trivial).sound.1

/-- All models of a session are sound, whether it starts with an empty model or a loaded one. -/
theorem all_sound (hstart : start.Fresh) (h : Session allowed start past m) :
    ∀ u ∈ m :: past, u.Sound :=
  h.invariant (fun hchange hu => hu.change hchange)
    (fun _ _ _ => trivial : ∀ o : Operation Float, allowed o → o.Removes → True)
    (sound_of_fresh hstart)

end Session

end FuzzyLogic
