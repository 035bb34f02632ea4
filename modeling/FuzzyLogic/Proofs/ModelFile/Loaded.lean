import FuzzyLogic.Proofs.Failure
import FuzzyLogic.Proofs.Model.Change
import FuzzyLogic.Proofs.ModelFile.Content

set_option autoImplicit false

/-! # Models to start with

A model comes into being as the empty one or is loaded from a text. In either case its rules are
those of the variables that it has, bound to the operators that it names. -/

namespace FuzzyLogic

open ModelFile

namespace Model

theorem Listed.held {α : Type} {m : Model α} (hm : m.Listed) : m.Held := by
  intro e he
  rw [hm.entries, List.mem_mapIdx] at he
  obtain ⟨i, hi, rfl⟩ := he
  have hpool : i < m.pool.size := by simpa [variableNames] using hi
  exact ⟨m.pool[i], Array.getElem?_eq_getElem hpool, by simp [variableNames]⟩

/-- The rule is bound to the AND that the model names. -/
def NormInStep {α : Type} (m : Model α) (r : Rule α) : Prop :=
  ∃ norm, TNorm.ofName? m.tnorm = some norm ∧ r.norm = .stock norm

/-- The rule is bound to the OR that the model names. -/
def ConormInStep {α : Type} (m : Model α) (r : Rule α) : Prop :=
  ∃ conorm, SNorm.ofName? m.snorm = some conorm ∧ r.conorm = .stock conorm

/-- The model is empty or has just been loaded. -/
inductive Fresh : Model Float → Prop
  | empty (tnorm snorm : String) : Fresh (.empty tnorm snorm)
  | loaded {text : String} {m : Model Float} (h : load text = .ok m) : Fresh m

/-- What is known of a model before the first operation on it. -/
structure Start (m : Model Float) : Prop where
  held : m.Held
  keyed : m.rules.Keyed Rule.name
  compiles : ∀ r ∈ m.rules.objects, m.Compiles r
  norm : ∀ r ∈ m.rules.objects, m.NormInStep r
  conorm : ∀ r ∈ m.rules.objects, m.ConormInStep r

theorem keyed_of_enterRules {rules : List (String × String)} {m t : Model Float}
    (hm : m.rules.Keyed Rule.name) (h : enterRules m rules = .ok t) : t.rules.Keyed Rule.name := by
  refine foldlM_invariant (fun u => u.rules.Keyed Rule.name) (fun u v rule _ hu hv => ?_) hm h
  obtain ⟨norm, conorm, r, -, -, -, hadd⟩ := newRule_eq_ok_iff.1 hv
  obtain ⟨-, rfl⟩ := addRule_eq_ok_iff.1 hadd
  exact hu.insert r

theorem start_empty (tnorm snorm : String) : (empty tnorm snorm : Model Float).Start where
  held := (listed_empty tnorm snorm).held
  keyed := .empty
  compiles _ hr := absurd hr List.not_mem_nil
  norm _ hr := absurd hr List.not_mem_nil
  conorm _ hr := absurd hr List.not_mem_nil

/-- The rules are compiled last, when the variables are there and the operators are chosen. -/
theorem start_of_load {text : String} {m : Model Float} (h : load text = .ok m) : m.Start := by
  obtain ⟨-, built, set, hbuilt, hset, hrules⟩ := load_eq_ok_iff.1 h
  obtain ⟨norm, -, htnorm⟩ := exists_lastChoice Model.tnorm
    (fun _ _ _ h => (chooses_of_takeIn h).1) hbuilt .minimum rfl
  obtain ⟨conorm, -, hsnorm⟩ := exists_lastChoice Model.snorm
    (fun _ _ _ h => (chooses_of_takeIn h).2) hbuilt .maximum rfl
  have hadds := adds_of_takeAll hbuilt
  obtain ⟨hframe, hlisted, -⟩ := pool_of_enterInputs (hadds.listed (listed_empty _ _)) hset
  have hempty : set.rules = ∅ := by
    rw [hframe]
    exact hadds.rules rfl
  have hkeyed := keyed_of_enterRules (hempty ▸ .empty) hrules
  have htnorm' : set.tnorm = norm.name := by rw [hframe, htnorm]
  have hsnorm' : set.snorm = conorm.name := by rw [hframe, hsnorm]
  obtain ⟨rs, rfl, -, hrs⟩ := exists_rules_of_enterRules htnorm' hsnorm' hrules
  have hmem {r : Rule Float}
      (hr : r ∈ Registry.objects ⟨set.rules.entries ++ rs.map fun r => (r.name, r)⟩) : r ∈ rs := by
    rw [hempty] at hr
    obtain ⟨e, he, rfl⟩ := List.mem_map.1 hr
    obtain ⟨s, hs, rfl⟩ := List.mem_map.1 he
    exact hs
  exact
    { held := hlisted.held
      keyed := hkeyed
      compiles := fun r hr => (hrs r (hmem hr)).1
      norm := fun r hr => ⟨norm, htnorm' ▸ norm.ofName?_name, (hrs r (hmem hr)).2.1⟩
      conorm := fun r hr => ⟨conorm, hsnorm' ▸ conorm.ofName?_name, (hrs r (hmem hr)).2.2⟩ }

theorem Fresh.start {m : Model Float} (h : m.Fresh) : m.Start := by
  cases h with
  | empty tnorm snorm => exact start_empty tnorm snorm
  | loaded h => exact start_of_load h

end Model

end FuzzyLogic
