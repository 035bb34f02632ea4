import FuzzyLogic.Proofs.Success
import Mathlib.Data.List.Induction

set_option autoImplicit false

/-! # Results that are not there

What can be said of the error of a function that fails: it is the error of one of its steps. A
sequence of steps along a list fails at one of them, in a state that the steps before have left. -/

namespace FuzzyLogic

variable {ε δ β γ σ : Type}

theorem bind_eq_error_iff {x : Except ε β} {f : β → Except ε γ} {e : ε} :
    (x >>= f) = .error e ↔ x = .error e ∨ ∃ b, x = .ok b ∧ f b = .error e := by
  cases x with
  | error e' => simp [bind, Except.bind]
  | ok b => simp [bind, Except.bind]

theorem map_eq_error_iff {x : Except ε β} {f : β → γ} {e : ε} :
    x.map f = .error e ↔ x = .error e := by
  cases x <;> simp [Except.map]

/-! ## Kinds of errors -/

/-- If there is no result, the error is of the kind `P`. -/
def FailsOnly (P : ε → Prop) (x : Except ε β) : Prop :=
  ∀ e, x = .error e → P e

namespace FailsOnly

variable {P : ε → Prop}

theorem ok (b : β) : FailsOnly P (.ok b) := by
  intro e h
  exact absurd h (by simp)

theorem error {e : ε} (h : P e) : FailsOnly P (.error e : Except ε β) := by
  intro e' he
  obtain rfl := Except.error.inj he
  exact h

theorem bind {x : Except ε β} {f : β → Except ε γ} (hx : FailsOnly P x)
    (hf : ∀ b, x = .ok b → FailsOnly P (f b)) : FailsOnly P (x >>= f) := by
  intro e h
  obtain h | ⟨b, hb, h⟩ := bind_eq_error_iff.1 h
  · exact hx e h
  · exact hf b hb e h

theorem map {x : Except ε β} (hx : FailsOnly P x) (f : β → γ) : FailsOnly P (x.map f) := by
  intro e h
  exact hx e (map_eq_error_iff.1 h)

end FailsOnly

/-! ## The first item -/

/-- A property that not all items of a list have is first missing somewhere. -/
theorem forall_or_exists_first (P : β → Prop) (l : List β) :
    (∀ b ∈ l, P b) ∨ ∃ before b after, l = before ++ b :: after ∧ (∀ c ∈ before, P c) ∧ ¬ P b := by
  induction l with
  | nil => exact .inl (by simp)
  | cons c l ih =>
      by_cases hc : P c
      · refine ih.imp (fun h => List.forall_mem_cons.2 ⟨hc, h⟩) ?_
        rintro ⟨before, b, after, rfl, hbefore, hb⟩
        exact ⟨c :: before, b, after, rfl, List.forall_mem_cons.2 ⟨hc, hbefore⟩, hb⟩
      · exact .inr ⟨[], c, l, rfl, by simp, hc⟩

/-! ## Functions along a list -/

/-- A function fails along a list where it fails first. -/
theorem listMapM_eq_error_iff {f : β → Except ε γ} {l : List β} {e : ε} :
    l.mapM f = .error e ↔
      ∃ before b after, l = before ++ b :: after ∧ (∀ c ∈ before, ∃ d, f c = .ok d) ∧
        f b = .error e := by
  constructor
  · intro h
    induction l with
    | nil => exact absurd h (by simp [pure, Except.pure])
    | cons b l ih =>
        rw [List.mapM_cons] at h
        obtain h | ⟨c, hc, h⟩ := bind_eq_error_iff.1 h
        · exact ⟨[], b, l, rfl, by simp, h⟩
        · obtain h | ⟨k, -, h⟩ := bind_eq_error_iff.1 h
          · obtain ⟨before, d, after, rfl, hbefore, hd⟩ := ih h
            exact ⟨b :: before, d, after, rfl, List.forall_mem_cons.2 ⟨⟨c, hc⟩, hbefore⟩, hd⟩
          · exact absurd h (by simp [pure, Except.pure])
  · rintro ⟨before, b, after, rfl, hbefore, hb⟩
    obtain ⟨k, hk⟩ := exists_listMapM_eq_ok_iff.2 hbefore
    rw [List.mapM_append, hk, List.mapM_cons, hb]
    rfl

/-! ## Steps along a list -/

/-- What every step keeps is there at the end. -/
theorem foldlM_invariant {f : σ → β → Except ε σ} {l : List β} (inv : σ → Prop)
    (hstep : ∀ s t, ∀ b ∈ l, inv s → f s b = .ok t → inv t) {s t : σ} (hs : inv s)
    (h : l.foldlM f s = .ok t) : inv t := by
  induction l generalizing s with
  | nil =>
      rw [foldlM_nil_eq_ok_iff] at h
      rwa [h]
  | cons b l ih =>
      obtain ⟨u, hu, ht⟩ := foldlM_cons_eq_ok_iff.1 h
      exact ih (fun s t c hc => hstep s t c (List.mem_cons_of_mem b hc))
        (hstep s u b List.mem_cons_self hs hu) ht

/-- Steps along a list fail where the first one fails: those before it succeed. -/
theorem foldlM_eq_error_iff {f : σ → β → Except ε σ} {l : List β} {s : σ} {e : ε} :
    l.foldlM f s = .error e ↔
      ∃ before b after u, l = before ++ b :: after ∧ before.foldlM f s = .ok u ∧
        f u b = .error e := by
  constructor
  · intro h
    induction l generalizing s with
    | nil => exact absurd h (by simp [pure, Except.pure])
    | cons b l ih =>
        rw [List.foldlM_cons] at h
        obtain h | ⟨u, hu, h⟩ := bind_eq_error_iff.1 h
        · exact ⟨[], b, l, s, rfl, rfl, h⟩
        · obtain ⟨before, c, after, v, rfl, hv, hc⟩ := ih h
          exact ⟨b :: before, c, after, v, rfl, foldlM_cons_eq_ok_iff.2 ⟨u, hu, hv⟩, hc⟩
  · rintro ⟨before, b, after, u, rfl, hu, hb⟩
    refine (List.foldlM_append ..).trans (bind_eq_error_iff.2 (.inr ⟨u, hu, ?_⟩))
    exact (List.foldlM_cons ..).trans (bind_eq_error_iff.2 (.inl hb))

/-- Steps that fail together fail at one of them, in a state that has what the steps keep. -/
theorem exists_of_foldlM_eq_error {f : σ → β → Except ε σ} {l : List β} (inv : σ → Prop)
    (hstep : ∀ s t, ∀ b ∈ l, inv s → f s b = .ok t → inv t) {s : σ} {e : ε} (hs : inv s)
    (h : l.foldlM f s = .error e) : ∃ b ∈ l, ∃ u, inv u ∧ f u b = .error e := by
  obtain ⟨before, b, after, u, rfl, hu, hb⟩ := foldlM_eq_error_iff.1 h
  have hbefore : ∀ s t, ∀ c ∈ before, inv s → f s c = .ok t → inv t :=
    fun s t c hc => hstep s t c (List.mem_append_left _ hc)
  exact ⟨b, by simp, u, foldlM_invariant inv hbefore hs hu, hb⟩

/-! ## Lists that grow along a list -/

section

variable {f : σ → β → Except ε σ} {items : σ → List γ} {P : β → γ → Prop}
  (hgrows : ∀ s b t, f s b = .ok t → items t = items s ∨ ∃ c, items t = items s ++ [c] ∧ P b c)

include hgrows

/-- Where a list grows by at most one item in a step, what was there stays in front. -/
theorem exists_append_of_foldlM_grows {l : List β} {s t : σ} (h : l.foldlM f s = .ok t) :
    ∃ more, items t = items s ++ more := by
  induction l generalizing s with
  | nil => exact ⟨[], by rw [foldlM_nil_eq_ok_iff.1 h, List.append_nil]⟩
  | cons b l ih =>
      obtain ⟨u, hu, ht⟩ := foldlM_cons_eq_ok_iff.1 h
      obtain ⟨more, hmore⟩ := ih ht
      obtain hsame | ⟨c, hnew, -⟩ := hgrows s b u hu
      · exact ⟨more, by rw [hmore, hsame]⟩
      · exact ⟨c :: more, by rw [hmore, hnew, List.append_assoc, List.singleton_append]⟩

/-- Each item was added by some step, and what stands before it was there already. -/
theorem exists_step_of_foldlM_grows {l : List β} {s t : σ} (hs : items s = [])
    (h : l.foldlM f s = .ok t) {first last : List γ} {c : γ} (ht : items t = first ++ c :: last) :
    ∃ before b after u v, l = before ++ b :: after ∧ before.foldlM f s = .ok u ∧ f u b = .ok v ∧
      items u = first ∧ items v = first ++ [c] ∧ P b c := by
  induction l using List.reverseRecOn generalizing t last with
  | nil =>
      rw [foldlM_nil_eq_ok_iff] at h
      subst h
      exact absurd (hs.symm.trans ht) (by simp)
  | append_singleton l b ih =>
      obtain ⟨u, hu, hb⟩ := foldlM_append_eq_ok_iff.1 h
      obtain ⟨v, hv, hnil⟩ := foldlM_cons_eq_ok_iff.1 hb
      obtain rfl := foldlM_nil_eq_ok_iff.1 hnil
      -- What the item is if it was there before the last step.
      have hearlier {last : List γ} (hitems : items u = first ++ c :: last) :
          ∃ before b' after v w, l ++ [b] = before ++ b' :: after ∧
            before.foldlM f s = .ok v ∧ f v b' = .ok w ∧ items v = first ∧
            items w = first ++ [c] ∧ P b' c := by
        obtain ⟨before, b', after, v, w, rfl, hrest⟩ := ih hu hitems
        exact ⟨before, b', after ++ [b], v, w, by simp, hrest⟩
      obtain hsame | ⟨d, hnew, hd⟩ := hgrows u b t hv
      · exact hearlier (hsame ▸ ht)
      · cases last using List.reverseRecOn with
        | nil =>
            obtain ⟨hfirst, hc⟩ := List.append_inj' (hnew.symm.trans ht) rfl
            obtain rfl := List.singleton_inj.1 hc
            exact ⟨l, b, [], u, t, rfl, hu, hv, hfirst, hnew.trans (by rw [hfirst]), hd⟩
        | append_singleton last e =>
            rw [← List.cons_append, ← List.append_assoc] at ht
            exact hearlier (List.append_inj' (hnew.symm.trans ht) rfl).1

end

end FuzzyLogic
