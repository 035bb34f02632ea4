import FuzzyLogic.Text.Blank
import Mathlib.Data.List.DropRight

set_option autoImplicit false

/-! # Trimming

What is left of a text without the blanks at its ends is the one part of it that has no blank at its
own ends and nothing but blanks around it. Everything about trimming follows from this. -/

namespace FuzzyLogic.Text

variable {p q : Char → Bool} {cs pre mid post : List Char}

/-- Neither the first nor the last character satisfies `p`. -/
structure Trimmed (p : Char → Bool) (cs : List Char) : Prop where
  head : ∀ c ∈ cs.head?, p c = false
  last : ∀ c ∈ cs.getLast?, p c = false

theorem Trimmed.of_forall (h : ∀ c ∈ cs, p c = false) : Trimmed p cs where
  head c hc := h c (List.mem_of_mem_head? hc)
  last c hc := h c (List.mem_of_mem_getLast? hc)

theorem Trimmed.imp (h : ∀ c, p c = true → q c = true) (hcs : Trimmed q cs) : Trimmed p cs where
  head c hc := Bool.eq_false_iff.2 fun hp => by simpa [hcs.head c hc] using h c hp
  last c hc := Bool.eq_false_iff.2 fun hp => by simpa [hcs.last c hc] using h c hp

/-- Blanks around a text that is trimmed are what is taken away. -/
theorem trimBy_append_append (hpre : ∀ c ∈ pre, p c = true) (hmid : Trimmed p mid)
    (hpost : ∀ c ∈ post, p c = true) : trimBy p (pre ++ mid ++ post) = mid := by
  have hdrop {ds : List Char} (hds : ∀ c ∈ ds.head?, p c = false) : ds.dropWhile p = ds := by
    cases ds with
    | nil => rfl
    | cons d ds => exact List.dropWhile_cons_of_neg (by simp [hds d rfl])
  rw [trimBy, List.append_assoc, List.dropWhile_append_of_pos hpre]
  cases mid with
  | nil =>
      have hnil : post.dropWhile p = [] := List.dropWhile_eq_nil_iff.2 hpost
      rw [List.nil_append, hnil]
      rfl
  | cons d mid =>
      have hlast : ∀ c ∈ (d :: mid).reverse.head?, p c = false := by
        rw [List.head?_reverse]
        exact hmid.last
      have hfront : (d :: mid ++ post).dropWhile p = d :: mid ++ post := hdrop hmid.head
      rw [hfront, List.reverse_append,
        List.dropWhile_append_of_pos (by simpa using hpost), hdrop hlast, List.reverse_reverse]

theorem trimBy_eq_of_trimmed (h : Trimmed p cs) : trimBy p cs = cs := by
  have hnil : ∀ c ∈ ([] : List Char), p c = true := by simp
  simpa using trimBy_append_append hnil h hnil

theorem not_of_mem_getLast?_rdropWhile (p : Char → Bool) (cs : List Char) :
    ∀ c ∈ (cs.rdropWhile p).getLast?, p c = false := by
  intro c hc
  have hnot := List.head?_dropWhile_not p cs.reverse
  rw [List.rdropWhile, List.getLast?_reverse] at hc
  rw [hc] at hnot
  simpa using hnot

theorem trimmed_trimBy (p : Char → Bool) (cs : List Char) : Trimmed p (trimBy p cs) where
  head c hc := by
    -- What is left begins where the text without its first blanks begins.
    obtain ⟨back, hback⟩ := List.rdropWhile_prefix p (cs.dropWhile p)
    have hfirst : c ∈ (cs.dropWhile p).head? := by
      rw [← hback, List.head?_append]
      exact Option.or_eq_some_iff.2 (.inl hc)
    have hnot := List.head?_dropWhile_not p cs
    rw [hfirst] at hnot
    simpa using hnot
  last := not_of_mem_getLast?_rdropWhile p (cs.dropWhile p)

/-- Around what is left there are only blanks. -/
theorem exists_trimBy (p : Char → Bool) (cs : List Char) :
    ∃ pre post, cs = pre ++ trimBy p cs ++ post ∧ (∀ c ∈ pre, p c = true) ∧
      ∀ c ∈ post, p c = true := by
  refine ⟨cs.takeWhile p, (cs.dropWhile p).rtakeWhile p, ?_, ?_, ?_⟩
  · have hback : trimBy p cs ++ (cs.dropWhile p).rtakeWhile p = cs.dropWhile p :=
      List.rdropWhile_append_rtakeWhile
    rw [List.append_assoc, hback, List.takeWhile_append_dropWhile]
  · exact fun c hc => List.mem_takeWhile_imp hc
  · exact fun c hc => List.mem_rtakeWhile_imp hc

theorem trimBy_append_right (cs : List Char) (hpost : ∀ c ∈ post, p c = true) :
    trimBy p (cs ++ post) = trimBy p cs := by
  obtain ⟨pre, back, hcs, hpre, hback⟩ := exists_trimBy p cs
  have htrim := trimBy_append_append hpre (trimmed_trimBy p cs)
    (List.forall_mem_append.2 ⟨hback, hpost⟩)
  rwa [← List.append_assoc, ← hcs] at htrim

/-- Only the end that is behind matters if the text in front begins with no blank. -/
theorem Trimmed.append (hcs : Trimmed p cs) (hne : cs ≠ []) {tail : List Char} (htail : tail ≠ [])
    (hlast : ∀ c ∈ tail.getLast?, p c = false) : Trimmed p (cs ++ tail) where
  head c hc := by
    rw [List.head?_append_of_ne_nil _ hne] at hc
    exact hcs.head c hc
  last c hc := by
    rw [List.getLast?_append_of_ne_nil _ htail] at hc
    exact hlast c hc

end FuzzyLogic.Text
