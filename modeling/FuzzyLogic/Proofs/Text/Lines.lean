import FuzzyLogic.Text.Lines
import Mathlib.Data.List.Induction

set_option autoImplicit false

/-! # Texts with more lines

A text that is followed by more lines is cut into its own lines and those. If the text stops in the
middle of a line, this line is ended first. And it does not matter for the lines whether the text
was read with one kind of line end. -/

namespace FuzzyLogic.Text

/-- The text, with a line feed unless its last line is ended already. -/
def endLine (text : String) : String :=
  match text.toList.getLast? with
  | none => text
  | some c => if isLineBoundary c then text else text ++ "\n"

/-- The text followed by the lines. -/
def withLines (text : String) (lines : List String) : String :=
  endLine text ++ String.join (lines.map (· ++ "\n"))

/-! ## Characters -/

section

variable {line cs rest : List Char} {c : Char}

theorem linesFrom_cons_of_not_boundary (h : isLineBoundary c = false) :
    linesFrom line (c :: rest) = linesFrom (c :: line) rest := by
  have hc : c ≠ '\x0d' := by
    rintro rfl
    exact absurd h (by decide)
  rw [linesFrom]
  · rw [h, if_neg Bool.false_ne_true]
  · rintro _ rfl
    exact absurd rfl hc

theorem linesFrom_cons_of_boundary (h : isLineBoundary c = true)
    (hrest : c = '\x0d' → rest.head? ≠ some '\n') :
    linesFrom line (c :: rest) = line.reverse :: linesFrom [] rest := by
  rw [linesFrom]
  · rw [h, if_pos rfl]
  · rintro tail rfl rfl
    exact hrest rfl rfl

theorem forall_mem_getLast?_tail {p : Char → Prop} (h : ∀ d ∈ (c :: cs).getLast?, p d) :
    ∀ d ∈ cs.getLast?, p d := by
  intro d hd
  refine h d ?_
  rw [List.getLast?_cons, hd]
  rfl

/-- Behind the end of a line everything starts anew. -/
theorem linesFrom_append (hline : cs = [] → line = [])
    (hended : ∀ d ∈ cs.getLast?, isLineBoundary d = true) (hrest : rest.head? ≠ some '\n') :
    linesFrom line (cs ++ rest) = linesFrom line cs ++ linesFrom [] rest := by
  fun_induction linesFrom line cs with
  | case1 line hempty =>
      rw [hline rfl]
      rfl
  | case2 line hempty => exact absurd (hline rfl) (by simpa using hempty)
  | case3 line tail ih =>
      have htail := forall_mem_getLast?_tail (forall_mem_getLast?_tail hended)
      exact congrArg (line.reverse :: ·) (ih (fun _ => rfl) htail)
  | case4 line c tail hc hboundary ih =>
      rw [List.cons_append, linesFrom_cons_of_boundary hboundary, List.cons_append,
        ih (fun _ => rfl) (forall_mem_getLast?_tail hended)]
      rintro rfl
      cases tail with
      | nil => exact hrest
      | cons d tail =>
          intro hd
          obtain rfl := Option.some.inj hd
          exact hc tail rfl rfl
  | case5 line c tail hc hboundary ih =>
      rw [Bool.not_eq_true] at hboundary
      rw [List.cons_append, linesFrom_cons_of_not_boundary hboundary]
      refine ih (fun htail => ?_) (forall_mem_getLast?_tail hended)
      subst htail
      exact absurd (hended c rfl) (by simp [hboundary])

theorem linesFrom_line (h : ∀ d ∈ cs, isLineBoundary d = false) :
    linesFrom line (cs ++ '\n' :: rest) = (line.reverse ++ cs) :: linesFrom [] rest := by
  induction cs generalizing line with
  | nil => simpa using linesFrom_cons_of_boundary (c := '\n') rfl (by simp)
  | cons c cs ih =>
      obtain ⟨hc, hcs⟩ := List.forall_mem_cons.1 h
      rw [List.cons_append, linesFrom_cons_of_not_boundary hc, ih hcs]
      simp

/-- A last line is the same whether a line feed ends it or the text. -/
theorem linesFrom_append_newline (hline : cs = [] → line ≠ [])
    (hopen : ∀ d ∈ cs.getLast?, isLineBoundary d = false) :
    linesFrom line (cs ++ ['\n']) = linesFrom line cs := by
  fun_induction linesFrom line cs with
  | case1 line hempty => exact absurd (by simpa using hempty) (hline rfl)
  | case2 line hempty => exact linesFrom_cons_of_boundary (c := '\n') rfl (by simp)
  | case3 line tail ih =>
      have htail := forall_mem_getLast?_tail (forall_mem_getLast?_tail hopen)
      refine congrArg (line.reverse :: ·) (ih (fun hnil => ?_) htail)
      subst hnil
      exact absurd (hopen '\n' rfl) (by decide)
  | case4 line c tail hc hboundary ih =>
      have hne : tail ≠ [] := by
        rintro rfl
        exact absurd (hopen c rfl) (by simp [hboundary])
      rw [List.cons_append, linesFrom_cons_of_boundary hboundary,
        ih (fun hnil => absurd hnil hne) (forall_mem_getLast?_tail hopen)]
      rintro rfl
      obtain ⟨d, tail, rfl⟩ := List.exists_cons_of_ne_nil hne
      intro hd
      obtain rfl := Option.some.inj hd
      exact hc tail rfl rfl
  | case5 line c tail hc hboundary ih =>
      rw [Bool.not_eq_true] at hboundary
      rw [List.cons_append, linesFrom_cons_of_not_boundary hboundary]
      exact ih (fun _ => List.cons_ne_nil c line) (forall_mem_getLast?_tail hopen)

theorem linesFrom_lines {lines : List (List Char)}
    (h : ∀ l ∈ lines, ∀ d ∈ l, isLineBoundary d = false) :
    linesFrom [] (lines.flatMap (· ++ ['\n'])) = lines := by
  induction lines with
  | nil => rfl
  | cons l lines ih =>
      obtain ⟨hl, hlines⟩ := List.forall_mem_cons.1 h
      rw [List.flatMap_cons, List.append_assoc, List.singleton_append, linesFrom_line hl, ih hlines]
      rfl

/-- The lines are the same when all line ends are line feeds. -/
theorem linesFrom_unifyLineEnds : linesFrom line (unifyLineEnds cs) = linesFrom line cs := by
  fun_induction unifyLineEnds cs generalizing line with
  | case1 => rfl
  | case2 tail ih =>
      rw [linesFrom_cons_of_boundary (c := '\n') rfl (by simp), ih]
      rfl
  | case3 tail htail ih =>
      rw [linesFrom_cons_of_boundary (c := '\n') rfl (by simp), ih,
        linesFrom_cons_of_boundary (c := '\x0d') rfl]
      intro _ hhead
      obtain ⟨rest, rfl⟩ := List.head?_eq_some_iff.1 hhead
      exact htail rest rfl
  | case4 c tail _ hc ih =>
      cases hboundary : isLineBoundary c with
      | false => rw [linesFrom_cons_of_not_boundary hboundary, ih,
          linesFrom_cons_of_not_boundary hboundary]
      | true => rw [linesFrom_cons_of_boundary hboundary fun h => absurd h hc, ih,
          linesFrom_cons_of_boundary hboundary fun h => absurd h hc]

end

/-! ## Texts -/

theorem splitLines_unifyLineEnds (text : String) :
    splitLines (String.ofList (unifyLineEnds text.toList)) = splitLines text := by
  rw [splitLines, String.toList_ofList, linesFrom_unifyLineEnds]
  rfl

/-- Ending the last line adds none. -/
theorem linesFrom_endLine (text : String) {rest : List Char} (hrest : rest.head? ≠ some '\n') :
    linesFrom [] ((endLine text).toList ++ rest) = linesFrom [] text.toList ++ linesFrom [] rest := by
  unfold endLine
  split
  · next hnone =>
      exact linesFrom_append (fun _ => rfl) (by simp [hnone]) hrest
  · next c hc =>
      split
      · next hboundary => exact linesFrom_append (fun _ => rfl) (by simp [hc, hboundary]) hrest
      · next hboundary =>
          have hne : text.toList ≠ [] := by
            intro hnil
            exact absurd (hnil ▸ hc) (by simp)
          have hlast : (text.toList ++ ['\n']).getLast? = some '\n' := List.getLast?_concat
          rw [String.toList_append]
          change linesFrom [] (text.toList ++ ['\n'] ++ rest) = _
          rw [linesFrom_append (fun _ => rfl) (by simp [hlast, isLineBoundary]) hrest,
            linesFrom_append_newline (fun hnil => absurd hnil hne) (by simpa [hc] using hboundary)]

/-- **A text that is followed by lines has its own lines and those.** -/
theorem splitLines_withLines (text : String) {lines : List String}
    (h : ∀ line ∈ lines, line ≠ "" ∧ ∀ c ∈ line.toList, isLineBoundary c = false) :
    splitLines (withLines text lines) = splitLines text ++ lines := by
  have hnew : (String.join (lines.map (· ++ "\n"))).toList
      = (lines.map String.toList).flatMap (· ++ ['\n']) := by
    simp [String.toList_join, List.flatMap_map]
  have hhead : ((lines.map String.toList).flatMap (· ++ ['\n'])).head? ≠ some '\n' := by
    cases lines with
    | nil => simp
    | cons line rest =>
        obtain ⟨hne, hboundary⟩ := h line List.mem_cons_self
        obtain ⟨c, cs, hcs⟩ := List.exists_cons_of_ne_nil (mt String.toList_eq_nil_iff.1 hne)
        have hc := hboundary c (by simp [hcs])
        rw [List.map_cons, List.flatMap_cons, hcs]
        rintro hnewline
        obtain rfl := Option.some.inj hnewline
        exact absurd hc (by decide)
  have hlines : linesFrom [] ((lines.map String.toList).flatMap (· ++ ['\n']))
      = lines.map String.toList :=
    linesFrom_lines (List.forall_mem_map.2 fun line hline => (h line hline).2)
  rw [splitLines, withLines, String.toList_append, hnew, linesFrom_endLine text hhead, hlines,
    List.map_append, List.map_map]
  simp [splitLines, Function.comp_def]

end FuzzyLogic.Text
