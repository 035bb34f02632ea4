import FuzzyLogic.Decimal.Reader
import FuzzyLogic.Proofs.Text.Trim

set_option autoImplicit false

/-! # Blanks around numbers

No number has a blank inside. So a text spells a number only if it is one without the blanks at its
ends. White space there is ignored, but not every blank is white space: with an information
separator at an end a text spells no number. -/

namespace FuzzyLogic.Decimal

open Text

/-- Characters that are no blanks. -/
def Solid (cs : List Char) : Prop :=
  ∀ c ∈ cs, isBlank c = false

theorem Solid.nil : Solid [] := by
  simp [Solid]

theorem Solid.cons {c : Char} {cs : List Char} (hc : isBlank c = false) (hcs : Solid cs) :
    Solid (c :: cs) :=
  List.forall_mem_cons.2 ⟨hc, hcs⟩

theorem Solid.append {cs ds : List Char} (hcs : Solid cs) (hds : Solid ds) : Solid (cs ++ ds) :=
  List.forall_mem_append.2 ⟨hcs, hds⟩

/-! ## Characters of numbers -/

/-- No ten digits have a blank among them. -/
theorem isBlank_eq_false_of_digitValue? {c : Char} {d : Nat} (h : digitValue? c = some d) :
    isBlank c = false := by
  refine Bool.eq_false_iff.2 fun hblank => ?_
  simp only [isBlank, isWhiteSpace, Bool.or_eq_true, Bool.and_eq_true, decide_eq_true_eq,
    beq_iff_eq] at hblank
  simp only [digitValue?] at h
  split at h
  · split at h
    · next hdigit =>
        simp only [Bool.and_eq_true, decide_eq_true_eq] at hdigit
        omega
    · cases h
  · obtain ⟨z, hz, -⟩ := Option.map_eq_some_iff.1 h
    have hten := List.find?_some hz
    simp only [Bool.and_eq_true, decide_eq_true_eq] at hten
    have hgaps : ∀ z ∈ zeroDigits, (z + 9 < 0x85 ∨ 0xA0 < z) ∧ (z + 9 < 0x1680 ∨ 0x1680 < z) ∧
        (z + 9 < 0x2000 ∨ 0x205F < z) ∧ (z + 9 < 0x3000 ∨ 0x3000 < z) := by decide
    obtain ⟨hlatin, hogham, hspaces, hwide⟩ := hgaps z (List.mem_of_find?_eq_some hz)
    omega

/-- A blank is no letter. -/
theorem toLower_of_isBlank {c : Char} (h : isBlank c = true) : c.toLower = c := by
  simp only [isBlank, isWhiteSpace, Bool.or_eq_true, Bool.and_eq_true, decide_eq_true_eq,
    beq_iff_eq] at h
  refine dif_neg fun hupper => ?_
  have hle : 65 ≤ c.toNat := hupper.1
  have hge : c.toNat ≤ 90 := hupper.2
  omega

/-! ## Parts of numbers -/

/-- What stands in front of the rest of a text has no blanks. -/
def SolidUpTo (rest cs : List Char) : Prop :=
  ∃ front, cs = front ++ rest ∧ Solid front

namespace SolidUpTo

variable {c : Char} {cs ds rest : List Char}

theorem refl (cs : List Char) : SolidUpTo cs cs :=
  ⟨[], rfl, .nil⟩

theorem cons (hc : isBlank c = false) (h : SolidUpTo rest cs) : SolidUpTo rest (c :: cs) := by
  obtain ⟨front, rfl, hfront⟩ := h
  exact ⟨c :: front, rfl, .cons hc hfront⟩

theorem solid (h : SolidUpTo rest cs) (hrest : Solid rest) : Solid cs := by
  obtain ⟨front, rfl, hfront⟩ := h
  exact hfront.append hrest

end SolidUpTo

theorem solidUpTo_takeSign (cs : List Char) : SolidUpTo (takeSign cs).2 cs := by
  unfold takeSign
  split
  · exact .cons (by decide) (.refl _)
  · exact .cons (by decide) (.refl _)
  · exact .refl cs

theorem solidUpTo_takeDigits (cs : List Char) : SolidUpTo (takeDigits cs).2 cs := by
  fun_induction takeDigits cs with
  | case1 c next rest d e he hd ds tail htail ih =>
      rw [htail] at ih
      exact .cons (isBlank_eq_false_of_digitValue? hd) (.cons (by decide) ih)
  | case2 c next rest d hnext hd => exact .cons (isBlank_eq_false_of_digitValue? hd) (.refl _)
  | case3 => exact .refl _
  | case4 c rest _ d hd ds tail htail ih =>
      rw [htail] at ih
      exact .cons (isBlank_eq_false_of_digitValue? hd) ih
  | case5 => exact .refl _
  | case6 => exact .refl _

theorem solidUpTo_takeFraction (cs : List Char) : SolidUpTo (takeFraction cs).2 cs := by
  unfold takeFraction
  split
  · exact .cons (by decide) (solidUpTo_takeDigits _)
  · exact .refl cs

theorem solid_of_exponent? {cs : List Char} {e : Int} (h : exponent? cs = some e) : Solid cs := by
  cases cs with
  | nil => exact .nil
  | cons c rest =>
      simp only [exponent?] at h
      split at h
      · next hletter =>
          have hc : isBlank c = false := by
            rw [Bool.or_eq_true, beq_iff_eq, beq_iff_eq] at hletter
            obtain rfl | rfl := hletter <;> decide
          split at h
          · next d ds hdigits =>
              have hrest := solidUpTo_takeDigits (takeSign rest).2
              rw [hdigits] at hrest
              exact .cons hc ((solidUpTo_takeSign rest).solid (hrest.solid .nil))
          · cases h
      · cases h

theorem solid_of_namedNumber? {cs : List Char} {x : Float} (h : namedNumber? cs = some x) :
    Solid cs := by
  have hword : String.ofList (cs.map Char.toLower) ∈ ["inf", "infinity", "nan"] := by
    by_contra hnot
    simp only [List.mem_cons, List.not_mem_nil, or_false, not_or] at hnot
    simp [namedNumber?, hnot] at h
  have hletters : ∀ word ∈ ["inf", "infinity", "nan"], word.toList.all (!isBlank ·) = true := by
    decide
  have hsolid := List.all_eq_true.1 (hletters _ hword)
  intro c hc
  refine Bool.eq_false_iff.2 fun hblank => ?_
  have hmem : c ∈ cs.map Char.toLower := List.mem_map.2 ⟨c, hc, toLower_of_isBlank hblank⟩
  have hnot := hsolid c (by rwa [String.toList_ofList])
  rw [hblank] at hnot
  cases hnot

theorem solid_of_unsigned? {cs : List Char} {x : Float} (h : unsigned? cs = some x) :
    Solid cs := by
  simp only [unsigned?] at h
  split at h
  · next hnamed => exact solid_of_namedNumber? hnamed
  · split at h
    · cases h
    · obtain ⟨e, he, -⟩ := Option.map_eq_some_iff.1 h
      have hfraction := (solidUpTo_takeFraction _).solid (solid_of_exponent? he)
      exact (solidUpTo_takeDigits cs).solid hfraction

/-! ## Numbers in texts -/

/-- Among the blanks around a text is one that is no white space. -/
def Padded (s : String) : Prop :=
  trimBy isWhiteSpace s.toList ≠ trimBy isBlank s.toList

instance (s : String) : Decidable (Padded s) :=
  inferInstanceAs (Decidable (_ ≠ _))

theorem not_padded_of_read? {s : String} {x : Float} (h : read? s = some x) : ¬ Padded s := by
  obtain ⟨y, hy, -⟩ := Option.map_eq_some_iff.1 h
  have hsolid : Solid (trimBy isWhiteSpace s.toList) :=
    (solidUpTo_takeSign _).solid (solid_of_unsigned? hy)
  obtain ⟨pre, post, hs, hpre, hpost⟩ := exists_trimBy isWhiteSpace s.toList
  -- The number is trimmed for all blanks, and what is around it is blank.
  have htrim := trimBy_append_append (fun c hc => isBlank_of_isWhiteSpace (hpre c hc))
    (.of_forall hsolid) fun c hc => isBlank_of_isWhiteSpace (hpost c hc)
  rw [← hs] at htrim
  exact not_not.2 htrim.symm

/-- **A text spells the number that it spells without the blanks around it**, unless one of them is
no white space. -/
theorem read?_trim {s : String} (h : ¬ Padded s) : read? (trim s) = read? s := by
  have htrimmed : trimBy isWhiteSpace (trim s).toList = trimBy isWhiteSpace s.toList := by
    rw [trim, String.toList_ofList, not_not.1 h]
    exact trimBy_eq_of_trimmed
      ((trimmed_trimBy isBlank s.toList).imp fun _ => isBlank_of_isWhiteSpace)
  rw [read?, read?, htrimmed]

theorem read?_trim_of_read? {s : String} {x : Float} (h : read? s = some x) :
    read? (trim s) = some x :=
  (read?_trim (not_padded_of_read? h)).trans h

end FuzzyLogic.Decimal
