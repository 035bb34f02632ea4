import FuzzyLogic.Rule.Token

set_option autoImplicit false

/-! # Keywords in capitals

A keyword is recognised by its capitals: `capitals token` is the token with every letter in its
capital form. This module ties the kind that the compiler gives a token to the word that its
capitals spell, so that the grammar of rules can be written with words alone. -/

namespace FuzzyLogic.Rule

/-- The token in capitals, as far as keywords are concerned. -/
def capitals (token : String) : String :=
  String.ofList (token.toList.map capital)

/-- The keyword in capitals. -/
def Keyword.spelling : Keyword → String
  | ifWord => "IF"
  | isWord => "IS"
  | thenWord => "THEN"
  | operator o => o.name

/-- What the capitals of a token must not be where the subject of a clause stands. -/
def subjectReserved : List String := ["IF", "IS", "THEN", "AND", "OR", "(", ")"]

/-- What the capitals of a token must not be where the label of a clause stands. The words IF and
IS are free there. -/
def labelReserved : List String := ["THEN", "AND", "OR", "(", ")"]

/-! ## Parentheses -/

theorem toNat_ofNat_of_lt {n : Nat} (h : n < 0xD800) : (Char.ofNat n).toNat = n := by
  rw [Char.ofNat, dif_pos (Or.inl h)]
  rfl

/-- A parenthesis is the capital of itself alone. -/
theorem capital_eq_parenthesis_iff {c p : Char} (hp : isParenthesis p = true) :
    capital c = p ↔ c = p := by
  have hp' : p.toNat = 0x28 ∨ p.toNat = 0x29 := by
    simp only [isParenthesis, Bool.or_eq_true, beq_iff_eq] at hp
    rcases hp with rfl | rfl
    · exact Or.inl rfl
    · exact Or.inr rfl
  unfold capital
  split
  · next hc =>
      have hlo : 0x61 ≤ c.toNat := hc.1
      have hhi : c.toNat ≤ 0x7A := hc.2
      have hn := toNat_ofNat_of_lt (n := c.toNat - 0x20) (by omega)
      constructor
      · intro h
        rw [h] at hn
        omega
      · rintro rfl
        omega
  · split
    · next hc =>
        constructor
        · rintro rfl
          exact absurd hp' (by decide)
        · rintro rfl
          omega
    · split
      · next hc =>
          constructor
          · rintro rfl
            exact absurd hp' (by decide)
          · rintro rfl
            omega
      · exact Iff.rfl

/-- A parenthesis is the capitals of itself alone. -/
theorem capitals_eq_parenthesis_iff {token : String} {p : Char} (hp : isParenthesis p = true) :
    capitals token = String.ofList [p] ↔ token = String.ofList [p] := by
  have hlist : capitals token = String.ofList [p] ↔ token.toList.map capital = [p] :=
    String.ofList_inj
  have htoken : token = String.ofList [p] ↔ token.toList = [p] := by
    rw [← String.ofList_inj, String.ofList_toList]
  rw [hlist, htoken]
  cases h : token.toList with
  | nil => simp
  | cons c rest => simp [capital_eq_parenthesis_iff hp]

theorem capitals_eq_opening_iff {token : String} : capitals token = "(" ↔ token = "(" :=
  capitals_eq_parenthesis_iff (p := '(') rfl

theorem capitals_eq_closing_iff {token : String} : capitals token = ")" ↔ token = ")" :=
  capitals_eq_parenthesis_iff (p := ')') rfl

/-! ## Kinds of tokens -/

/-- A word spells a keyword exactly when its capitals do. -/
theorem Keyword.ofWord?_eq_some_iff {word : String} {k : Keyword} :
    Keyword.ofWord? word = some k ↔ capitals word = k.spelling := by
  have hlist : capitals word = k.spelling ↔ word.toList.map capital = k.spelling.toList := by
    rw [← String.ofList_inj, String.ofList_toList, capitals]
  rw [hlist, Keyword.ofWord?]
  rcases k with _ | _ | _ | ⟨_ | _⟩ <;> split <;> simp_all [Keyword.spelling, Operator.name]

/-- No keyword is spelled like a parenthesis. -/
theorem Keyword.spelling_ne_parenthesis (k : Keyword) : k.spelling ≠ "(" ∧ k.spelling ≠ ")" := by
  rcases k with _ | _ | _ | ⟨_ | _⟩ <;> decide

theorem ne_parenthesis_of_keyword {token : String} {k : Keyword}
    (h : capitals token = k.spelling) : token ≠ "(" ∧ token ≠ ")" :=
  ⟨fun ho => k.spelling_ne_parenthesis.1 (h.symm.trans (capitals_eq_opening_iff.2 ho)),
    fun hc => k.spelling_ne_parenthesis.2 (h.symm.trans (capitals_eq_closing_iff.2 hc))⟩

/-- No token that is free for a name is a parenthesis. -/
theorem ne_parenthesis_of_free {token : String} {reserved : List String}
    (hreserved : ["(", ")"] ⊆ reserved) (h : capitals token ∉ reserved) :
    token ≠ "(" ∧ token ≠ ")" := by
  refine ⟨?_, ?_⟩
  · rintro rfl
    exact h (hreserved (by decide))
  · rintro rfl
    exact h (hreserved (by decide))

namespace TokenKind

/-- A token that is no parenthesis is a keyword or a name. -/
theorem ofToken_word {token : String} (ho : token ≠ "(") (hc : token ≠ ")") :
    ofToken token = match Keyword.ofWord? token with
      | some k => .keyword k
      | none => .name := by
  unfold ofToken
  split
  · next h => exact absurd (String.toList_inj.1 h) ho
  · next h => exact absurd (String.toList_inj.1 h) hc
  · rfl

theorem ofToken_eq_opening_iff {token : String} : ofToken token = .opening ↔ token = "(" := by
  constructor
  · intro h
    unfold ofToken at h
    split at h
    · next hl => exact String.toList_inj.1 hl
    · exact absurd h (by simp)
    · split at h <;> exact absurd h (by simp)
  · rintro rfl
    rfl

theorem ofToken_eq_closing_iff {token : String} : ofToken token = .closing ↔ token = ")" := by
  constructor
  · intro h
    unfold ofToken at h
    split at h
    · exact absurd h (by simp)
    · next hl => exact String.toList_inj.1 hl
    · split at h <;> exact absurd h (by simp)
  · rintro rfl
    rfl

theorem ofToken_eq_keyword_iff {token : String} {k : Keyword} :
    ofToken token = .keyword k ↔ capitals token = k.spelling := by
  have hk := k.spelling_ne_parenthesis
  by_cases ho : token = "("
  · rw [ofToken_eq_opening_iff.2 ho, capitals_eq_opening_iff.2 ho]
    simp [hk.1.symm]
  · by_cases hc : token = ")"
    · rw [ofToken_eq_closing_iff.2 hc, capitals_eq_closing_iff.2 hc]
      simp [hk.2.symm]
    · rw [ofToken_word ho hc, ← Keyword.ofWord?_eq_some_iff]
      cases Keyword.ofWord? token <;> simp

/-- A name is a token whose capitals are reserved for nothing. -/
theorem ofToken_eq_name_iff {token : String} :
    ofToken token = .name ↔ capitals token ∉ subjectReserved := by
  have hkey (k : Keyword) : ofToken token = .keyword k ↔ capitals token = k.spelling :=
    ofToken_eq_keyword_iff
  have hopen : ofToken token = .opening ↔ capitals token = "(" :=
    ofToken_eq_opening_iff.trans capitals_eq_opening_iff.symm
  have hclose : ofToken token = .closing ↔ capitals token = ")" :=
    ofToken_eq_closing_iff.trans capitals_eq_closing_iff.symm
  constructor
  · intro h hmem
    simp only [subjectReserved, List.mem_cons, List.not_mem_nil, or_false] at hmem
    rcases hmem with hm | hm | hm | hm | hm | hm | hm
    · simpa [h] using (hkey .ifWord).2 hm
    · simpa [h] using (hkey .isWord).2 hm
    · simpa [h] using (hkey .thenWord).2 hm
    · simpa [h] using (hkey (.operator .and)).2 hm
    · simpa [h] using (hkey (.operator .or)).2 hm
    · simpa [h] using hopen.2 hm
    · simpa [h] using hclose.2 hm
  · intro h
    cases hkind : ofToken token with
    | name => rfl
    | opening => exact absurd (by simp [hopen.1 hkind, subjectReserved]) h
    | closing => exact absurd (by simp [hclose.1 hkind, subjectReserved]) h
    | keyword k =>
      refine absurd ?_ h
      rw [(hkey k).1 hkind]
      rcases k with _ | _ | _ | ⟨_ | _⟩ <;> decide

/-- What is free for a label is a name or one of the words IF and IS. -/
theorem not_mem_labelReserved_iff {token : String} :
    capitals token ∉ labelReserved ↔
      ofToken token = .name ∨ ofToken token = .keyword .ifWord
        ∨ ofToken token = .keyword .isWord := by
  rw [ofToken_eq_name_iff, ofToken_eq_keyword_iff, ofToken_eq_keyword_iff]
  simp only [subjectReserved, labelReserved, Keyword.spelling, List.mem_cons, List.not_mem_nil,
    or_false]
  constructor
  · intro h
    by_cases hif : capitals token = "IF"
    · exact Or.inr (Or.inl hif)
    · by_cases his : capitals token = "IS"
      · exact Or.inr (Or.inr his)
      · exact Or.inl fun hm => hm.elim hif fun hm => hm.elim his h
  · rintro (h | h | h)
    · exact fun hm => h (Or.inr (Or.inr hm))
    · simp [h]
    · simp [h]

end TokenKind

end FuzzyLogic.Rule
