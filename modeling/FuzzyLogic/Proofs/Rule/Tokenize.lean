import FuzzyLogic.Rule.Token

set_option autoImplicit false

/-! # Tokens of joined texts

A blank or a parenthesis ends the word before it and begins none. So the tokens of two texts with a
space between them are the tokens of the one followed by those of the other, and with a parenthesis
between them it stands between these. Words, which have neither in them, are the tokens that are no
parentheses. -/

namespace FuzzyLogic.Rule

/-- What follows a character that ends words is split on its own. -/
theorem tokenizeFrom_append_cons {c : Char} (hc : Text.isBlank c = true ∨ isParenthesis c = true)
    (word cs ds : List Char) :
    tokenizeFrom word (cs ++ c :: ds) = tokenizeFrom word cs ++ tokenizeFrom [] (c :: ds) := by
  induction cs generalizing word with
  | nil =>
      cases hblank : Text.isBlank c with
      | true => simp [tokenizeFrom, hblank, closeWord]
      | false =>
          have hparenthesis : isParenthesis c = true := hc.resolve_left (by simp [hblank])
          simp [tokenizeFrom, hblank, hparenthesis, closeWord]
  | cons d rest ih =>
      rw [List.cons_append, tokenizeFrom, tokenizeFrom]
      split
      · rw [ih, List.append_assoc]
      · split
        · rw [ih, List.append_assoc, List.cons_append]
        · exact ih (d :: word)

theorem tokenizeFrom_append_blank {c : Char} (hc : Text.isBlank c = true)
    (word cs ds : List Char) :
    tokenizeFrom word (cs ++ c :: ds) = tokenizeFrom word cs ++ tokenizeFrom [] ds := by
  rw [tokenizeFrom_append_cons (.inl hc)]
  simp [tokenizeFrom, hc, closeWord]

theorem tokenize_append_space (s t : String) :
    tokenize (s ++ " " ++ t) = tokenize s ++ tokenize t := by
  have hchars : (s ++ " " ++ t).toList = s.toList ++ ' ' :: t.toList := by simp
  rw [tokenize, hchars, tokenizeFrom_append_blank rfl, List.map_append]
  rfl

theorem tokenize_append_parenthesis {p : String} (hp : p = "(" ∨ p = ")") (s t : String) :
    tokenize (s ++ p ++ t) = tokenize s ++ p :: tokenize t := by
  obtain rfl | rfl := hp
  · have hchars : (s ++ "(" ++ t).toList = s.toList ++ '(' :: t.toList := by simp
    rw [tokenize, hchars, tokenizeFrom_append_cons (.inr rfl), List.map_append]
    rfl
  · have hchars : (s ++ ")" ++ t).toList = s.toList ++ ')' :: t.toList := by simp
    rw [tokenize, hchars, tokenizeFrom_append_cons (.inr rfl), List.map_append]
    rfl

/-- Words that are joined by spaces have the tokens of each in turn. -/
theorem tokenize_intercalate (words : List String) :
    tokenize (" ".intercalate words) = words.flatMap tokenize := by
  induction words with
  | nil => rfl
  | cons word rest ih =>
      cases rest with
      | nil => simp
      | cons next rest =>
          rw [String.intercalate_cons_cons, tokenize_append_space, ih]
          rfl

/-- Tokens that are joined by spaces are read back. -/
theorem tokenize_intercalate_tokens {tokens : List String} (h : ∀ t ∈ tokens, tokenize t = [t]) :
    tokenize (" ".intercalate tokens) = tokens := by
  rw [tokenize_intercalate]
  induction tokens with
  | nil => rfl
  | cons t rest ih =>
      obtain ⟨ht, hrest⟩ := List.forall_mem_cons.1 h
      rw [List.flatMap_cons, ht, ih hrest, List.singleton_append]

/-! ## Words -/

/-- The character ends no word. -/
def IsInner (c : Char) : Prop :=
  Text.isBlank c = false ∧ isParenthesis c = false

theorem forall_isInner {cs : List Char}
    (h : (cs.all fun c => !Text.isBlank c && !isParenthesis c) = true) : ∀ c ∈ cs, IsInner c := by
  intro c hc
  have hboth := List.all_eq_true.1 h c hc
  simp only [Bool.and_eq_true, Bool.not_eq_true'] at hboth
  exact hboth

/-- A text that is one token and no parenthesis. -/
structure IsWord (word : String) : Prop where
  ne_empty : word ≠ ""
  inner : ∀ c ∈ word.toList, IsInner c

theorem IsWord.ne_parenthesis {word : String} (h : IsWord word) : word ≠ "(" ∧ word ≠ ")" := by
  constructor
  · rintro rfl
    exact absurd (h.inner '(' (by decide)).2 (by decide)
  · rintro rfl
    exact absurd (h.inner ')' (by decide)).2 (by decide)

theorem IsWord.append {word ending : String} (h : IsWord word)
    (hending : ∀ c ∈ ending.toList, IsInner c) : IsWord (word ++ ending) where
  ne_empty := by
    intro hempty
    exact h.ne_empty (String.append_eq_empty_iff.1 hempty).1
  inner := by
    intro c hc
    rw [String.toList_append] at hc
    exact (List.mem_append.1 hc).elim (h.inner c) (hending c)

theorem tokenizeFrom_of_inner {word cs : List Char} (h : ∀ c ∈ cs, IsInner c) :
    tokenizeFrom word cs = closeWord (cs.reverse ++ word) := by
  induction cs generalizing word with
  | nil => rfl
  | cons c rest ih =>
      obtain ⟨⟨hblank, hparenthesis⟩, hrest⟩ := List.forall_mem_cons.1 h
      rw [tokenizeFrom, hblank, hparenthesis, if_neg (by simp), if_neg (by simp), ih hrest]
      simp

theorem IsWord.tokenize_eq {word : String} (h : IsWord word) : tokenize word = [word] := by
  have hne : word.toList ≠ [] := fun hnil => h.ne_empty (String.toList_eq_nil_iff.1 hnil)
  rw [tokenize, tokenizeFrom_of_inner h.inner, List.append_nil, closeWord]
  simp [hne]

theorem mem_closeWord {word token : List Char} (hword : ∀ c ∈ word, IsInner c)
    (h : token ∈ closeWord word) : token ≠ [] ∧ ∀ c ∈ token, IsInner c := by
  cases word with
  | nil => exact absurd h List.not_mem_nil
  | cons c rest =>
      obtain rfl := List.mem_singleton.1 h
      exact ⟨by simp, fun d hd => hword d (List.mem_reverse.1 hd)⟩

theorem mem_tokenizeFrom {word cs token : List Char} (hword : ∀ c ∈ word, IsInner c)
    (h : token ∈ tokenizeFrom word cs) :
    token = ['('] ∨ token = [')'] ∨ token ≠ [] ∧ ∀ c ∈ token, IsInner c := by
  have hnil : ∀ c ∈ ([] : List Char), IsInner c := by simp
  induction cs generalizing word with
  | nil => exact .inr (.inr (mem_closeWord hword h))
  | cons c rest ih =>
      rw [tokenizeFrom] at h
      split at h
      · rcases List.mem_append.1 h with hmem | hmem
        · exact .inr (.inr (mem_closeWord hword hmem))
        · exact ih hnil hmem
      · next hblank =>
          split at h
          · next hparenthesis =>
              rcases List.mem_append.1 h with hmem | hmem
              · exact .inr (.inr (mem_closeWord hword hmem))
              · rcases List.mem_cons.1 hmem with rfl | hmem
                · simp only [isParenthesis, Bool.or_eq_true, beq_iff_eq] at hparenthesis
                  rcases hparenthesis with rfl | rfl
                  · exact .inl rfl
                  · exact .inr (.inl rfl)
                · exact ih hnil hmem
          · next hparenthesis =>
              have hc : IsInner c := ⟨by simpa using hblank, by simpa using hparenthesis⟩
              exact ih (List.forall_mem_cons.2 ⟨hc, hword⟩) h

/-- The tokens of a text are parentheses and words. -/
theorem isWord_of_mem_tokenize {text token : String} (h : token ∈ tokenize text)
    (ho : token ≠ "(") (hc : token ≠ ")") : IsWord token := by
  obtain ⟨chars, hchars, rfl⟩ := List.mem_map.1 h
  rcases mem_tokenizeFrom (by simp) hchars with rfl | rfl | ⟨hne, hinner⟩
  · exact absurd rfl ho
  · exact absurd rfl hc
  · refine ⟨fun hempty => hne ?_, fun c hmem => hinner c (by simpa using hmem)⟩
    simpa using congrArg String.toList hempty

end FuzzyLogic.Rule
