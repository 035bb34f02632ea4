import FuzzyLogic.Proofs.Rule.Tokenize

set_option autoImplicit false

/-! # Where the tokens of a text stand

A token is a piece of the text at a certain place: a parenthesis, or a run of characters of words
that cannot be made longer at either end. The scanner finds all of these pieces in the order of the
text, and that says all about its result, since a piece knows its place. In the middle of the text
the scanner holds the beginning of a word; so the induction is about what stands from the beginning
of this word on. -/

namespace FuzzyLogic.Rule

/-! ## Pieces -/

/-- A piece of a text, with what stands in front of it and behind it. -/
@[ext] structure Piece where
  front : List Char
  token : List Char
  behind : List Char

/-- No character of words stands at the end. -/
def EndsOutside (front : List Char) : Prop :=
  ∀ c ∈ front.getLast?, ¬ IsInner c

/-- No character of words stands at the beginning. -/
def BeginsOutside (behind : List Char) : Prop :=
  ∀ c ∈ behind.head?, ¬ IsInner c

namespace Piece

/-- The text that the piece is a piece of. -/
def whole (o : Piece) : List Char :=
  o.front ++ o.token ++ o.behind

/-- The piece is a single parenthesis. -/
def IsSingle (o : Piece) : Prop :=
  ∃ p, isParenthesis p = true ∧ o.token = [p]

/-- The piece is a run of characters of words, and no character of words is next to it. -/
structure IsRun (o : Piece) : Prop where
  ne_nil : o.token ≠ []
  inner : ∀ c ∈ o.token, IsInner c
  front : EndsOutside o.front
  behind : BeginsOutside o.behind

/-- The piece is a token. -/
def IsToken (o : Piece) : Prop :=
  o.IsSingle ∨ o.IsRun

/-- The one piece ends before the other begins. -/
def Precedes (o p : Piece) : Prop :=
  o.front.length + o.token.length ≤ p.front.length

/-! ## How a token begins -/

variable {o : Piece} {front word behind rest text : List Char} {c : Char}

theorem IsToken.ne_nil (h : o.IsToken) : o.token ≠ [] := by
  obtain ⟨p, -, heq⟩ | hrun := h
  · simp [heq]
  · exact hrun.ne_nil

theorem IsToken.not_isBlank (h : o.IsToken) (hc : o.token.head? = some c) :
    Text.isBlank c = false := by
  obtain ⟨p, hp, heq⟩ | hrun := h
  · rw [heq, List.head?_cons] at hc
    obtain rfl := Option.some.inj hc
    simp only [isParenthesis, Bool.or_eq_true, beq_iff_eq] at hp
    obtain rfl | rfl := hp <;> rfl
  · exact (hrun.inner c (List.mem_of_mem_head? hc)).1

/-- A token that begins with a character of words is a run. -/
theorem IsToken.isRun (h : o.IsToken) (hc : o.token.head? = some c) (hinner : IsInner c) :
    o.IsRun := by
  obtain ⟨p, hp, heq⟩ | hrun := h
  · rw [heq, List.head?_cons] at hc
    obtain rfl := Option.some.inj hc
    exact absurd hp (by simp [hinner.2])
  · exact hrun

/-- A token that begins with a parenthesis is this parenthesis. -/
theorem IsToken.eq_singleton (h : o.IsToken) (hc : o.token.head? = some c)
    (hparenthesis : isParenthesis c = true) : o.token = [c] := by
  obtain ⟨p, -, heq⟩ | hrun := h
  · rw [heq, List.head?_cons] at hc
    rw [heq, Option.some.inj hc]
  · have hinner := hrun.inner c (List.mem_of_mem_head? hc)
    exact absurd hparenthesis (by simp [hinner.2])

/-- A token begins with what stands at its place. -/
theorem IsToken.head?_eq (h : o.IsToken) (heq : o.token ++ o.behind = c :: rest) :
    o.token.head? = some c := by
  obtain ⟨d, token, htoken⟩ := List.exists_cons_of_ne_nil h.ne_nil
  rw [htoken, List.cons_append] at heq
  rw [htoken, List.head?_cons, (List.cons.inj heq).1]

/-- What a token at a place begins with. -/
theorem IsToken.at_place (h : o.IsToken) (hwhole : o.whole = front ++ c :: rest)
    (hlength : o.front.length = front.length) :
    o.front = front ∧ o.token.head? = some c ∧ o.token ++ o.behind = c :: rest := by
  rw [whole, List.append_assoc] at hwhole
  obtain ⟨hfront, hrest⟩ := List.append_inj hwhole hlength
  exact ⟨hfront, h.head?_eq hrest, hrest⟩

/-! ## Words -/

/-- How far a run of characters of words goes is fixed by what it stands in. -/
theorem run_unique {word' behind' : List Char} (h : word ++ behind = word' ++ behind')
    (hword : ∀ c ∈ word, IsInner c) (hword' : ∀ c ∈ word', IsInner c)
    (hbehind : BeginsOutside behind) (hbehind' : BeginsOutside behind') :
    word = word' ∧ behind = behind' := by
  induction word generalizing word' with
  | nil =>
      cases word' with
      | nil => exact ⟨rfl, h⟩
      | cons c word' =>
          obtain rfl : behind = c :: word' ++ behind' := h
          exact absurd (hword' c List.mem_cons_self) (hbehind c rfl)
  | cons c word ih =>
      cases word' with
      | nil =>
          obtain rfl : c :: word ++ behind = behind' := h
          exact absurd (hword c List.mem_cons_self) (hbehind' c rfl)
      | cons d word' =>
          obtain ⟨rfl, hrest⟩ := List.cons.inj h
          obtain ⟨rfl, hbehind⟩ := ih hrest (List.forall_mem_cons.1 hword).2
            (List.forall_mem_cons.1 hword').2
          exact ⟨rfl, hbehind⟩

/-- Where a whole word stands, no token begins inside of it but the word itself. -/
theorem eq_word_of_isToken (h : o.IsToken) (hwhole : o.whole = front ++ word ++ behind)
    (hword : ∀ c ∈ word, IsInner c) (hbehind : BeginsOutside behind)
    (hfrom : front.length ≤ o.front.length)
    (hin : o.front.length < front.length + word.length) : o = ⟨front, word, behind⟩ := by
  rw [whole, List.append_assoc, List.append_assoc] at hwhole
  -- In front of the token there are `front` and a part `x` of the word; `y` is the rest of it.
  obtain ⟨x, hx⟩ : front <+: o.front :=
    List.prefix_of_prefix_length_le ⟨_, hwhole.symm⟩ ⟨_, rfl⟩ hfrom
  rw [← hx, List.append_assoc] at hwhole
  replace hwhole := List.append_cancel_left hwhole
  rw [← hx, List.length_append, Nat.add_lt_add_iff_left] at hin
  obtain ⟨y, rfl⟩ : x <+: word :=
    List.prefix_of_prefix_length_le ⟨_, rfl⟩ ⟨_, hwhole.symm⟩ (Nat.le_of_lt hin)
  rw [List.append_assoc] at hwhole
  replace hwhole := List.append_cancel_left hwhole
  obtain ⟨c, y, rfl⟩ : ∃ c z, y = c :: z := by
    refine List.exists_cons_of_ne_nil fun hnil => ?_
    simp [hnil] at hin
  have hrun := h.isRun (h.head?_eq hwhole) (hword c (by simp))
  obtain rfl | ⟨x, d, rfl⟩ := List.eq_nil_or_concat x
  · have hfront : o.front = front := by simpa using hx.symm
    obtain ⟨htoken, hrest⟩ := run_unique hwhole hrun.inner hword hrun.behind hbehind
    exact Piece.ext hfront htoken hrest
  · -- A run does not begin behind a character of words.
    have hlast : o.front.getLast? = some d := by simp [← hx]
    exact absurd (hword d (by simp)) (hrun.front d hlast)

/-! ## Tokens from a place on -/

/-- The pieces are the tokens of the text from a place on, in the order of the text. -/
structure Tokens (text : List Char) (start : Nat) (pieces : List Piece) : Prop where
  mem_iff (o : Piece) : o ∈ pieces ↔ (o.whole = text ∧ o.IsToken) ∧ start ≤ o.front.length
  pairwise : pieces.Pairwise Precedes

variable {start stop : Nat} {first pieces : List Piece}

/-- Tokens up to a place and those from there on. -/
theorem Tokens.append (h : Tokens text stop pieces) (hle : start ≤ stop)
    (hfirst : ∀ o, (o.whole = text ∧ o.IsToken) ∧ start ≤ o.front.length ∧ o.front.length < stop ↔
      o ∈ first)
    (hends : ∀ o ∈ first, o.front.length + o.token.length ≤ stop)
    (hpairwise : first.Pairwise Precedes) : Tokens text start (first ++ pieces) where
  mem_iff o := by
    rw [List.mem_append, h.mem_iff, ← hfirst]
    by_cases hlt : o.front.length < stop
    · simp [hlt, Nat.not_le_of_lt hlt]
    · have hstop := Nat.le_of_not_lt hlt
      simp [hlt, hstop, Nat.le_trans hle hstop]
  pairwise := by
    refine List.pairwise_append.2 ⟨hpairwise, h.pairwise, fun o ho p hp => ?_⟩
    exact Nat.le_trans (hends o ho) ((h.mem_iff p).1 hp).2

/-- At the end of the text there are no more tokens. -/
theorem tokens_end (text : List Char) : Tokens text text.length [] where
  mem_iff o := by
    simp only [List.not_mem_nil, false_iff]
    rintro ⟨⟨rfl, h⟩, hfrom⟩
    have hpos := List.length_pos_iff.2 h.ne_nil
    simp only [whole, List.length_append] at hfrom
    omega
  pairwise := .nil

/-- The word that the scanner has read when it comes to its end, unless it is empty. -/
def closed (front word behind : List Char) : List Piece :=
  if word.isEmpty then [] else [⟨front, word.reverse, behind⟩]

theorem map_closed : (closed front word behind).map token = closeWord word := by
  unfold closed closeWord
  split <;> rfl

theorem mem_closed_iff :
    o ∈ closed front word behind ↔ word ≠ [] ∧ o = ⟨front, word.reverse, behind⟩ := by
  unfold closed
  cases word <;> simp

theorem Tokens.closed (h : Tokens text (front ++ word.reverse).length pieces)
    (htext : text = front ++ word.reverse ++ behind) (hfront : EndsOutside front)
    (hword : ∀ c ∈ word, IsInner c) (hbehind : BeginsOutside behind) :
    Tokens text front.length (closed front word behind ++ pieces) := by
  have hreverse : ∀ c ∈ word.reverse, IsInner c := fun c hc => hword c (List.mem_reverse.1 hc)
  refine h.append (by simp) (fun o => ?_) (fun o ho => ?_) ?_
  · rw [mem_closed_iff, List.length_append]
    constructor
    · rintro ⟨⟨hwhole, htoken⟩, hfrom, hlt⟩
      refine ⟨?_, eq_word_of_isToken htoken (hwhole.trans htext) hreverse hbehind hfrom hlt⟩
      rintro rfl
      exact absurd hfrom (Nat.not_le_of_lt hlt)
    · rintro ⟨hne, rfl⟩
      have hrun : IsRun ⟨front, word.reverse, behind⟩ :=
        ⟨by simpa using hne, hreverse, hfront, hbehind⟩
      exact ⟨⟨htext.symm, .inr hrun⟩, Nat.le_refl _,
        Nat.lt_add_of_pos_right (List.length_pos_iff.2 hrun.ne_nil)⟩
  · obtain ⟨-, rfl⟩ := mem_closed_iff.1 ho
    exact Nat.le_of_eq List.length_append.symm
  · unfold Piece.closed
    split <;> simp

/-- No token begins with a blank. -/
theorem Tokens.blank (h : Tokens text (front ++ [c]).length pieces)
    (htext : text = front ++ c :: rest) (hblank : Text.isBlank c = true) :
    Tokens text front.length pieces := by
  refine h.append (by simp) (fun o => ?_) (List.forall_mem_nil _) .nil
  simp only [List.not_mem_nil, iff_false, List.length_append, List.length_singleton]
  rintro ⟨⟨hwhole, htoken⟩, hfrom, hlt⟩
  have hlength : o.front.length = front.length := by omega
  obtain ⟨-, hhead, -⟩ := htoken.at_place (hwhole.trans htext) hlength
  rw [htoken.not_isBlank hhead] at hblank
  exact absurd hblank (by simp)

/-- Where a parenthesis stands, it is the token. -/
theorem Tokens.single (h : Tokens text (front ++ [c]).length pieces)
    (htext : text = front ++ c :: rest) (hparenthesis : isParenthesis c = true) :
    Tokens text front.length (⟨front, [c], rest⟩ :: pieces) := by
  show Tokens text front.length ([⟨front, [c], rest⟩] ++ pieces)
  refine h.append (by simp) (fun o => ?_) (by simp) (List.pairwise_singleton ..)
  rw [List.mem_singleton, List.length_append, List.length_singleton]
  constructor
  · rintro ⟨⟨hwhole, htoken⟩, hfrom, hlt⟩
    have hlength : o.front.length = front.length := by omega
    obtain ⟨hfront, hhead, hrest⟩ := htoken.at_place (hwhole.trans htext) hlength
    have heq := htoken.eq_singleton hhead hparenthesis
    rw [heq] at hrest
    exact Piece.ext hfront heq (List.cons.inj hrest).2
  · rintro rfl
    exact ⟨⟨by simp [whole, htext], .inl ⟨c, hparenthesis, rfl⟩⟩, Nat.le_refl _, Nat.lt_succ_self _⟩

/-! ## The scanner -/

theorem endsOutside_concat (h : ¬ IsInner c) : EndsOutside (front ++ [c]) := by
  intro d hd
  rw [List.getLast?_concat] at hd
  obtain rfl := Option.some.inj hd
  exact h

theorem beginsOutside_cons (h : ¬ IsInner c) : BeginsOutside (c :: rest) := by
  intro d hd
  obtain rfl := Option.some.inj hd
  exact h

/-- What the scanner finds in the rest of a text, behind `front` and the word that it is reading,
are the tokens from the beginning of this word on. -/
theorem exists_tokens_from (front word rest : List Char) (hfront : EndsOutside front)
    (hword : ∀ c ∈ word, IsInner c) :
    ∃ pieces, Tokens (front ++ word.reverse ++ rest) front.length pieces ∧
      pieces.map token = tokenizeFrom word rest := by
  induction rest generalizing front word with
  | nil =>
      refine ⟨closed front word [], ?_, map_closed⟩
      have hend := tokens_end (front ++ word.reverse ++ [])
      rw [List.append_nil] at hend ⊢
      simpa using hend.closed (List.append_nil _).symm hfront hword (fun c hc => by simp at hc)
  | cons c rest ih =>
      have hnext : front ++ word.reverse ++ [c] ++ rest = front ++ word.reverse ++ c :: rest := by
        simp
      rw [tokenizeFrom]
      split
      · next hblank =>
          have hc : ¬ IsInner c := fun hinner => by simp [hinner.1] at hblank
          obtain ⟨pieces, htokens, hmap⟩ :=
            ih (front ++ word.reverse ++ [c]) [] (endsOutside_concat hc) (by simp)
          rw [List.reverse_nil, List.append_nil, hnext] at htokens
          refine ⟨closed front word (c :: rest) ++ pieces, ?_, ?_⟩
          · exact (htokens.blank rfl hblank).closed rfl hfront hword (beginsOutside_cons hc)
          · rw [List.map_append, map_closed, hmap]
      · split
        · next hparenthesis =>
            have hc : ¬ IsInner c := fun hinner => by simp [hinner.2] at hparenthesis
            obtain ⟨pieces, htokens, hmap⟩ :=
              ih (front ++ word.reverse ++ [c]) [] (endsOutside_concat hc) (by simp)
            rw [List.reverse_nil, List.append_nil, hnext] at htokens
            refine ⟨closed front word (c :: rest) ++ ⟨front ++ word.reverse, [c], rest⟩ :: pieces,
              ?_, ?_⟩
            · exact (htokens.single rfl hparenthesis).closed rfl hfront hword
                (beginsOutside_cons hc)
            · rw [List.map_append, map_closed, List.map_cons, hmap]
        · next hblank hparenthesis =>
            have hc : IsInner c := ⟨by simpa using hblank, by simpa using hparenthesis⟩
            obtain ⟨pieces, htokens, hmap⟩ :=
              ih front (c :: word) hfront (List.forall_mem_cons.2 ⟨hc, hword⟩)
            rw [List.reverse_cons, ← List.append_assoc, hnext] at htokens
            exact ⟨pieces, htokens, hmap⟩

end Piece

/-! ## Spaces around parentheses -/

/-- The text with a space on both sides of each character `p`. -/
def spaced (p : Char) (cs : List Char) : List Char :=
  cs.flatMap fun c => if c == p then [' ', p, ' '] else [c]

/-- What stands between blanks. -/
def blankSeparated (cs : List Char) : List (List Char) :=
  (cs.splitOnP Text.isBlank).filter fun word => !word.isEmpty

theorem spaced_spaced (cs : List Char) :
    spaced ')' (spaced '(' cs)
      = cs.flatMap fun c => if isParenthesis c then [' ', c, ' '] else [c] := by
  rw [spaced, spaced, List.flatMap_assoc]
  congr 1
  funext c
  by_cases ho : c = '('
  · simp [ho, isParenthesis]
  · by_cases hc : c = ')'
    · simp [hc, isParenthesis]
    · simp [ho, hc, isParenthesis]

/-- A blank ends the word before it. -/
theorem blankSeparated_append_cons {word rest : List Char} {c : Char}
    (hword : ∀ d ∈ word, Text.isBlank d = false) (hc : Text.isBlank c = true) :
    blankSeparated (word.reverse ++ c :: rest) = closeWord word ++ blankSeparated rest := by
  have hreverse : ∀ d ∈ word.reverse, Text.isBlank d = false := fun d hd =>
    hword d (List.mem_reverse.1 hd)
  rw [blankSeparated, List.splitOnP_append_cons_of_forall_mem hreverse c hc, closeWord]
  cases word <;> simp [blankSeparated]

theorem blankSeparated_reverse {word : List Char} (hword : ∀ d ∈ word, Text.isBlank d = false) :
    blankSeparated word.reverse = closeWord word := by
  have hreverse : ∀ d ∈ word.reverse, Text.isBlank d = false := fun d hd =>
    hword d (List.mem_reverse.1 hd)
  rw [blankSeparated, List.splitOnP_eq_singleton hreverse, closeWord]
  cases word <;> simp

theorem not_isBlank_of_isParenthesis {c : Char} (h : isParenthesis c = true) :
    Text.isBlank c = false := by
  simp only [isParenthesis, Bool.or_eq_true, beq_iff_eq] at h
  obtain rfl | rfl := h <;> rfl

/-- The scanner ends its words where the text with spaces around its parentheses does. -/
theorem blankSeparated_spaced (word cs : List Char)
    (hword : ∀ d ∈ word, Text.isBlank d = false) :
    blankSeparated (word.reverse ++ spaced ')' (spaced '(' cs)) = tokenizeFrom word cs := by
  rw [spaced_spaced]
  induction cs generalizing word with
  | nil => rw [List.flatMap_nil, List.append_nil, blankSeparated_reverse hword, tokenizeFrom]
  | cons c rest ih =>
      have hrest := ih [] (by simp)
      rw [List.flatMap_cons, tokenizeFrom]
      cases hblank : Text.isBlank c with
      | true =>
          have hparenthesis : isParenthesis c = false := by
            cases hp : isParenthesis c with
            | false => rfl
            | true => exact absurd (not_isBlank_of_isParenthesis hp) (by simp [hblank])
          rw [if_neg (by simp [hparenthesis]), if_pos rfl, List.singleton_append,
            blankSeparated_append_cons hword hblank]
          exact congrArg _ hrest
      | false =>
          cases hparenthesis : isParenthesis c with
          | true =>
              have hletter : ∀ d ∈ [c], Text.isBlank d = false := by simpa using hblank
              have hsingle (more : List Char) :
                  blankSeparated (c :: ' ' :: more) = [c] :: blankSeparated more :=
                blankSeparated_append_cons hletter rfl
              rw [if_pos rfl, if_neg (by simp), if_pos rfl, List.cons_append,
                blankSeparated_append_cons hword rfl]
              exact congrArg _ ((hsingle _).trans (congrArg _ hrest))
          | false =>
              have hcons := ih (c :: word) (List.forall_mem_cons.2 ⟨hblank, hword⟩)
              rw [List.reverse_cons, List.append_assoc] at hcons
              rw [if_neg (by simp), if_neg (by simp), if_neg (by simp)]
              exact hcons

/-- The tokens of a text are what stands between blanks in the text with spaces around its
parentheses. -/
theorem tokenize_eq_blankSeparated (text : String) :
    tokenize text = (blankSeparated (spaced ')' (spaced '(' text.toList))).map String.ofList := by
  rw [tokenize, ← blankSeparated_spaced [] text.toList (by simp), List.reverse_nil, List.nil_append]

/-! ## The tokens of a text -/

/-- A token is read back as itself. -/
theorem tokenize_of_mem {text token : String} (h : token ∈ tokenize text) :
    tokenize token = [token] := by
  by_cases ho : token = "("
  · rw [ho]
    rfl
  · by_cases hc : token = ")"
    · rw [hc]
      rfl
    · exact (isWord_of_mem_tokenize h ho hc).tokenize_eq

/-- **The tokens of a text are its parentheses and its longest runs of other characters that are no
blanks.** They are all of these pieces in the order of the text, with nothing but blanks between
them, and they are what stands between blanks once there are spaces around the parentheses. So
tokens that are joined by spaces are the same tokens again, and two texts with a space between them
have the tokens of the one and then those of the other. -/
theorem tokenize_eq_pieces :
    (∀ text : String,
      tokenize text = (blankSeparated (spaced ')' (spaced '(' text.toList))).map String.ofList ∧
      (∃ pieces : List Piece, (∀ o, o ∈ pieces ↔ o.whole = text.toList ∧ o.IsToken) ∧
        pieces.Pairwise Piece.Precedes ∧
        tokenize text = pieces.map fun o => String.ofList o.token) ∧
      ((tokenize text).map String.toList).flatten
        = text.toList.filter (fun c => !Text.isBlank c) ∧
      tokenize (" ".intercalate (tokenize text)) = tokenize text) ∧
    ∀ s t : String, tokenize (s ++ " " ++ t) = tokenize s ++ tokenize t := by
  refine ⟨fun text => ⟨tokenize_eq_blankSeparated text, ?_, flatten_tokenize text, ?_⟩,
    tokenize_append_space⟩
  · obtain ⟨pieces, htokens, hmap⟩ :=
      Piece.exists_tokens_from [] [] text.toList (by simp [EndsOutside]) (by simp)
    refine ⟨pieces, fun o => (htokens.mem_iff o).trans (and_iff_left (Nat.zero_le _)),
      htokens.pairwise, ?_⟩
    rw [tokenize, ← hmap, List.map_map]
    rfl
  · exact tokenize_intercalate_tokens fun token => tokenize_of_mem

/-- A run ends at a parenthesis and at every kind of blank. -/
example : tokenize "IF(A isB )then" = ["IF", "(", "A", "is", "B", ")", "then"] := by
  decide +kernel

end FuzzyLogic.Rule
