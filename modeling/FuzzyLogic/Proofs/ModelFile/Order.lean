import FuzzyLogic.Proofs.ModelFile.Effect

set_option autoImplicit false

/-! # The order of directives

Directives of one kind have an order: variables, labels and rules are numbered and listed by it, and
the last choice of an operator counts. Between directives of different kinds the order does not
matter, but for one thing: a label comes after its variable. To see this, the directives of the
first pass are sorted by kind. Taking them in sorted leads to the same model, and the sorted list is
the same for all admissible orders. -/

namespace FuzzyLogic.ModelFile

/-! ## Exchanging two directives -/

/-- Where `inv` holds, the two directives can be taken in in either order. -/
def Exchange (inv : Model Float → Prop) (a b : Directive) : Prop :=
  ∀ m t, inv m →
    ((∃ u, takeIn m a = .ok u ∧ takeIn u b = .ok t) ↔
      ∃ u, takeIn m b = .ok u ∧ takeIn u a = .ok t)

theorem exchange_of_builds {a b : Directive} (ha : ¬ a.Builds) (hb : b.Builds) :
    Exchange (fun _ => True) a b := by
  intro m t _
  simp only [takeIn_eq_ok_iff_operatorChange ha]
  constructor
  · rintro ⟨_, ⟨f, hf, rfl⟩, ht⟩
    rw [takeIn_operatorsOnly (operatorsOnly_of_operatorChange hf) hb, map_eq_ok_iff] at ht
    obtain ⟨u, hu, rfl⟩ := ht
    exact ⟨u, hu, f, hf, rfl⟩
  · rintro ⟨u, hu, f, hf, rfl⟩
    refine ⟨f m, ⟨f, hf, rfl⟩, ?_⟩
    rw [takeIn_operatorsOnly (operatorsOnly_of_operatorChange hf) hb, hu, Except.map]

theorem exchange_chooseConorm {conorm : String} {b : Directive} (hb : b.kind = .norm) :
    Exchange (fun _ => True) (.chooseConorm conorm) b := by
  intro m t _
  obtain ⟨norm, rfl⟩ : ∃ norm, b = .chooseNorm norm := by
    cases b <;> simp_all [Directive.kind]
  simp only [takeIn_chooseNorm_eq_ok_iff, takeIn_chooseConorm_eq_ok_iff]
  constructor
  · rintro ⟨_, ⟨c, hc, rfl⟩, n, hn, rfl⟩
    exact ⟨_, ⟨n, hn, rfl⟩, c, hc, Model.withNorm_withConorm n c⟩
  · rintro ⟨_, ⟨n, hn, rfl⟩, c, hc, rfl⟩
    exact ⟨_, ⟨c, hc, rfl⟩, n, hn, (Model.withNorm_withConorm n c).symm⟩

/-- A label of a variable that exists comes before or after another variable. -/
theorem exchange_makeLabel {owner label shape : String} {params : List String} {b : Directive}
    (hb : b.kind = .variable) :
    Exchange (fun m => m.Grounded ∧ m.database.contains owner = true)
      (.makeLabel owner label shape params) b := by
  intro m t ⟨hm, howner⟩
  obtain ⟨name, lower, upper, rfl⟩ : ∃ name lower upper, b = .makeVariable name lower upper := by
    cases b <;> simp_all [Directive.kind]
  simp only [takeIn_makeLabel_eq_ok_iff, takeIn_makeVariable_eq_ok_iff]
  -- The owner exists already, so the new variable has another name and does not hide it.
  have hsame {u : Model Float} (hu : m.addVariable name lower upper = .ok u) :
      u.database.get? owner = m.database.get? owner := by
    obtain ⟨v, -, hname, rfl⟩ := Model.addVariable_eq_ok_iff.1 hu
    have hne : owner ≠ name := by
      rintro rfl
      rw [howner] at hname
      exact absurd hname (by decide)
    rw [Registry.get?_insert, if_neg hne]
  constructor
  · rintro ⟨u, ⟨ref, function, href, hfunction, hlabel⟩, hvariable⟩
    obtain ⟨w, hw, ht⟩ :=
      (Model.addLabel_addVariable_iff (hm owner ref href)).1 ⟨u, hlabel, hvariable⟩
    exact ⟨w, hw, ref, function, (hsame hw).trans href, hfunction, ht⟩
  · rintro ⟨u, hvariable, ref, function, href, hfunction, hlabel⟩
    rw [hsame hvariable] at href
    obtain ⟨w, hw, ht⟩ :=
      (Model.addLabel_addVariable_iff (hm owner ref href)).2 ⟨u, hvariable, hlabel⟩
    exact ⟨w, ⟨ref, function, href, hfunction, hw⟩, ht⟩

/-- What can be exchanged with each of the directives can be moved behind them. -/
theorem takeAll_move {inv : Model Float → Prop} {a : Directive} {passed rest : List Directive}
    (hinv : ∀ b ∈ passed, ∀ m u, inv m → takeIn m b = .ok u → inv u)
    (hexchange : ∀ b ∈ passed, Exchange inv a b) {m t : Model Float} (hm : inv m) :
    takeAll m (a :: (passed ++ rest)) = .ok t ↔ takeAll m (passed ++ a :: rest) = .ok t := by
  induction passed generalizing m with
  | nil => rfl
  | cons b passed ih =>
      rw [List.forall_mem_cons] at hinv hexchange
      -- Two directives lead to a model in the middle, and the rest starts from there.
      have hpair (x y : Directive) (l : List Directive) :
          takeAll m (x :: y :: l) = .ok t ↔
            ∃ v, (∃ u, takeIn m x = .ok u ∧ takeIn u y = .ok v) ∧ takeAll v l = .ok t := by
        simp only [takeAll_cons_eq_ok_iff]
        constructor
        · rintro ⟨u, hu, v, hv, ht⟩
          exact ⟨v, ⟨u, hu, hv⟩, ht⟩
        · rintro ⟨v, ⟨u, hu, hv⟩, ht⟩
          exact ⟨u, hu, v, hv, ht⟩
      calc takeAll m (a :: b :: (passed ++ rest)) = .ok t
          ↔ takeAll m (b :: a :: (passed ++ rest)) = .ok t := by
            rw [hpair, hpair]
            exact exists_congr fun v => and_congr_left fun _ => hexchange.1 m v hm
        _ ↔ takeAll m (b :: (passed ++ a :: rest)) = .ok t := by
            rw [takeAll_cons_eq_ok_iff, takeAll_cons_eq_ok_iff]
            exact exists_congr fun u => and_congr_right fun hu =>
              ih hinv.2 hexchange.2 (hinv.1 m u hm hu)

/-! ## Sorting -/

/-- The directives of the first pass, sorted by kind. -/
def sorted (directives : List Directive) : List Directive :=
  ofKind .variable directives ++ (ofKind .label directives ++
    (ofKind .norm directives ++ ofKind .conorm directives))

/-- Every label is preceded by its variable, or the variable is there already. -/
def LabelsFollow (m : Model Float) (directives : List Directive) : Prop :=
  ∀ before owner label shape params after,
    directives = before ++ .makeLabel owner label shape params :: after →
      m.database.contains owner = true ∨ ∃ lower upper, .makeVariable owner lower upper ∈ before

theorem LabelsFollow.contains {m : Model Float} {owner label shape : String}
    {params : List String} {rest : List Directive}
    (h : LabelsFollow m (.makeLabel owner label shape params :: rest)) :
    m.database.contains owner = true := by
  simpa using h [] owner label shape params rest rfl

theorem LabelsFollow.tail {m u : Model Float} {directive : Directive} {rest : List Directive}
    (h : LabelsFollow m (directive :: rest)) (hu : takeIn m directive = .ok u) :
    LabelsFollow u rest := by
  intro before owner label shape params after hrest
  rw [contains_of_takeIn hu]
  obtain hm | ⟨lower, upper, hmem⟩ :=
    h (directive :: before) owner label shape params after (by rw [hrest, List.cons_append])
  · exact .inl (.inl hm)
  · obtain heq | hmem := List.mem_cons.1 hmem
    · exact .inl (.inr ⟨lower, upper, heq.symm⟩)
    · exact .inr ⟨lower, upper, hmem⟩

/-- What is taken in has its labels behind their variables. -/
theorem labelsFollow_of_takeAll {m t : Model Float} {directives : List Directive}
    (h : takeAll m directives = .ok t) : LabelsFollow m directives := by
  induction directives generalizing m with
  | nil =>
      intro before owner label shape params after hnil
      exact absurd hnil (by simp)
  | cons directive rest ih =>
      obtain ⟨u, hu, hrest⟩ := takeAll_cons_eq_ok_iff.1 h
      intro before owner label shape params after heq
      cases before with
      | nil =>
          obtain ⟨rfl, rfl⟩ := List.cons.inj heq
          obtain ⟨ref, function, href, -⟩ := takeIn_makeLabel_eq_ok_iff.1 hu
          exact .inl (Option.isSome_iff_exists.2 ⟨ref, href⟩)
      | cons b before =>
          obtain ⟨rfl, hrest'⟩ := List.cons.inj heq
          obtain hcontains | ⟨lower, upper, hmem⟩ := ih hrest _ _ _ _ _ _ hrest'
          · obtain hm | ⟨lower, upper, rfl⟩ := (contains_of_takeIn hu owner).1 hcontains
            · exact .inl hm
            · exact .inr ⟨lower, upper, List.mem_cons_self⟩
          · exact .inr ⟨lower, upper, List.mem_cons_of_mem _ hmem⟩

theorem kind_of_mem_ofKind {k : Kind} {directives : List Directive} {b : Directive}
    (h : b ∈ ofKind k directives) : b.kind = k := by
  simpa using (List.mem_filter.1 h).2

/-- The first directive can be taken in at its place in the sorted list. -/
theorem takeAll_cons_sorted {m t : Model Float} {directive : Directive} {rest : List Directive}
    (hm : m.Grounded) (h : LabelsFollow m (directive :: rest)) :
    takeAll m (directive :: sorted rest) = .ok t ↔
      takeAll m (sorted (directive :: rest)) = .ok t := by
  let V := ofKind .variable rest
  let M := ofKind .label rest
  let T := ofKind .norm rest
  let S := ofKind .conorm rest
  have hbuilds : ∀ b ∈ V ++ M, b.Builds := fun b hb =>
    (List.mem_append.1 hb).imp kind_of_mem_ofKind kind_of_mem_ofKind
  cases directive with
  | makeVariable name lower upper => rfl
  | makeLabel owner label shape params =>
      -- The label passes later variables only: its own is there already.
      let inv (m : Model Float) : Prop := m.Grounded ∧ m.database.contains owner = true
      have hinv : ∀ b ∈ V, ∀ m u, inv m → takeIn m b = .ok u → inv u := fun b _ m u hm hu =>
        ⟨grounded_of_takeIn hm.1 hu, (contains_of_takeIn hu owner).2 (.inl hm.2)⟩
      have hexchange : ∀ b ∈ V, Exchange inv (.makeLabel owner label shape params) b := fun b hb =>
        exchange_makeLabel (kind_of_mem_ofKind hb)
      have hmove :
          takeAll m (.makeLabel owner label shape params :: (V ++ (M ++ (T ++ S)))) = .ok t ↔
            takeAll m (V ++ .makeLabel owner label shape params :: (M ++ (T ++ S))) = .ok t :=
        takeAll_move hinv hexchange ⟨hm, h.contains⟩
      exact hmove
  | chooseNorm name =>
      have hexchange : ∀ b ∈ V ++ M, Exchange (fun _ => True) (.chooseNorm name) b := fun b hb =>
        exchange_of_builds (by simp [Directive.Builds, Directive.kind]) (hbuilds b hb)
      have hmove : takeAll m (.chooseNorm name :: (V ++ M ++ (T ++ S))) = .ok t ↔
          takeAll m (V ++ M ++ .chooseNorm name :: (T ++ S)) = .ok t :=
        takeAll_move (fun _ _ _ _ _ _ => trivial) hexchange trivial
      rw [List.append_assoc, List.append_assoc] at hmove
      exact hmove
  | chooseConorm name =>
      have hexchange : ∀ b ∈ V ++ M ++ T, Exchange (fun _ => True) (.chooseConorm name) b := by
        intro b hb
        obtain hb | hb := List.mem_append.1 hb
        · exact exchange_of_builds (by simp [Directive.Builds, Directive.kind]) (hbuilds b hb)
        · exact exchange_chooseConorm (kind_of_mem_ofKind hb)
      have hmove : takeAll m (.chooseConorm name :: (V ++ M ++ T ++ S)) = .ok t ↔
          takeAll m (V ++ M ++ T ++ .chooseConorm name :: S) = .ok t :=
        takeAll_move (fun _ _ _ _ _ _ => trivial) hexchange trivial
      rw [List.append_assoc, List.append_assoc, List.append_assoc, List.append_assoc] at hmove
      exact hmove
  | setInput name x => rfl
  | addRule name text => rfl

/-- **Taking in directives by kind leads to the same model.** -/
theorem takeAll_sorted_iff {m t : Model Float} {directives : List Directive} (hm : m.Grounded)
    (h : LabelsFollow m directives) :
    takeAll m directives = .ok t ↔ takeAll m (sorted directives) = .ok t := by
  induction directives generalizing m with
  | nil => rfl
  | cons directive rest ih =>
      calc takeAll m (directive :: rest) = .ok t
          ↔ takeAll m (directive :: sorted rest) = .ok t := by
            rw [takeAll_cons_eq_ok_iff, takeAll_cons_eq_ok_iff]
            exact exists_congr fun u => and_congr_right fun hu =>
              ih (grounded_of_takeIn hm hu) (h.tail hu)
        _ ↔ takeAll m (sorted (directive :: rest)) = .ok t := takeAll_cons_sorted hm h

/-- Directives describe what others of the same order within each kind describe. -/
theorem describe_of_ofKind_eq {directives directives' : List Directive} {m : Model Float}
    (hkind : ∀ k, ofKind k directives' = ofKind k directives)
    (hlabels : LabelsFollow .initial directives') (h : Describe directives m) :
    Describe directives' m := by
  obtain ⟨built, set, hbuilt, hset, hrules⟩ := h
  -- Sorting forgets the difference between the two orders.
  have hsorted : sorted directives' = sorted directives := by simp only [sorted, hkind]
  have hinputs : inputsOf directives' = inputsOf directives := by
    rw [← inputsOf_ofKind, hkind, inputsOf_ofKind]
  have hnamed : rulesOf 0 directives' = rulesOf 0 directives := by
    rw [← rulesOf_ofKind, hkind, rulesOf_ofKind]
  have hground : (Model.initial : Model Float).Grounded := by
    intro name ref href
    exact absurd href (by simp [Model.initial, Model.empty, EmptyCollection.emptyCollection])
  refine ⟨built, set, ?_, ?_, ?_⟩
  · rw [takeAll_sorted_iff hground hlabels, hsorted]
    exact (takeAll_sorted_iff hground (labelsFollow_of_takeAll hbuilt)).1 hbuilt
  · rw [hinputs]
    exact hset
  · rw [hnamed]
    exact hrules

/-! ## Reordering the lines of a text -/

/-- The kind of the directive on a line. -/
def kindOn (line : String) : Option Kind :=
  (directiveOn line).map Directive.kind

/-- The lines in another order that keeps the order of lines of one kind and each label behind its
variable. Blank lines and comments go anywhere. -/
structure Reordered (lines lines' : List String) : Prop where
  perm : lines.Perm lines'
  kind_order (k : Kind) :
    lines'.filter (fun line => kindOn line = some k) = lines.filter fun line => kindOn line = some k
  labels_follow (before : List String) (line : String) (after : List String)
    (owner label shape : String) (params : List String) :
    lines' = before ++ line :: after →
      directiveOn line = some (.makeLabel owner label shape params) →
        ∃ l ∈ before, ∃ lower upper, directiveOn l = some (.makeVariable owner lower upper)

theorem ofKind_filterMap (k : Kind) (lines : List String) :
    ofKind k (lines.filterMap directiveOn)
      = (lines.filter fun line => kindOn line = some k).filterMap directiveOn := by
  rw [ofKind, List.filter_filterMap, List.filterMap_filter]
  refine congrArg (lines.filterMap ·) (funext fun line => ?_)
  cases h : directiveOn line with
  | none => simp [kindOn, h]
  | some directive => simp [kindOn, h, Option.filter]

theorem Reordered.labelsFollow {lines lines' : List String} (h : Reordered lines lines')
    (m : Model Float) : LabelsFollow m (lines'.filterMap directiveOn) := by
  intro before owner label shape params after heq
  obtain ⟨first, second, hlines, hfirst, hsecond⟩ := List.filterMap_eq_append_iff.1 heq
  obtain ⟨gap, line, rest, rfl, hgap, hline, -⟩ := List.filterMap_eq_cons_iff.1 hsecond
  rw [← List.append_assoc] at hlines
  obtain ⟨l, hl, lower, upper, hdirective⟩ :=
    h.labels_follow (first ++ gap) line rest owner label shape params hlines hline
  refine .inr ⟨lower, upper, ?_⟩
  obtain hl | hl := List.mem_append.1 hl
  · rw [← hfirst]
    exact List.mem_filterMap.2 ⟨l, hl, hdirective⟩
  · rw [hgap l hl] at hdirective
    exact absurd hdirective (by simp)

/-- **The order of directives of different kinds does not matter.** A text that is loaded is also
loaded, and to the same model, with its lines in any other order that keeps the order within each
kind and each label behind its variable. -/
theorem load_of_reordered {text text' : String} {m : Model Float}
    (h : Reordered (Text.splitLines text) (Text.splitLines text')) (hload : load text = .ok m) :
    load text' = .ok m := by
  obtain ⟨hread, hdescribe⟩ := load_eq_ok_iff.1 hload
  refine load_eq_ok_iff.2 ⟨fun line hline => hread line (h.perm.mem_iff.2 hline), ?_⟩
  refine describe_of_ofKind_eq (fun k => ?_) (h.labelsFollow _) hdescribe
  rw [ofKind_filterMap, ofKind_filterMap, h.kind_order]

theorem reordered_small :
    Reordered ["tnorm prod", "var A 0 9", "mf A b rshoulder 6 8", "rule IF A is b THEN A is b"]
      ["var A 0 9", "rule IF A is b THEN A is b", "mf A b rshoulder 6 8", "tnorm prod"] where
  perm := by decide
  kind_order := by
    intro k
    cases k <;> decide
  labels_follow := by
    intro before line after owner label shape params hlines hline
    have hlabel : ∀ l ∈ ["var A 0 9", "rule IF A is b THEN A is b", "mf A b rshoulder 6 8",
        "tnorm prod"], kindOn l = some .label → l = "mf A b rshoulder 6 8" := by decide
    rw [hlines] at hlabel
    obtain rfl : line = "mf A b rshoulder 6 8" :=
      hlabel line (by simp) (by rw [kindOn, hline]; rfl)
    cases before with
    | nil => exact absurd (List.cons.inj hlines).1 (by decide)
    | cons b before =>
        obtain rfl := (List.cons.inj hlines).1
        cases hline
        exact ⟨_, List.mem_cons_self, _, _, rfl⟩

theorem load_of_reordered_small :
    ∃ m, load "tnorm prod\nvar A 0 9\nmf A b rshoulder 6 8\nrule IF A is b THEN A is b" = .ok m ∧
      load "var A 0 9\nrule IF A is b THEN A is b\nmf A b rshoulder 6 8\ntnorm prod" = .ok m ∧
      m.databaseEntries.map Prod.fst = ["A"] ∧ m.rules.names = ["R1"] ∧ m.tnorm = "prod" := by
  have hlines : Text.splitLines
      "tnorm prod\nvar A 0 9\nmf A b rshoulder 6 8\nrule IF A is b THEN A is b"
        = ["tnorm prod", "var A 0 9", "mf A b rshoulder 6 8", "rule IF A is b THEN A is b"] := by
    decide +kernel
  have hlines' : Text.splitLines
      "var A 0 9\nrule IF A is b THEN A is b\nmf A b rshoulder 6 8\ntnorm prod"
        = ["var A 0 9", "rule IF A is b THEN A is b", "mf A b rshoulder 6 8", "tnorm prod"] := by
    decide +kernel
  have hreordered : Reordered
      (Text.splitLines "tnorm prod\nvar A 0 9\nmf A b rshoulder 6 8\nrule IF A is b THEN A is b")
      (Text.splitLines
        "var A 0 9\nrule IF A is b THEN A is b\nmf A b rshoulder 6 8\ntnorm prod") := by
    rw [hlines, hlines']
    exact reordered_small
  have hcontent : (load
      "tnorm prod\nvar A 0 9\nmf A b rshoulder 6 8\nrule IF A is b THEN A is b").toOption.map
        (fun m => (m.databaseEntries.map Prod.fst, m.rules.names, m.tnorm))
          = some (["A"], ["R1"], "prod") := by decide +kernel
  obtain ⟨m, hm, hfields⟩ := Option.map_eq_some_iff.1 hcontent
  simp only [Prod.mk.injEq] at hfields
  rw [toOption_eq_some_iff] at hm
  exact ⟨m, hm, load_of_reordered hreordered hm, hfields⟩

end FuzzyLogic.ModelFile
