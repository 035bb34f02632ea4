set_option autoImplicit false

/-! # Results that are there

A function that can fail returns `Except`. Most theorems are about the case in which it does not, so
a sequence of such functions is taken apart here into its parts and their intermediate results. -/

namespace FuzzyLogic

variable {ε δ β γ σ : Type}

@[simp] theorem pure_eq_ok_iff {b c : β} : (pure b : Except ε β) = .ok c ↔ b = c :=
  ⟨Except.ok.inj, congrArg Except.ok⟩

/-- Two steps succeed if the first does and the second does with its result. -/
theorem bind_eq_ok_iff {x : Except ε β} {f : β → Except ε γ} {c : γ} :
    (x >>= f) = .ok c ↔ ∃ b, x = .ok b ∧ f b = .ok c := by
  cases x with
  | error e => simp [bind, Except.bind]
  | ok b => simp [bind, Except.bind]

theorem eq_ok_of_isOk {x : Except ε Unit} (h : x.isOk = true) : x = .ok () := by
  cases x with
  | error e => cases h
  | ok b => rfl

theorem eq_mk_ok_of_isOk {p : σ × Except ε Unit} (h : p.2.isOk = true) : p = (p.1, .ok ()) :=
  Prod.ext rfl (eq_ok_of_isOk h)

theorem ite_eq_ok_iff {p : Prop} [Decidable p] {b c : β} {e : ε} :
    (if p then Except.ok b else .error e) = .ok c ↔ p ∧ b = c := by
  split
  · next hp => simp [hp]
  · next hp => simp [hp]

theorem toOption_eq_some_iff {x : Except ε β} {b : β} : x.toOption = some b ↔ x = .ok b := by
  cases x with
  | error e => simp [Except.toOption]
  | ok c => simp [Except.toOption]

theorem map_eq_ok_iff {x : Except ε β} {f : β → γ} {c : γ} :
    x.map f = .ok c ↔ ∃ b, x = .ok b ∧ f b = c := by
  cases x with
  | error e => simp [Except.map]
  | ok b => simp [Except.map]

/-- A function of something that need not be there succeeds if it does where that is there. -/
theorem mapM_eq_ok_iff {x : Option β} {f : β → Except ε γ} {y : Option γ} :
    x.mapM f = .ok y ↔ (x = none ∧ y = none) ∨ ∃ b c, x = some b ∧ f b = .ok c ∧ y = some c := by
  cases x with
  | none =>
      rw [Option.mapM_none, pure_eq_ok_iff]
      simp [eq_comm]
  | some b =>
      cases h : f b with
      | error e => simp [h, Functor.map, Except.map]
      | ok c => simp [h, Functor.map, Except.map, eq_comm]

theorem exists_of_mapM_some_eq_ok {b : β} {f : β → Except ε γ} {y : Option γ}
    (h : (some b).mapM f = .ok y) : ∃ c, f b = .ok c := by
  obtain ⟨hnone, -⟩ | ⟨b', c, hb, hc, -⟩ := mapM_eq_ok_iff.1 h
  · cases hnone
  · cases hb
    exact ⟨c, hc⟩

theorem isSome_of_mapM_eq_ok {x : Option β} {f : β → Except ε γ} {y : Option γ}
    (h : x.mapM f = .ok y) : y.isSome = x.isSome := by
  obtain ⟨rfl, rfl⟩ | ⟨b, c, rfl, -, rfl⟩ := mapM_eq_ok_iff.1 h <;> rfl

theorem exists_mapM_eq_ok {x : Option β} {f : β → Except ε γ} (h : ∀ b ∈ x, ∃ c, f b = .ok c) :
    ∃ y, x.mapM f = .ok y := by
  cases x with
  | none => exact ⟨none, rfl⟩
  | some b =>
      obtain ⟨c, hc⟩ := h b rfl
      exact ⟨some c, mapM_eq_ok_iff.2 (.inr ⟨b, c, rfl, hc, rfl⟩)⟩

/-- What a function finds is also true of the lists of what it is given and of what it finds. -/
theorem map_eq_map_of_ok {f : β → Except ε γ} {g : β → δ} {k : γ → δ}
    (h : ∀ b c, f b = .ok c → g b = k c) {l : List β} {l' : List γ}
    (hl : l.map f = l'.map .ok) : l.map g = l'.map k := by
  induction l generalizing l' with
  | nil =>
      obtain rfl : l' = [] := List.map_eq_nil_iff.1 hl.symm
      rfl
  | cons b l ih =>
      cases l' with
      | nil => exact absurd hl (by simp)
      | cons c l' =>
          obtain ⟨hhead, htail⟩ := List.cons.inj hl
          rw [List.map_cons, List.map_cons, h b c hhead, ih htail]

/-! ## Functions along a list -/

/-- A function succeeds along a list with its results in order. -/
theorem listMapM_eq_ok_iff {f : β → Except ε γ} {l : List β} {k : List γ} :
    l.mapM f = .ok k ↔ l.map f = k.map .ok := by
  induction l generalizing k with
  | nil =>
      rw [List.mapM_nil, pure_eq_ok_iff, List.map_nil, eq_comm, eq_comm (a := []),
        List.map_eq_nil_iff]
  | cons b l ih =>
      simp only [List.mapM_cons, bind_eq_ok_iff, pure_eq_ok_iff, ih]
      constructor
      · rintro ⟨c, hc, k', hk, rfl⟩
        rw [List.map_cons, List.map_cons, hc, hk]
      · intro h
        cases k with
        | nil => exact absurd h (by simp)
        | cons c k' =>
            obtain ⟨hc, hk⟩ := List.cons.inj h
            exact ⟨c, hc, k', hk, rfl⟩

theorem exists_listMapM_eq_ok_iff {f : β → Except ε γ} {l : List β} :
    (∃ k, l.mapM f = .ok k) ↔ ∀ b ∈ l, ∃ c, f b = .ok c := by
  induction l with
  | nil => simp
  | cons b l ih =>
      rw [List.forall_mem_cons, ← ih]
      simp only [List.mapM_cons, bind_eq_ok_iff, pure_eq_ok_iff]
      constructor
      · rintro ⟨_, c, hc, k, hk, -⟩
        exact ⟨⟨c, hc⟩, k, hk⟩
      · rintro ⟨⟨c, hc⟩, k, hk⟩
        exact ⟨_, c, hc, k, hk, rfl⟩

theorem exists_mem_of_listMapM {f : β → Except ε γ} {l : List β} {k : List γ}
    (h : l.mapM f = .ok k) {c : γ} (hc : c ∈ k) : ∃ b ∈ l, f b = .ok c := by
  have hmem : (.ok c : Except ε γ) ∈ l.map f := by
    rw [listMapM_eq_ok_iff.1 h]
    exact List.mem_map_of_mem hc
  exact List.mem_map.1 hmem

/-- Two functions, one behind the other, succeed along a list as their composition does. -/
theorem listMapM_listMapM_eq_ok_iff {f : β → Except ε γ} {g : γ → Except ε δ} {l : List β}
    {k : List δ} :
    (l.mapM f >>= fun cs => cs.mapM g) = .ok k ↔ l.mapM (fun b => f b >>= g) = .ok k := by
  simp only [bind_eq_ok_iff, listMapM_eq_ok_iff]
  induction l generalizing k with
  | nil => cases k <;> simp
  | cons b l ih =>
      cases k with
      | nil => simp
      | cons d k =>
          simp only [List.map_cons, List.cons.injEq, ← ih, bind_eq_ok_iff]
          constructor
          · rintro ⟨cs, hcs, hds⟩
            cases cs with
            | nil => exact absurd hds (by simp)
            | cons c cs =>
                simp only [List.map_cons, List.cons.injEq] at hcs hds
                exact ⟨⟨c, hcs.1, hds.1⟩, cs, hcs.2, hds.2⟩
          · rintro ⟨⟨c, hc, hd⟩, cs, hcs, hds⟩
            exact ⟨c :: cs, by simp [hc, hcs], by simp [hd, hds]⟩

/-- A change of the errors can be made item by item. -/
theorem listMapM_mapError (f : β → Except ε γ) (g : ε → δ) (l : List β) :
    l.mapM (fun b => (f b).mapError g) = (l.mapM f).mapError g := by
  induction l with
  | nil => rfl
  | cons b l ih =>
      rw [List.mapM_cons, List.mapM_cons, ih]
      cases f b with
      | error e => rfl
      | ok c => cases l.mapM f <;> rfl

/-- A function along the lists of a list is one along all their items. -/
theorem listMapM_flatMap (f : γ → Except ε δ) (g : β → List γ) (l : List β) :
    (l.flatMap g).mapM f = List.flatten <$> l.mapM fun b => (g b).mapM f := by
  induction l with
  | nil => rfl
  | cons b l ih =>
      rw [List.flatMap_cons, List.mapM_append, ih, List.mapM_cons]
      cases (g b).mapM f with
      | error e => rfl
      | ok cs => cases l.mapM fun b => (g b).mapM f <;> rfl

/-! ## Steps along a list -/

theorem foldlM_nil_eq_ok_iff {f : σ → β → Except ε σ} {s t : σ} :
    [].foldlM f s = .ok t ↔ t = s := by
  rw [List.foldlM_nil, pure_eq_ok_iff, eq_comm]

theorem foldlM_cons_eq_ok_iff {f : σ → β → Except ε σ} {b : β} {l : List β} {s t : σ} :
    (b :: l).foldlM f s = .ok t ↔ ∃ u, f s b = .ok u ∧ l.foldlM f u = .ok t := by
  rw [List.foldlM_cons, bind_eq_ok_iff]

theorem foldlM_append_eq_ok_iff {f : σ → β → Except ε σ} {l k : List β} {s t : σ} :
    (l ++ k).foldlM f s = .ok t ↔ ∃ u, l.foldlM f s = .ok u ∧ k.foldlM f u = .ok t := by
  rw [List.foldlM_append, bind_eq_ok_iff]

/-- Steps that succeed alike lead to the same result, whatever their errors are. -/
theorem foldlM_map_eq_ok_iff {f : σ → β → Except ε σ} {g : σ → γ → Except δ σ} {p : β → γ}
    (h : ∀ s b t, f s b = .ok t ↔ g s (p b) = .ok t) (l : List β) (s t : σ) :
    l.foldlM f s = .ok t ↔ (l.map p).foldlM g s = .ok t := by
  induction l generalizing s with
  | nil => rw [List.map_nil, foldlM_nil_eq_ok_iff, foldlM_nil_eq_ok_iff]
  | cons b l ih => simp only [List.map_cons, foldlM_cons_eq_ok_iff, h, ih]

/-- A step that can be exchanged with every step of a list can be exchanged with the list. -/
theorem foldlM_exchange_step {f : σ → β → Except ε σ} {g : σ → γ → Except ε σ} {b : β}
    (h : ∀ s c t, (∃ u, f s b = .ok u ∧ g u c = .ok t) ↔ ∃ u, g s c = .ok u ∧ f u b = .ok t)
    (k : List γ) (s t : σ) :
    (∃ u, f s b = .ok u ∧ k.foldlM g u = .ok t) ↔ ∃ u, k.foldlM g s = .ok u ∧ f u b = .ok t := by
  induction k generalizing s with
  | nil => simp
  | cons c k ih =>
      simp only [foldlM_cons_eq_ok_iff]
      constructor
      · rintro ⟨u, hu, v, hv, ht⟩
        obtain ⟨w, hw, hwv⟩ := (h s c v).1 ⟨u, hu, hv⟩
        obtain ⟨x, hx, hxt⟩ := (ih w).1 ⟨v, hwv, ht⟩
        exact ⟨x, ⟨w, hw, hx⟩, hxt⟩
      · rintro ⟨x, ⟨w, hw, hx⟩, hxt⟩
        obtain ⟨v, hwv, ht⟩ := (ih w).2 ⟨x, hx, hxt⟩
        obtain ⟨u, hu, hv⟩ := (h s c v).2 ⟨w, hw, hwv⟩
        exact ⟨u, hu, v, hv, ht⟩

/-- Steps that can be exchanged one by one can be exchanged list by list. -/
theorem foldlM_exchange {f : σ → β → Except ε σ} {g : σ → γ → Except ε σ}
    (h : ∀ s b c t, (∃ u, f s b = .ok u ∧ g u c = .ok t) ↔ ∃ u, g s c = .ok u ∧ f u b = .ok t)
    (l : List β) (k : List γ) (s t : σ) :
    (∃ u, l.foldlM f s = .ok u ∧ k.foldlM g u = .ok t) ↔
      ∃ u, k.foldlM g s = .ok u ∧ l.foldlM f u = .ok t :=
  -- The whole of `k` is one step that can be exchanged with those of `l`.
  (foldlM_exchange_step (f := fun s (_ : Unit) => k.foldlM g s) (b := ())
    (fun s b t => (foldlM_exchange_step (fun s c t => h s b c t) k s t).symm) l s t).symm

end FuzzyLogic
