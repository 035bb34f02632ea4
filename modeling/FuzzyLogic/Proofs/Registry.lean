import FuzzyLogic.Registry
import Mathlib.Data.List.Induction

set_option autoImplicit false

/-! # Registries as stores

What a registry looks like when every name is used once and every object stands under its own name.
All ways of changing a registry keep it so, as long as an object is entered under its own name. -/

namespace FuzzyLogic.Registry

variable {β γ : Type}

/-! ## Names in use -/

theorem contains_iff_mem_names {r : Registry β} {name : String} :
    r.contains name = true ↔ name ∈ r.names := by
  obtain ⟨entries⟩ := r
  simp only [contains, get?, names]
  induction entries with
  | nil => simp
  | cons e rest ih =>
      obtain ⟨n, b⟩ := e
      by_cases h : name = n
      · simp [h]
      · have hf : (name == n) = false := by simp [h]
        simp [List.lookup_cons, hf, h, ih]

theorem contains_eq_false_iff {r : Registry β} {name : String} :
    r.contains name = false ↔ name ∉ r.names := by
  rw [← contains_iff_mem_names, Bool.not_eq_true]

/-- A new name comes last. -/
theorem entries_insert {r : Registry β} {name : String} (h : r.contains name = false) (b : β) :
    (r.insert name b).entries = r.entries ++ [(name, b)] := by
  simp [insert, h]

theorem mem_entries_of_get? {r : Registry β} {name : String} {b : β} (h : r.get? name = some b) :
    (name, b) ∈ r.entries := by
  obtain ⟨before, after, heq, -⟩ := List.lookup_eq_some_iff.1 h
  rw [heq]
  exact List.mem_append_right before List.mem_cons_self

/-- A new name hides no other. -/
theorem get?_insert_of_get? {r : Registry β} {name n : String} {c : β}
    (hfree : r.contains name = false) (h : r.get? n = some c) (b : β) :
    (r.insert name b).get? n = some c := by
  have hne : n ≠ name := by
    rintro rfl
    rw [contains, h] at hfree
    exact absurd hfree (by simp)
  rw [get?_insert, if_neg hne, h]

theorem get?_erase (r : Registry β) (name n : String) :
    (r.erase name).get? n = if n = name then none else r.get? n := by
  obtain ⟨entries⟩ := r
  simp only [erase, get?]
  induction entries with
  | nil => simp
  | cons e rest ih =>
      obtain ⟨k, b⟩ := e
      by_cases hk : k = name
      · subst hk
        rw [List.filter_cons_of_neg (by simp), ih]
        by_cases hn : n = k
        · simp [hn]
        · have hf : (n == k) = false := by simp [hn]
          simp [List.lookup_cons, hn, hf]
      · rw [List.filter_cons_of_pos (by simp [hk]), List.lookup_cons, List.lookup_cons, ih]
        by_cases hn : n = k
        · simp [hn, hk]
        · have hf : (n == k) = false := by simp [hn]
          simp [hf]

/-- Dropping a name that is not in use changes nothing. -/
theorem erase_eq_self {r : Registry β} {name : String} (h : r.contains name = false) :
    r.erase name = r := by
  rw [contains_eq_false_iff] at h
  refine congrArg Registry.mk (List.filter_eq_self.2 fun e he => ?_)
  exact bne_iff_ne.2 fun hname => h (hname ▸ List.mem_map_of_mem he)

theorem get?_map (f : β → γ) (r : Registry β) (name : String) :
    (r.map f).get? name = (r.get? name).map f := by
  obtain ⟨entries⟩ := r
  simp only [map, get?]
  induction entries with
  | nil => rfl
  | cons e rest ih =>
      rw [List.map_cons, List.lookup_cons, List.lookup_cons, ih]
      split <;> rfl

theorem contains_map (f : β → γ) (r : Registry β) (name : String) :
    (r.map f).contains name = r.contains name := by
  rw [contains, contains, get?_map, Option.isSome_map]

theorem map_replaceIn (f : β → γ) (name : String) (b : β) (entries : List (String × β)) :
    (replaceIn name b entries).map (fun e => (e.1, f e.2))
      = replaceIn name (f b) (entries.map fun e => (e.1, f e.2)) := by
  induction entries with
  | nil => rfl
  | cons e rest ih =>
      rw [replaceIn, List.map_cons, replaceIn]
      split
      · rfl
      · rw [List.map_cons, ih]

/-- Changing every object and entering one can be done in either order. -/
theorem map_insert (f : β → γ) (r : Registry β) (name : String) (b : β) :
    (r.insert name b).map f = (r.map f).insert name (f b) := by
  unfold insert
  rw [contains_map]
  split
  · exact congrArg Registry.mk (map_replaceIn f name b r.entries)
  · simp [map]

/-- An object is found, and replaced by another one, where its name comes first. -/
theorem get?_append_cons {before after : List (String × β)} {name : String} {b : β}
    (h : name ∉ before.map Prod.fst) : (⟨before ++ (name, b) :: after⟩ : Registry β).get? name
      = some b :=
  List.lookup_eq_some_iff.2 ⟨before, after, rfl, fun e he => by
    simpa using ne_of_mem_of_not_mem (List.mem_map_of_mem he) h |>.symm⟩

theorem insert_append_cons {before after : List (String × β)} {name : String} {b : β}
    (h : name ∉ before.map Prod.fst) (c : β) :
    (⟨before ++ (name, b) :: after⟩ : Registry β).insert name c
      = ⟨before ++ (name, c) :: after⟩ := by
  unfold insert
  rw [if_pos (by rw [contains, get?_append_cons h]; rfl)]
  refine congrArg Registry.mk ?_
  induction before with
  | nil => simp [replaceIn]
  | cons e before ih =>
      rw [List.map_cons, List.mem_cons, not_or] at h
      have hne : (name == e.1) = false := by simpa using h.1
      simp only [List.cons_append, replaceIn, hne, Bool.false_eq_true, if_false, ih h.2]

theorem mem_replaceIn {entries : List (String × β)} {name : String} {b : β} {e : String × β}
    (h : e ∈ replaceIn name b entries) : e = (name, b) ∨ e ∈ entries := by
  induction entries with
  | nil => exact .inr h
  | cons d rest ih =>
      rw [replaceIn] at h
      split at h
      · next hn =>
          obtain rfl | h := List.mem_cons.1 h
          · exact .inl (by rw [eq_of_beq hn])
          · exact .inr (List.mem_cons_of_mem d h)
      · obtain rfl | h := List.mem_cons.1 h
        · exact .inr List.mem_cons_self
        · exact (ih h).imp id (List.mem_cons_of_mem d)

theorem mem_entries_insert {r : Registry β} {name : String} {b : β} {e : String × β}
    (h : e ∈ (r.insert name b).entries) : e = (name, b) ∨ e ∈ r.entries := by
  unfold insert at h
  split at h
  · exact mem_replaceIn h
  · exact (List.mem_append.1 h).symm.imp List.mem_singleton.1 id

/-! ## Objects under their names -/

/-- Every name is used once, and every object stands under its own name. -/
structure Keyed (key : β → String) (r : Registry β) : Prop where
  nodup : r.names.Nodup
  key_eq : ∀ e ∈ r.entries, key e.2 = e.1

namespace Keyed

variable {key : β → String} {r : Registry β}

theorem empty : (Registry.empty : Registry β).Keyed key where
  nodup := List.nodup_nil
  key_eq := by simp [Registry.empty]

theorem key_eq_of_get? (h : r.Keyed key) {name : String} {b : β} (hb : r.get? name = some b) :
    key b = name :=
  h.key_eq _ (mem_entries_of_get? hb)

/-- An object that is entered under its own name, as a new one or in the place of another. -/
theorem insert (h : r.Keyed key) (b : β) : (r.insert (key b) b).Keyed key := by
  refine ⟨?_, ?_⟩
  · rw [names_insert]
    split
    · exact h.nodup
    · next hfree =>
        rw [Bool.not_eq_true, contains_eq_false_iff] at hfree
        refine List.nodup_append.2 ⟨h.nodup, by simp, ?_⟩
        rintro n hn m hm rfl
        rw [List.mem_singleton] at hm
        exact hfree (hm ▸ hn)
  · intro e he
    obtain rfl | he := mem_entries_insert he
    · rfl
    · exact h.key_eq e he

theorem erase (h : r.Keyed key) (name : String) : (r.erase name).Keyed key where
  nodup := by
    rw [names_erase]
    exact h.nodup.sublist List.filter_sublist
  key_eq := fun e he => h.key_eq e (List.mem_filter.1 he).1

/-- Changes that keep the name of every object. -/
theorem map (h : r.Keyed key) {f : β → β} (hf : ∀ b, key (f b) = key b) : (r.map f).Keyed key where
  nodup := by
    have hnames : (r.map f).names = r.names := by simp [Registry.map, names]
    rw [hnames]
    exact h.nodup
  key_eq := by
    intro e he
    obtain ⟨e', he', rfl⟩ := List.mem_map.1 he
    exact (hf e'.2).trans (h.key_eq e' he')

end Keyed

/-! ## Pairs that are entered one after the other -/

theorem ofList_concat (pairs : List (String × β)) (e : String × β) :
    ofList (pairs ++ [e]) = (ofList pairs).insert e.1 e.2 := by
  rw [ofList, List.foldl_append]
  rfl

/-- The names stand in the order in which they come first. -/
theorem names_ofList (pairs : List (String × β)) :
    (ofList pairs).names = (pairs.map Prod.fst).eraseDups := by
  induction pairs using List.reverseRecOn with
  | nil => rfl
  | append_singleton pairs e ih =>
      rw [ofList_concat, names_insert, ih, List.map_append, List.eraseDups_append]
      have hcontains : (ofList pairs).contains e.1 = true ↔ e.1 ∈ pairs.map Prod.fst := by
        rw [contains_iff_mem_names, ih, List.mem_eraseDups]
      by_cases h : e.1 ∈ pairs.map Prod.fst
      · rw [if_pos (hcontains.2 h)]
        simp [List.removeAll, h]
      · rw [if_neg fun hin => h (hcontains.1 hin)]
        simp [List.removeAll, h, List.eraseDups_cons]

/-- Every name has the object that it is given last. -/
theorem get?_ofList_eq (pairs : List (String × β)) (name : String) :
    (ofList pairs).get? name = pairs.reverse.lookup name := by
  induction pairs using List.reverseRecOn with
  | nil => rfl
  | append_singleton pairs e ih =>
      rw [ofList_concat, get?_insert, ih, List.reverse_append, List.reverse_singleton,
        List.singleton_append, List.lookup_cons]
      by_cases h : name = e.1
      · simp [h]
      · have hf : (name == e.1) = false := by simp [h]
        simp [h, hf]

/-- If the pairs are those of a function, names are looked up as the function tells. -/
theorem get?_ofList {pairs : List (String × β)} {f : String → Option β}
    (h : ∀ e ∈ pairs, f e.1 = some e.2) (name : String) :
    (ofList pairs).get? name = if name ∈ pairs.map Prod.fst then f name else none := by
  induction pairs using List.reverseRecOn with
  | nil => rfl
  | append_singleton pairs e ih =>
      rw [List.forall_mem_append, List.forall_mem_singleton] at h
      rw [ofList_concat, get?_insert, ih h.1]
      by_cases hname : name = e.1
      · have hmem : name ∈ (pairs ++ [e]).map Prod.fst := by simp [hname]
        rw [if_pos hname, if_pos hmem, hname, h.2]
      · have hmem : name ∈ pairs.map Prod.fst ↔ name ∈ (pairs ++ [e]).map Prod.fst := by
          rw [List.map_append, List.mem_append, List.map_singleton, List.mem_singleton,
            or_iff_left hname]
        rw [if_neg hname]
        exact if_congr hmem rfl rfl

/-- Pairs with different names are entered in their order. -/
theorem entries_ofList {pairs : List (String × β)} (h : (pairs.map Prod.fst).Nodup) :
    (ofList pairs).entries = pairs := by
  induction pairs using List.reverseRecOn with
  | nil => rfl
  | append_singleton pairs e ih =>
      rw [List.map_append, List.nodup_append] at h
      have hfree : (ofList pairs).contains e.1 = false := by
        rw [contains_eq_false_iff, names_ofList, List.mem_eraseDups]
        intro hmem
        exact h.2.2 e.1 hmem e.1 List.mem_cons_self rfl
      rw [ofList_concat, entries_insert hfree, ih h.1]

theorem Keyed.eraseDups_names {key : β → String} {r : Registry β} (h : r.Keyed key) :
    r.names.eraseDups = r.names := by
  have hnames := names_ofList r.entries
  rw [names, entries_ofList h.nodup] at hnames
  exact hnames.symm

/-! ## Objects of a changed registry -/

theorem mem_objects_of_get? {r : Registry β} {name : String} {b : β} (h : r.get? name = some b) :
    b ∈ r.objects :=
  List.mem_map.2 ⟨_, mem_entries_of_get? h, rfl⟩

theorem mem_objects_insert {r : Registry β} {name : String} {b c : β}
    (h : c ∈ (r.insert name b).objects) : c = b ∨ c ∈ r.objects := by
  obtain ⟨e, he, rfl⟩ := List.mem_map.1 h
  obtain rfl | he := mem_entries_insert he
  · exact .inl rfl
  · exact .inr (List.mem_map.2 ⟨e, he, rfl⟩)

theorem mem_objects_erase {r : Registry β} {name : String} {c : β}
    (h : c ∈ (r.erase name).objects) : c ∈ r.objects := by
  obtain ⟨e, he, rfl⟩ := List.mem_map.1 h
  exact List.mem_map.2 ⟨e, (List.mem_filter.1 he).1, rfl⟩

theorem mem_objects_map {r : Registry β} {f : β → γ} {c : γ} (h : c ∈ (r.map f).objects) :
    ∃ b ∈ r.objects, f b = c := by
  obtain ⟨e, he, rfl⟩ := List.mem_map.1 h
  obtain ⟨e', he', rfl⟩ := List.mem_map.1 he
  exact ⟨e'.2, List.mem_map.2 ⟨e', he', rfl⟩, rfl⟩

/-- Every object is found under its own name. -/
theorem Keyed.get?_of_mem_objects {key : β → String} {r : Registry β} (h : r.Keyed key) {b : β}
    (hb : b ∈ r.objects) : r.get? (key b) = some b := by
  obtain ⟨e, he, rfl⟩ := List.mem_map.1 hb
  obtain ⟨before, after, heq⟩ := List.append_of_mem he
  have hnodup := h.nodup
  rw [names, heq, List.map_append, List.map_cons, List.nodup_append] at hnodup
  have hbefore : e.1 ∉ before.map Prod.fst := fun hin =>
    hnodup.2.2 e.1 hin e.1 List.mem_cons_self rfl
  rw [h.key_eq e he, show r = ⟨before ++ (e.1, e.2) :: after⟩ from congrArg Registry.mk heq]
  exact get?_append_cons hbefore

end FuzzyLogic.Registry
