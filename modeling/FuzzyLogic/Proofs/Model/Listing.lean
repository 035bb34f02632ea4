import FuzzyLogic.Proofs.Model.Update
import FuzzyLogic.Proofs.Registry

set_option autoImplicit false

/-! # Models whose database lists all variables

As long as no variable is taken out of the database, the database lists the variables of the model
one by one. Then the variables can be spoken of as a list, and setting an input changes the one
variable of the list that has the name. -/

namespace FuzzyLogic.Model

variable {α : Type} {m m' : Model α}

/-! ## Changing one variable -/

theorem toList_pool_replace (m : Model α) (ref : VariableRef) (w : LinguisticVariable α) :
    (m.replace ref w).pool.toList = m.pool.toList.set ref.id w := by
  simp [replace]

theorem getElem?_toList_pool {ref : VariableRef} {v : LinguisticVariable α}
    (hv : m.deref? ref = some v) : m.pool.toList[ref.id]? = some v := by
  rw [Array.getElem?_toList]
  exact hv

/-- What is the same of the old and of the new variable is the same everywhere. -/
theorem map_pool_replace {β : Type} {f : LinguisticVariable α → β} {ref : VariableRef}
    {v w : LinguisticVariable α} (hv : m.deref? ref = some v) (hf : f w = f v) :
    (m.replace ref w).pool.toList.map f = m.pool.toList.map f := by
  rw [toList_pool_replace, List.map_set, hf]
  refine List.ext_getElem? fun i => ?_
  rw [List.getElem?_set, List.getElem?_map, List.length_map]
  split
  · next h =>
      subst h
      rw [getElem?_toList_pool hv, if_pos (by simpa using lt_size_of_deref? hv), Option.map_some]
  · rfl

/-! ## The list of variables -/

/-- The names of all variables, in the order of their numbers. -/
def variableNames (m : Model α) : List String :=
  m.pool.toList.map LinguisticVariable.name

/-- The database lists the variables in the order of their numbers, each under its own name. -/
structure Listed (m : Model α) : Prop where
  entries : m.database.entries = m.variableNames.mapIdx fun i name => (name, ⟨i, name⟩)
  nodup : m.variableNames.Nodup

theorem listed_empty (tnorm snorm : String) : (empty tnorm snorm : Model α).Listed :=
  ⟨rfl, List.nodup_nil⟩

namespace Listed

theorem names (hm : m.Listed) : m.database.names = m.variableNames := by
  rw [Registry.names, hm.entries]
  simp [List.ext_getElem_iff]

theorem getElem?_of_get? (hm : m.Listed) {name : String} {ref : VariableRef}
    (h : m.database.get? name = some ref) : m.variableNames[ref.id]? = some name := by
  have hmem := Registry.mem_entries_of_get? h
  rw [hm.entries, List.mem_mapIdx] at hmem
  obtain ⟨i, hi, heq⟩ := hmem
  cases heq
  exact List.getElem?_eq_getElem hi

/-- The variables of the database are all variables there are. -/
theorem databaseEntries (hm : m.Listed) :
    m.databaseEntries = m.pool.toList.map fun v => (v.name, v) := by
  have hlook : m.database.entries.map (fun e => (m.deref? e.2).map (e.1, ·))
      = (m.pool.toList.map fun v => (v.name, v)).map some := by
    rw [hm.entries]
    refine List.ext_getElem ?_ ?_
    · simp [variableNames]
    · intro i hi hi'
      simp only [List.length_map] at hi'
      simp [variableNames, deref?]
  have hall := congrArg (List.filterMap id) hlook
  rw [List.filterMap_map, List.filterMap_map] at hall
  simpa [Model.databaseEntries, Function.comp_def] using hall

theorem of_variableNames_eq (hm : m.Listed) (hdatabase : m'.database = m.database)
    (hnames : m'.variableNames = m.variableNames) : m'.Listed :=
  ⟨by rw [hdatabase, hnames, hm.entries], by rw [hnames]; exact hm.nodup⟩

theorem addVariable [Scalar α] (hm : m.Listed) {name : String} {lower upper : α}
    (h : m.addVariable name lower upper = .ok m') : m'.Listed := by
  obtain ⟨v, hv, hfree, rfl⟩ := addVariable_eq_ok_iff.1 h
  obtain ⟨-, rfl⟩ := LinguisticVariable.make_eq_ok_iff.1 hv
  refine ⟨?_, ?_⟩
  · rw [Registry.entries_insert hfree, hm.entries]
    simp [variableNames, List.mapIdx_concat]
  · simp only [variableNames, Array.toList_push, List.map_append, List.map_cons, List.map_nil]
    refine List.nodup_append.2 ⟨hm.nodup, by simp, ?_⟩
    rw [Registry.contains_eq_false_iff, hm.names] at hfree
    rintro other hother name' hname' rfl
    exact hfree (List.mem_singleton.1 hname' ▸ hother)

theorem addLabel (hm : m.Listed) {ref : VariableRef} {label : String}
    {function : MembershipFunction α} (h : m.addLabel ref label function = .ok m') : m'.Listed := by
  obtain ⟨v, w, hv, hw, rfl⟩ := addLabel_eq_ok_iff.1 h
  obtain ⟨-, rfl⟩ := LinguisticVariable.withLabel_eq_ok_iff.1 hw
  exact hm.of_variableNames_eq rfl (map_pool_replace hv rfl)

theorem assign [Scalar α] (hm : m.Listed) {clamp : Bool} {name : String} {x : α}
    (h : m.assign clamp name x = .ok m') : m'.Listed := by
  obtain ⟨ref, v, -, -, hset⟩ := assign_eq_ok_iff.1 h
  obtain ⟨w, hw, -, rfl⟩ := setInput_eq_ok_iff.1 hset
  exact hm.of_variableNames_eq rfl (map_pool_replace hw rfl)

/-- Setting an input changes the variable with the name and no other. -/
theorem toList_pool_assign [Scalar α] (hm : m.Listed) {name : String} {x : α}
    (h : m.assign false name x = .ok m') :
    m' = { m with pool := m'.pool } ∧ m'.pool.toList
      = m.pool.toList.map fun v => if v.name = name then { v with input := x } else v := by
  obtain ⟨ref, v, href, hv, hset⟩ := assign_eq_ok_iff.1 h
  obtain ⟨w, hw, -, rfl⟩ := setInput_eq_ok_iff.1 hset
  obtain rfl := Option.some.inj (hv.symm.trans hw)
  refine ⟨rfl, ?_⟩
  rw [toList_pool_replace]
  have hname := hm.getElem?_of_get? href
  refine List.ext_getElem? fun i => ?_
  rw [List.getElem?_set, List.getElem?_map]
  split
  · next hi =>
      subst hi
      have hi := getElem?_toList_pool hv
      have hvname : v.name = name := by
        rw [variableNames, List.getElem?_map, hi] at hname
        exact Option.some.inj hname
      rw [hi, if_pos (by simpa using lt_size_of_deref? hv), Option.map_some, if_pos hvname]
      rfl
  · next hi =>
      cases hu : m.pool.toList[i]? with
      | none => rfl
      | some u =>
          -- Another variable has another name.
          have hne : u.name ≠ name := by
            intro hu'
            have hlt : ref.id < m.variableNames.length := (List.getElem?_eq_some_iff.1 hname).1
            refine hi ((List.getElem?_inj hlt hm.nodup).1 ?_)
            rw [hname, variableNames, List.getElem?_map, hu, Option.map_some, hu']
          simp [hne]

end Listed

end FuzzyLogic.Model
