import Formicary.Code.Labels

/-!
# What a table of labels holds

A table is determined by the step of each name. The index by steps is derived from the names, so
every question about it is answered by the names: those of a step are the names with that step, in
order and without repetition.
-/

namespace Formicary

namespace LabelTable

@[ext] theorem ext {t u : LabelTable} (h : ∀ name, t.stepOf? name = u.stepOf? name) : t = u := by
  cases t
  cases u
  exact congrArg LabelTable.mk (Std.ExtTreeMap.ext_getElem? h)

@[simp] theorem stepOf?_empty (name : String) : empty.stepOf? name = none :=
  Std.ExtTreeMap.getElem?_empty

theorem mem_steps_iff {t : LabelTable} {name : String} :
    name ∈ t.steps ↔ (t.stepOf? name).isSome := by
  rw [stepOf?, Std.ExtTreeMap.mem_iff_isSome_getElem?]

/-- A label is added exactly when its name is free. -/
theorem insert?_eq_some_iff {t u : LabelTable} {name : String} {step : UInt16} :
    t.insert? name step = some u ↔
      t.stepOf? name = none ∧
        ∀ other, u.stepOf? other = if other = name then some step else t.stepOf? other := by
  have added (other : String) : stepOf? ⟨t.steps.insert name step⟩ other =
      if other = name then some step else t.stepOf? other := by
    rw [stepOf?, Std.ExtTreeMap.getElem?_insert]
    by_cases same : other = name
    · simp [same]
    · simp [same, Ne.symm same, stepOf?]
  by_cases taken : name ∈ t.steps
  · obtain ⟨found, eq⟩ := Option.isSome_iff_exists.mp (mem_steps_iff.mp taken)
    simp [insert?, taken, eq]
  · have free : t.stepOf? name = none := by
      simpa using mt mem_steps_iff.mpr taken
    simp only [insert?, taken, if_false, Option.some.injEq, free, true_and]
    constructor
    · rintro rfl other
      exact added other
    · intro all
      ext other
      rw [all, added]

theorem exists_insert? {t : LabelTable} {name : String} (free : t.stepOf? name = none)
    (step : UInt16) : ∃ u, t.insert? name step = some u := by
  have absent : name ∉ t.steps := by
    rw [mem_steps_iff, free]
    exact Bool.false_ne_true
  exact ⟨_, if_neg absent⟩

theorem mem_entries {t : LabelTable} {name : String} {step : UInt16} :
    (name, step) ∈ t.entries ↔ t.stepOf? name = some step :=
  Std.ExtTreeMap.mem_toList_iff_getElem?_eq_some

theorem nodup_entries (t : LabelTable) : (t.entries.map Prod.fst).Nodup := by
  rw [entries, Std.ExtTreeMap.map_fst_toList_eq_keys]
  exact Std.ExtTreeMap.nodup_keys

theorem entries_empty : empty.entries = [] := by
  rw [List.eq_nil_iff_forall_not_mem]
  rintro ⟨name, step⟩ member
  rw [mem_entries, stepOf?_empty] at member
  cases member

theorem length_entries (t : LabelTable) : t.entries.length = t.size :=
  Std.ExtTreeMap.length_toList

theorem eq_of_perm_entries {t u : LabelTable} (h : t.entries.Perm u.entries) : t = u := by
  cases t
  cases u
  exact congrArg LabelTable.mk (Std.ExtTreeMap.ext_toList h)

theorem not_mem_of_perm_entries {t : LabelTable} {name : String} {step : UInt16}
    {others : List (String × UInt16)} (h : ((name, step) :: others).Perm t.entries) :
    name ∉ others.map Prod.fst := by
  have distinct := (h.map Prod.fst).nodup_iff.mpr t.nodup_entries
  rw [List.map_cons, List.nodup_cons] at distinct
  exact distinct.1

theorem stepOf?_eq_none_iff {t : LabelTable} {name : String} :
    t.stepOf? name = none ↔ name ∉ t.entries.map Prod.fst := by
  simp [Option.eq_none_iff_forall_ne_some, mem_entries]

/-- Adding a label puts it among the entries. -/
theorem insert?_eq_some_iff_perm {t u : LabelTable} {name : String} {step : UInt16} :
    t.insert? name step = some u ↔ ((name, step) :: t.entries).Perm u.entries := by
  have distinct (t : LabelTable) : t.entries.Nodup :=
    List.Pairwise.of_map Prod.fst (fun _ _ differ same => differ (same ▸ rfl)) t.nodup_entries
  have adds {u : LabelTable} (h : t.insert? name step = some u) :
      ((name, step) :: t.entries).Perm u.entries := by
    obtain ⟨free, all⟩ := insert?_eq_some_iff.mp h
    have absent : (name, step) ∉ t.entries := by
      intro member
      rw [mem_entries, free] at member
      cases member
    rw [List.perm_ext_iff_of_nodup (List.nodup_cons.mpr ⟨absent, distinct t⟩) (distinct u)]
    rintro ⟨other, target⟩
    rw [List.mem_cons, mem_entries, mem_entries, all]
    by_cases same : other = name
    · subst same
      simp [free, eq_comm]
    · simp [same]
  refine ⟨adds, ?_⟩
  intro perm
  have free := stepOf?_eq_none_iff.mpr (not_mem_of_perm_entries perm)
  obtain ⟨v, added⟩ := exists_insert? free step
  rw [added, eq_of_perm_entries ((adds added).symm.trans perm)]

/-- The index of some labels by their steps. -/
def indexOf (labels : List (String × UInt16)) : Std.ExtTreeMap UInt16 (List String) :=
  labels.foldr (fun label index => index.insert label.2 (label.1 :: index.getD label.2 [])) ∅

theorem byStep_eq (t : LabelTable) : t.byStep = indexOf t.entries :=
  Std.ExtTreeMap.foldr_eq_foldr_toList

theorem getD_indexOf (labels : List (String × UInt16)) (step : UInt16) :
    (indexOf labels).getD step [] = (labels.filter (·.2 = step)).map Prod.fst := by
  induction labels with
  | nil => simp [indexOf]
  | cons label labels ih =>
    have unfolded : indexOf (label :: labels) =
        (indexOf labels).insert label.2 (label.1 :: (indexOf labels).getD label.2 []) := rfl
    rw [unfolded, Std.ExtTreeMap.getD_insert]
    by_cases same : label.2 = step
    · subst same
      simp [ih]
    · simp [same, ih]

theorem mem_indexOf (labels : List (String × UInt16)) (step : UInt16) :
    step ∈ indexOf labels ↔ ∃ name, (name, step) ∈ labels := by
  induction labels with
  | nil => simp [indexOf]
  | cons label labels ih =>
    have unfolded : indexOf (label :: labels) =
        (indexOf labels).insert label.2 (label.1 :: (indexOf labels).getD label.2 []) := rfl
    rw [unfolded, Std.ExtTreeMap.mem_insert, ih]
    constructor
    · rintro (same | ⟨name, member⟩)
      · exact ⟨label.1, by simp [← Std.LawfulEqCmp.eq_of_compare same]⟩
      · exact ⟨name, by simp [member]⟩
    · rintro ⟨name, member⟩
      rcases List.mem_cons.mp member with rfl | member
      · exact .inl (by simp)
      · exact .inr ⟨name, member⟩

/-- The names of a step, in the order of names. -/
theorem namesAt_eq (t : LabelTable) (step : UInt16) :
    t.namesAt step = (t.entries.filter (·.2 = step)).map Prod.fst := by
  rw [namesAt, byStep_eq, getD_indexOf]

theorem mem_namesAt {t : LabelTable} {name : String} {step : UInt16} :
    name ∈ t.namesAt step ↔ t.stepOf? name = some step := by
  rw [namesAt_eq, ← mem_entries]
  simp

theorem nodup_namesAt (t : LabelTable) (step : UInt16) : (t.namesAt step).Nodup := by
  rw [namesAt_eq]
  exact t.nodup_entries.sublist (List.filter_sublist.map _)

theorem mem_byStep {t : LabelTable} {step : UInt16} :
    step ∈ t.byStep ↔ ∃ name, t.stepOf? name = some step := by
  simp [byStep_eq, mem_indexOf, mem_entries]

end LabelTable

end Formicary
