import Mathlib.Data.Finset.Card
import Mathlib.Data.List.Sort
import Mathlib.Data.String.Basic
import Std.Data.ExtTreeSet
import Formicary.Proofs.PlainMerge

/-!
# Tables of labels as they grow

Labels are added one after the other, and a name that is taken is refused, so the first label of a
name counts. A table may also keep the names of each step beside the steps of the names and add
every label on both sides. The two sides stay inverses of each other: whatever was added, and in
whatever order, the side of the steps is determined by that of the names.
-/

namespace Formicary

open Text

namespace LabelTable

/-- Adds a label; a name that is taken keeps its step. -/
def add (t : LabelTable) (label : String × UInt16) : LabelTable :=
  (t.insert? label.1 label.2).getD t

/-- The table after some labels, the earliest first. -/
def ofLabels (labels : List (String × UInt16)) : LabelTable :=
  labels.foldl add empty

section Adding

variable {t : LabelTable} {label : String × UInt16} {labels : List (String × UInt16)}
  {name : String} {step : UInt16}

theorem insert?_eq_none_iff : t.insert? name step = none ↔ (t.stepOf? name).isSome := by
  unfold insert?
  rw [← mem_steps_iff]
  split <;> simp [*]

theorem add_of_taken (taken : (t.stepOf? label.1).isSome) : t.add label = t := by
  rw [add, insert?_eq_none_iff.mpr taken, Option.getD_none]

theorem insert?_of_free (free : t.stepOf? label.1 = none) :
    t.insert? label.1 label.2 = some (t.add label) := by
  obtain ⟨u, added⟩ := exists_insert? free label.2
  rw [add, added, Option.getD_some]

theorem stepOf?_add (t : LabelTable) (label : String × UInt16) (name : String) :
    (t.add label).stepOf? name =
      (t.stepOf? name).or (if name = label.1 then some label.2 else none) := by
  cases known : t.stepOf? label.1 with
  | none =>
    rw [(insert?_eq_some_iff.mp (insert?_of_free known)).2]
    by_cases same : name = label.1
    · simp [same, known]
    · simp [same]
  | some step =>
    rw [add_of_taken (by simp [known])]
    by_cases same : name = label.1
    · simp [same, known]
    · simp [same]

theorem stepOf?_add_eq_some_iff (free : t.stepOf? label.1 = none) :
    (t.add label).stepOf? name = some step ↔
      (name, step) = label ∨ t.stepOf? name = some step := by
  obtain ⟨added, target⟩ := label
  rw [stepOf?_add, Prod.mk.injEq]
  by_cases same : name = added
  · subst same
    simp [show t.stepOf? name = none from free, eq_comm]
  · simp [same]

/-- The labels that were there come first, then the first of the added ones. -/
theorem stepOf?_foldl_add (t : LabelTable) (labels : List (String × UInt16)) (name : String) :
    (labels.foldl add t).stepOf? name = (t.stepOf? name).or (labels.lookup name) := by
  induction labels generalizing t with
  | nil => simp
  | cons label labels ih =>
    rw [List.foldl_cons, ih, stepOf?_add, Option.or_assoc, List.lookup_cons]
    by_cases same : name = label.1
    · simp [same]
    · simp [same, beq_false_of_ne same]

theorem stepOf?_ofLabels (labels : List (String × UInt16)) (name : String) :
    (ofLabels labels).stepOf? name = labels.lookup name := by
  rw [ofLabels, stepOf?_foldl_add, stepOf?_empty, Option.none_or]

theorem isSome_stepOf?_ofLabels :
    ((ofLabels labels).stepOf? name).isSome ↔ name ∈ labels.map Prod.fst := by
  rw [stepOf?_ofLabels, List.lookup_isSome_iff, List.mem_map]
  simp only [beq_iff_eq, @eq_comm _ name]

theorem ofLabels_concat (labels : List (String × UInt16)) (label : String × UInt16) :
    ofLabels (labels ++ [label]) = (ofLabels labels).add label :=
  List.foldl_concat ..

end Adding

section Questions

variable {t : LabelTable} {name : String} {step : UInt16}

theorem pairwise_namesAt (t : LabelTable) (step : UInt16) :
    (t.namesAt step).Pairwise (· < ·) := by
  rw [namesAt_eq, List.pairwise_map]
  refine List.Pairwise.sublist List.filter_sublist (Std.ExtTreeMap.ordered_keys_toList.imp ?_)
  intro a b less
  exact compareOfLessAndEq_eq_lt.mp less

theorem nameAt?_eq_none_iff : t.nameAt? step = none ↔ ∀ name, t.stepOf? name ≠ some step := by
  rw [nameAt?, List.head?_eq_none_iff, List.eq_nil_iff_forall_not_mem]
  simp only [mem_namesAt]

/-- The label that stands for a step is the least of its labels. -/
theorem nameAt?_eq_some_iff :
    t.nameAt? step = some name ↔ t.stepOf? name = some step ∧
      ∀ other, t.stepOf? other = some step → toBytes name ≤ toBytes other := by
  have least {first : String} (named : t.nameAt? step = some first) (other : String)
      (also : t.stepOf? other = some step) : toBytes first ≤ toBytes other := by
    rcases (first_of_nameAt? named).2 other (mem_entries.mpr also) with rfl | less
    · exact List.le_refl _
    · exact List.le_of_lt less
  constructor
  · intro named
    exact ⟨mem_entries.mp (first_of_nameAt? named).1, least named⟩
  · rintro ⟨named, below⟩
    cases found : t.nameAt? step with
    | none => exact absurd named (nameAt?_eq_none_iff.mp found name)
    | some first =>
      have labelled := mem_entries.mp (first_of_nameAt? found).1
      have same := List.le_antisymm (least found name named) (below first labelled)
      rw [toBytes_inj.mp same]

/-- There are as many labels as there are names. -/
theorem size_ofLabels (labels : List (String × UInt16)) :
    (ofLabels labels).size = (labels.map Prod.fst).toFinset.card := by
  have names : ((ofLabels labels).entries.map Prod.fst).toFinset =
      (labels.map Prod.fst).toFinset := by
    ext name
    rw [List.mem_toFinset, List.mem_toFinset, ← @isSome_stepOf?_ofLabels labels, ← not_iff_not,
      ← stepOf?_eq_none_iff, Option.not_isSome_iff_eq_none]
  rw [← names, List.toFinset_card_of_nodup (nodup_entries _), List.length_map, length_entries]

end Questions

end LabelTable

/-- The step of each name and, beside it, the names of each labelled step. -/
structure TwoWayLabels where
  byName : Std.ExtTreeMap String UInt16
  byStep : Std.ExtTreeMap UInt16 (Std.ExtTreeSet String)

namespace TwoWayLabels

/-- No labels. -/
def empty : TwoWayLabels := ⟨∅, ∅⟩

/-- The step that a label names. -/
def stepOf? (x : TwoWayLabels) (name : String) : Option UInt16 :=
  x.byName[name]?

/-- Adds a label on both sides, unless its name is taken. Tells whether it was added. -/
def insert (x : TwoWayLabels) (label : String × UInt16) : TwoWayLabels × Bool :=
  if label.1 ∈ x.byName then (x, false)
  else
    let names := (x.byStep.getD label.2 ∅).insert label.1
    (⟨x.byName.insert label.1 label.2, x.byStep.insert label.2 names⟩, true)

/-- The labels that name a step, in order. -/
def namesAt (x : TwoWayLabels) (step : UInt16) : List String :=
  (x.byStep.getD step ∅).toList

/-- The first of the labels that name a step. -/
def nameAt? (x : TwoWayLabels) (step : UInt16) : Option String :=
  x.byStep[step]?.bind (·.toList.head?)

/-- The steps that have names listed, the highest first. -/
def stepsDescending (x : TwoWayLabels) : List UInt16 :=
  x.byStep.keys.reverse

/-- How many labels there are. -/
def size (x : TwoWayLabels) : Nat :=
  x.byName.size

/-- Both sides after some labels, the earliest first. -/
def ofLabels (labels : List (String × UInt16)) : TwoWayLabels :=
  labels.foldl (fun x label => (x.insert label).1) empty

theorem insert_of_refused (x : TwoWayLabels) {label : String × UInt16}
    (refused : (x.insert label).2 = false) : (x.insert label).1 = x := by
  unfold insert at refused ⊢
  split
  · rfl
  · next free =>
    rw [if_neg free] at refused
    cases refused

/-- All questions have the same answers as for a table. A label is added to both or refused by both,
and one that is refused leaves both sides as they were. -/
structure SameAs (x : TwoWayLabels) (t : LabelTable) : Prop where
  stepOf? : ∀ name, x.stepOf? name = t.stepOf? name
  namesAt : ∀ step, x.namesAt step = t.namesAt step
  nameAt? : ∀ step, x.nameAt? step = t.nameAt? step
  stepsDescending : x.stepsDescending = t.stepsDescending
  size : x.size = t.size
  added : ∀ label, (x.insert label).2 = (t.insert? label.1 label.2).isSome
  refused : ∀ label, (x.insert label).2 = false → (x.insert label).1 = x

/-- One side has the labels of a table, and the other is its inverse: it lists the steps with a
label and no others, each with exactly its labels. -/
structure Mirrors (x : TwoWayLabels) (t : LabelTable) : Prop where
  byName : x.byName = t.steps
  listed : ∀ step, step ∈ x.byStep ↔ ∃ name, t.stepOf? name = some step
  names : ∀ step name, name ∈ x.byStep.getD step ∅ ↔ t.stepOf? name = some step

namespace Mirrors

variable {x y : TwoWayLabels} {t : LabelTable}

theorem empty : TwoWayLabels.empty.Mirrors LabelTable.empty where
  byName := rfl
  listed := by simp [TwoWayLabels.empty]
  names := by simp [TwoWayLabels.empty]

/-- A label whose name is free goes to the names of its step, and to those of no other step. -/
theorem added (h : x.Mirrors t) {label : String × UInt16} (free : t.stepOf? label.1 = none) :
    Mirrors ⟨x.byName.insert label.1 label.2,
      x.byStep.insert label.2 ((x.byStep.getD label.2 ∅).insert label.1)⟩ (t.add label) where
  byName := by
    have absent : label.1 ∉ t.steps := by simp [LabelTable.mem_steps_iff, free]
    rw [h.byName, LabelTable.add, LabelTable.insert?, if_neg absent, Option.getD_some]
  listed := by
    intro step
    simp only [Std.ExtTreeMap.mem_insert, Std.LawfulEqOrd.compare_eq_iff_eq, h.listed,
      LabelTable.stepOf?_add_eq_some_iff free]
    constructor
    · rintro (rfl | ⟨name, named⟩)
      · exact ⟨label.1, .inl rfl⟩
      · exact ⟨name, .inr named⟩
    · rintro ⟨name, rfl | named⟩
      · exact .inl rfl
      · exact .inr ⟨name, named⟩
  names := by
    intro step name
    simp only [Std.ExtTreeMap.getD_insert, Std.LawfulEqOrd.compare_eq_iff_eq,
      LabelTable.stepOf?_add_eq_some_iff free]
    by_cases same : label.2 = step
    · subst same
      rw [if_pos rfl, Std.ExtTreeSet.mem_insert, Std.LawfulEqOrd.compare_eq_iff_eq, h.names]
      simp [Prod.ext_iff, eq_comm]
    · rw [if_neg same, h.names]
      simp [Prod.ext_iff, Ne.symm same]

/-- Adding a label on both sides keeps them inverses of each other. -/
theorem insert (h : x.Mirrors t) (label : String × UInt16) :
    (x.insert label).1.Mirrors (t.add label) ∧
      (x.insert label).2 = (t.insert? label.1 label.2).isSome := by
  have known : label.1 ∈ x.byName ↔ (t.stepOf? label.1).isSome := by
    rw [h.byName, LabelTable.mem_steps_iff]
  unfold TwoWayLabels.insert
  by_cases taken : label.1 ∈ x.byName
  · rw [if_pos taken, LabelTable.add_of_taken (known.mp taken),
      LabelTable.insert?_eq_none_iff.mpr (known.mp taken)]
    exact ⟨h, rfl⟩
  · have free := Option.not_isSome_iff_eq_none.mp (mt known.mpr taken)
    rw [if_neg taken, LabelTable.insert?_of_free free]
    exact ⟨h.added free, rfl⟩

/-- The labels of a table determine both sides. -/
theorem unique (hx : x.Mirrors t) (hy : y.Mirrors t) : x = y := by
  obtain ⟨names, steps⟩ := x
  obtain ⟨names', steps'⟩ := y
  obtain rfl : names = t.steps := hx.byName
  obtain rfl : names' = t.steps := hy.byName
  congr 1
  apply Std.ExtTreeMap.ext_getElem?
  intro step
  have same : step ∈ steps ↔ step ∈ steps' := (hx.listed step).trans (hy.listed step).symm
  have sets : steps.getD step ∅ = steps'.getD step ∅ := by
    apply Std.ExtTreeSet.ext_mem
    intro name
    exact (hx.names step name).trans (hy.names step name).symm
  rw [Std.ExtTreeMap.mem_iff_isSome_getElem?, Std.ExtTreeMap.mem_iff_isSome_getElem?] at same
  rw [Std.ExtTreeMap.getD_eq_getD_getElem?, Std.ExtTreeMap.getD_eq_getD_getElem?] at sets
  -- Equal names are not enough: a step without names, if one were listed, has as many as one that
  -- is not.
  cases first : steps[step]? with
  | none =>
    rw [first] at same
    exact (Option.not_isSome_iff_eq_none.mp fun listed => Bool.false_ne_true (same.mpr listed)).symm
  | some names =>
    rw [first] at same sets
    obtain ⟨names', second⟩ := Option.isSome_iff_exists.mp (same.mp rfl)
    rw [second] at sets ⊢
    exact congrArg some sets

theorem stepOf? (h : x.Mirrors t) (name : String) : x.stepOf? name = t.stepOf? name := by
  rw [TwoWayLabels.stepOf?, h.byName, LabelTable.stepOf?]

theorem size (h : x.Mirrors t) : x.size = t.size := by
  rw [TwoWayLabels.size, h.byName, LabelTable.size]

theorem namesAt (h : x.Mirrors t) (step : UInt16) : x.namesAt step = t.namesAt step := by
  have ascending : (x.namesAt step).Pairwise (· < ·) := by
    refine Std.ExtTreeSet.ordered_toList.imp ?_
    intro a b less
    exact compareOfLessAndEq_eq_lt.mp less
  apply ascending.eq_of_mem_iff (t.pairwise_namesAt step)
  intro name
  rw [TwoWayLabels.namesAt, Std.ExtTreeSet.mem_toList, h.names, LabelTable.mem_namesAt]

theorem nameAt? (h : x.Mirrors t) (step : UInt16) : x.nameAt? step = t.nameAt? step := by
  rw [LabelTable.nameAt?, ← h.namesAt, TwoWayLabels.nameAt?, TwoWayLabels.namesAt,
    Std.ExtTreeMap.getD_eq_getD_getElem?]
  cases x.byStep[step]? with
  | none => rfl
  | some names => rfl

theorem stepsDescending (h : x.Mirrors t) : x.stepsDescending = t.stepsDescending := by
  have descending : x.stepsDescending.Pairwise (· > ·) := pairwise_reverse_keys x.byStep
  apply descending.eq_of_mem_iff t.pairwise_stepsDescending
  intro step
  rw [TwoWayLabels.stepsDescending, List.mem_reverse, Std.ExtTreeMap.mem_keys, h.listed,
    LabelTable.mem_stepsDescending]

theorem sameAs (h : x.Mirrors t) : x.SameAs t :=
  ⟨h.stepOf?, h.namesAt, h.nameAt?, h.stepsDescending, h.size, fun label => (h.insert label).2,
    fun _ => x.insert_of_refused⟩

end Mirrors

theorem mirrors_foldl {x : TwoWayLabels} {t : LabelTable} (h : x.Mirrors t)
    (labels : List (String × UInt16)) :
    (labels.foldl (fun x label => (x.insert label).1) x).Mirrors (labels.foldl .add t) := by
  induction labels generalizing x t with
  | nil => exact h
  | cons label labels ih => exact ih (h.insert label).1

theorem mirrors_ofLabels (labels : List (String × UInt16)) :
    (ofLabels labels).Mirrors (.ofLabels labels) :=
  mirrors_foldl .empty labels

end TwoWayLabels

namespace LabelTable

/-- Of a table that some labels were added to, one after the other: a label is refused exactly when
its name was added before, and then changes nothing, so the first label of a name counts, and there
are as many labels as distinct names. The names of a step are those with that step, in the order of
their bytes, and the least of them stands for the step; the labelled steps are those with a name,
from the highest down. Tables that give every name the same step are equal, in whatever order the
labels came. The same holds where the names of each step are kept beside the steps of the names. -/
theorem determined_by_steps (labels : List (String × UInt16)) :
    (∀ name step, (ofLabels labels).insert? name step = none ↔ name ∈ labels.map Prod.fst) ∧
    (∀ name step, name ∈ labels.map Prod.fst →
      ofLabels (labels ++ [(name, step)]) = ofLabels labels) ∧
    (∀ name, (ofLabels labels).stepOf? name = labels.lookup name) ∧
    (ofLabels labels).size = (labels.map Prod.fst).toFinset.card ∧
    (∀ step name, name ∈ (ofLabels labels).namesAt step ↔
      (ofLabels labels).stepOf? name = some step) ∧
    (∀ step, ((ofLabels labels).namesAt step).Pairwise fun a b => toBytes a < toBytes b) ∧
    (∀ step name, (ofLabels labels).nameAt? step = some name ↔
      (ofLabels labels).stepOf? name = some step ∧
        ∀ other, (ofLabels labels).stepOf? other = some step → toBytes name ≤ toBytes other) ∧
    (∀ step, (ofLabels labels).nameAt? step = none ↔
      ∀ name, (ofLabels labels).stepOf? name ≠ some step) ∧
    (∀ step, step ∈ (ofLabels labels).stepsDescending ↔
      ∃ name, (ofLabels labels).stepOf? name = some step) ∧
    (ofLabels labels).stepsDescending.Pairwise (· > ·) ∧
    (∀ others, (∀ name, (ofLabels others).stepOf? name = (ofLabels labels).stepOf? name) →
      ofLabels others = ofLabels labels) ∧
    (TwoWayLabels.ofLabels labels).SameAs (ofLabels labels) ∧
    ∀ others, (∀ name, (TwoWayLabels.ofLabels others).stepOf? name =
        (TwoWayLabels.ofLabels labels).stepOf? name) →
      TwoWayLabels.ofLabels others = TwoWayLabels.ofLabels labels := by
  have mirrors := TwoWayLabels.mirrors_ofLabels labels
  refine ⟨?_, ?_, stepOf?_ofLabels labels, size_ofLabels labels, fun _ _ => mem_namesAt, ?_,
    fun _ _ => nameAt?_eq_some_iff, fun _ => nameAt?_eq_none_iff, fun _ => mem_stepsDescending,
    pairwise_stepsDescending _, fun _ => LabelTable.ext, mirrors.sameAs, ?_⟩
  · intro name step
    rw [insert?_eq_none_iff, isSome_stepOf?_ofLabels]
  · intro name step earlier
    rw [ofLabels_concat]
    exact add_of_taken (isSome_stepOf?_ofLabels.mpr earlier)
  · intro step
    exact (pairwise_namesAt _ step).imp toBytes_lt
  · intro others same
    have also := TwoWayLabels.mirrors_ofLabels others
    have tables : ofLabels others = ofLabels labels := by
      ext name : 1
      rw [← also.stepOf?, same, mirrors.stepOf?]
    rw [tables] at also
    exact also.unique mirrors

end LabelTable

end Formicary
