import Formicary.Code.Assembly
import Formicary.Proofs.Encoding
import Formicary.Proofs.Except
import Formicary.Proofs.Labels
import Formicary.Proofs.Words

/-!
# What the two readings of a program text find

A text is a list of statements. The first reading accepts it when its labels are declared once each,
under proper names, and its steps are not too many; it then knows for each label how many steps
stand before it. The second reading gives one instruction for each step.
-/

namespace Formicary

open Text

/-- Whether a label may have a name: one word that is not a step number. -/
structure IsLabelName (name : List Char) : Prop extends IsWord name where
  unnumbered : readUInt16? name = none

/-- What the lines of a text say. -/
def statements (lines : List String) : List Statement :=
  lines.map Statement.ofLine

/-- The texts of the steps among some statements. -/
def stepTexts : List Statement → List (List Char)
  | [] => []
  | .step text :: rest => text :: stepTexts rest
  | _ :: rest => stepTexts rest

/-- The labels that some statements declare, each with the number of steps before it, when `count`
steps stand before all of them. -/
def declarations (count : Nat) : List Statement → List (String × Nat)
  | [] => []
  | .blank :: rest => declarations count rest
  | .label name :: rest => (String.ofList name, count) :: declarations count rest
  | .step _ :: rest => declarations (count + 1) rest

theorem stepTexts_append (front back : List Statement) :
    stepTexts (front ++ back) = stepTexts front ++ stepTexts back := by
  fun_induction stepTexts front <;> simp_all [stepTexts]

theorem declarations_append (count : Nat) (front back : List Statement) :
    declarations count (front ++ back) =
      declarations count front ++ declarations (count + (stepTexts front).length) back := by
  fun_induction declarations count front <;>
    simp_all [stepTexts, declarations, Nat.add_assoc, Nat.add_comm 1]

/-- The conditions under which the first reading accepts some statements, after it found some labels
and `count` steps. -/
structure Accepts (labels : LabelTable) (count : Nat) (found : List Statement) : Prop where
  named : ∀ d ∈ declarations count found, IsLabelName d.1.toList
  fresh : ∀ d ∈ declarations count found, labels.stepOf? d.1 = none
  once : ((declarations count found).map Prod.fst).Nodup
  few : count + (stepTexts found).length ≤ maxSteps

theorem accepts_nil {labels : LabelTable} {count : Nat} :
    Accepts labels count [] ↔ count ≤ maxSteps := by
  constructor
  · intro h
    simpa [stepTexts] using h.few
  · intro few
    constructor <;> simp [declarations, stepTexts, few]

theorem accepts_blank {labels : LabelTable} {count : Nat} {rest : List Statement} :
    Accepts labels count (.blank :: rest) ↔ Accepts labels count rest :=
  ⟨fun h => ⟨h.named, h.fresh, h.once, h.few⟩, fun h => ⟨h.named, h.fresh, h.once, h.few⟩⟩

theorem accepts_step {labels : LabelTable} {count : Nat} {text : List Char}
    {rest : List Statement} :
    Accepts labels count (.step text :: rest) ↔ Accepts labels (count + 1) rest := by
  have length : (stepTexts (.step text :: rest)).length = (stepTexts rest).length + 1 := rfl
  constructor
  · intro h
    refine ⟨h.named, h.fresh, h.once, ?_⟩
    have := h.few
    omega
  · intro h
    refine ⟨h.named, h.fresh, h.once, ?_⟩
    have := h.few
    omega

theorem accepts_label {labels : LabelTable} {count : Nat} {name : List Char}
    {rest : List Statement} :
    Accepts labels count (.label name :: rest) ↔
      IsLabelName name ∧ ∃ grown, labels.insert? (String.ofList name) count.toUInt16 = some grown ∧
        Accepts grown count rest := by
  have unfolded : declarations count (.label name :: rest) =
      (String.ofList name, count) :: declarations count rest := rfl
  constructor
  · intro h
    have named := h.named
    have fresh := h.fresh
    have once := h.once
    rw [unfolded, List.forall_mem_cons] at named fresh
    rw [unfolded, List.map_cons, List.nodup_cons] at once
    obtain ⟨grown, added⟩ := LabelTable.exists_insert? fresh.1 count.toUInt16
    refine ⟨by simpa using named.1, grown, added, named.2, ?_, once.2, h.few⟩
    intro d member
    have different : d.1 ≠ String.ofList name := by
      intro equal
      have repeated := List.mem_map_of_mem (f := Prod.fst) member
      exact once.1 (equal ▸ repeated)
    rw [(LabelTable.insert?_eq_some_iff.mp added).2, if_neg different]
    exact fresh.2 d member
  · rintro ⟨named, grown, added, h⟩
    obtain ⟨free, all⟩ := LabelTable.insert?_eq_some_iff.mp added
    -- The grown table has the new label, so no later declaration repeats it.
    have later : ∀ d ∈ declarations count rest,
        d.1 ≠ String.ofList name ∧ labels.stepOf? d.1 = none := by
      intro d member
      have fresh := h.fresh d member
      rw [all] at fresh
      split at fresh
      · cases fresh
      · next different => exact ⟨different, fresh⟩
    refine ⟨?_, ?_, ?_, h.few⟩
    · rw [unfolded, List.forall_mem_cons]
      exact ⟨by simpa using named, h.named⟩
    · rw [unfolded, List.forall_mem_cons]
      exact ⟨free, fun d member => (later d member).2⟩
    · rw [unfolded, List.map_cons, List.nodup_cons]
      refine ⟨?_, h.once⟩
      intro member
      obtain ⟨d, member, equal⟩ := List.mem_map.mp member
      exact (later d member).1 equal

theorem declareLabel_eq_ok_iff {labels grown : LabelTable} {name : List Char} {count : Nat} :
    declareLabel labels name count = .ok grown ↔
      IsLabelName name ∧ labels.insert? (String.ofList name) count.toUInt16 = some grown := by
  unfold declareLabel
  split
  · next empty =>
    simp only [reduceCtorEq, false_iff, not_and]
    intro named
    exact absurd (List.isEmpty_iff.mp empty) named.ne_nil
  · next inhabited =>
    split
    · next blank =>
      obtain ⟨c, member, blank⟩ := List.any_eq_true.mp blank
      simp only [reduceCtorEq, false_iff, not_and]
      intro named
      exact absurd blank (by simp [named.solid c member])
    · next solid =>
      split
      · next number =>
        simp only [reduceCtorEq, false_iff, not_and]
        intro named
        exact absurd number (by simp [named.unnumbered])
      · next number =>
        have named : IsLabelName name := by
          refine ⟨⟨?_, ?_⟩, by simpa using number⟩
          · simpa using inhabited
          · simpa using solid
        dsimp only
        split
        · next taken => simp [taken]
        · next added => simp [named, added]

/-- What a reading of some statements adds to what was found before. -/
structure Survey.Adds (s : Survey) (found : List Statement) (s' : Survey) : Prop where
  steps : s'.steps.toList.map Prod.snd = s.steps.toList.map Prod.snd ++ stepTexts found
  labels : ∀ name step, s'.labels.stepOf? name = some step ↔
    s.labels.stepOf? name = some step ∨
      ∃ k, (name, k) ∈ declarations s.steps.size found ∧ k.toUInt16 = step

namespace Survey

theorem adds_blank {s s' : Survey} {rest : List Statement} {line : Nat}
    (h : Adds { s with line } rest s') : s.Adds (.blank :: rest) s' :=
  ⟨h.steps, h.labels⟩

theorem adds_label {s s' : Survey} {name : List Char} {rest : List Statement} {line : Nat}
    {labels : LabelTable}
    (added : s.labels.insert? (String.ofList name) s.steps.size.toUInt16 = some labels)
    (h : Adds { s with line, labels } rest s') : s.Adds (.label name :: rest) s' := by
  refine ⟨h.steps, ?_⟩
  intro other step
  obtain ⟨free, all⟩ := LabelTable.insert?_eq_some_iff.mp added
  have unfolded : declarations s.steps.size (.label name :: rest) =
      (String.ofList name, s.steps.size) :: declarations s.steps.size rest := rfl
  rw [h.labels, all, unfolded]
  by_cases same : other = String.ofList name
  · subst same
    simp [free, or_and_right, exists_or]
  · simp [same]

theorem adds_step {s s' : Survey} {text : List Char} {rest : List Statement} {line : Nat}
    (h : Adds { s with line, steps := s.steps.push (line, text) } rest s') :
    s.Adds (.step text :: rest) s' := by
  refine ⟨?_, ?_⟩
  · rw [h.steps]
    simp [stepTexts]
  · intro name step
    rw [h.labels]
    simp [declarations]

theorem read_blank {line : String} (means : Statement.ofLine line = .blank) (s : Survey) :
    s.read line = .ok { s with line := s.line + 1 } := by
  simp [read, means]

theorem read_label {line : String} {name : List Char}
    (means : Statement.ofLine line = .label name) {s s' : Survey} :
    s.read line = .ok s' ↔ IsLabelName name ∧
      ∃ labels, s.labels.insert? (String.ofList name) s.steps.size.toUInt16 = some labels ∧
        s' = { s with line := s.line + 1, labels } := by
  simp only [read, means]
  split
  · next refused =>
    simp only [reduceCtorEq, false_iff]
    rintro ⟨named, labels, added, -⟩
    rw [declareLabel_eq_ok_iff.mpr ⟨named, added⟩] at refused
    cases refused
  · next labels accepted =>
    obtain ⟨named, added⟩ := declareLabel_eq_ok_iff.mp accepted
    simp [named, added, eq_comm]

theorem read_step {line : String} {text : List Char}
    (means : Statement.ofLine line = .step text) {s s' : Survey} :
    s.read line = .ok s' ↔ s.steps.size < maxSteps ∧
      s' = { s with line := s.line + 1, steps := s.steps.push (s.line + 1, text) } := by
  by_cases full : maxSteps ≤ s.steps.size
  · simp [read, means, full, Nat.not_lt.mpr full]
  · simp [read, means, full, eq_comm, Nat.lt_of_not_le full]

theorem foldlM_read_cons {s s' : Survey} {line : String} {lines : List String} :
    (line :: lines).foldlM read s = .ok s' ↔
      ∃ next, s.read line = .ok next ∧ lines.foldlM read next = .ok s' := by
  rw [List.foldlM_cons]
  cases s.read line <;> simp [bind, Except.bind]

theorem statements_cons (line : String) (lines : List String) :
    statements (line :: lines) = Statement.ofLine line :: statements lines :=
  rfl

/-- What was read met the conditions, and the reading found what the lines say. -/
theorem of_foldlM_read {lines : List String} {s s' : Survey} (few : s.steps.size ≤ maxSteps)
    (h : lines.foldlM read s = .ok s') :
    Accepts s.labels s.steps.size (statements lines) ∧ s.Adds (statements lines) s' := by
  -- What was found so far decides which labels are still free, so it varies in the induction.
  induction lines generalizing s with
  | nil =>
    cases h
    exact ⟨accepts_nil.mpr few, by simp [stepTexts, statements], by simp [declarations, statements]⟩
  | cons line lines ih =>
    obtain ⟨next, first, rest⟩ := foldlM_read_cons.mp h
    rw [statements_cons]
    cases means : Statement.ofLine line with
    | blank =>
      rw [read_blank means] at first
      cases first
      obtain ⟨accepted, adds⟩ := ih (s := { s with line := s.line + 1 }) few rest
      exact ⟨accepts_blank.mpr accepted, adds_blank adds⟩
    | label name =>
      obtain ⟨named, labels, added, rfl⟩ := (read_label means).mp first
      obtain ⟨accepted, adds⟩ := ih (s := { s with line := s.line + 1, labels }) few rest
      exact ⟨accepts_label.mpr ⟨named, labels, added, accepted⟩, adds_label added adds⟩
    | step text =>
      obtain ⟨room, rfl⟩ := (read_step means).mp first
      obtain ⟨accepted, adds⟩ := ih (by rw [Array.size_push]; exact room) rest
      rw [Array.size_push] at accepted
      exact ⟨accepts_step.mpr accepted, adds_step adds⟩

/-- A text that meets the conditions is read to its end. -/
theorem exists_foldlM_read {lines : List String} {s : Survey}
    (h : Accepts s.labels s.steps.size (statements lines)) :
    ∃ s', lines.foldlM read s = .ok s' := by
  induction lines generalizing s with
  | nil => exact ⟨s, rfl⟩
  | cons line lines ih =>
    simp only [foldlM_read_cons]
    rw [statements_cons] at h
    cases means : Statement.ofLine line with
    | blank =>
      rw [means, accepts_blank] at h
      obtain ⟨s', rest⟩ := ih (s := { s with line := s.line + 1 }) h
      exact ⟨s', _, read_blank means s, rest⟩
    | label name =>
      rw [means, accepts_label] at h
      obtain ⟨named, labels, added, h⟩ := h
      obtain ⟨s', rest⟩ := ih (s := { s with line := s.line + 1, labels }) h
      exact ⟨s', _, (read_label means).mpr ⟨named, labels, added, rfl⟩, rest⟩
    | step text =>
      rw [means, accepts_step] at h
      have room := h.few
      obtain ⟨s', rest⟩ :=
        ih (s := { s with line := s.line + 1, steps := s.steps.push (s.line + 1, text) })
          (by simpa using h)
      exact ⟨s', _, (read_step means).mpr ⟨by omega, rfl⟩, rest⟩

end Survey

theorem declarations_bounds {count : Nat} {found : List Statement} {d : String × Nat}
    (member : d ∈ declarations count found) :
    count ≤ d.2 ∧ d.2 ≤ count + (stepTexts found).length := by
  fun_induction declarations count found with
  | case1 => cases member
  | case2 count rest ih => exact ih member
  | case3 count name rest ih =>
    rcases List.mem_cons.mp member with rfl | member
    · exact ⟨Nat.le_refl _, Nat.le_add_right _ _⟩
    · exact ih member
  | case4 count text rest ih =>
    have := ih member
    simp only [stepTexts, List.length_cons]
    omega

theorem label_mem_of_mem_declarations {count : Nat} {found : List Statement} {d : String × Nat}
    (member : d ∈ declarations count found) : Statement.label d.1.toList ∈ found := by
  fun_induction declarations count found with
  | case1 => cases member
  | case2 count rest ih => exact List.mem_cons_of_mem _ (ih member)
  | case3 count name rest ih =>
    rcases List.mem_cons.mp member with rfl | member
    · simp
    · exact List.mem_cons_of_mem _ (ih member)
  | case4 count text rest ih => exact List.mem_cons_of_mem _ (ih member)

/-- The second reading gives one instruction for each step. -/
theorem Survey.instructions_eq_ok_iff {s : Survey} {steps : List Instruction} :
    s.instructions = .ok steps ↔
      (s.steps.toList.map Prod.snd).map (Instruction.ofText s.labels) = steps.map .ok := by
  rw [instructions, mapM_eq_ok_iff]
  induction s.steps.toList generalizing steps with
  | nil => simp
  | cons found rest ih =>
    cases steps with
    | nil => simp
    | cons step steps => simp only [List.map_cons, List.cons.injEq, mapError_eq_ok_iff, ih]

/-- The labels that an accepted text declares make a table. -/
theorem Accepts.exists_labels {lines : List String} (h : Accepts .empty 0 (statements lines)) :
    ∃ labels : LabelTable, ∀ name step, labels.stepOf? name = some step ↔
      ∃ k, (name, k) ∈ declarations 0 (statements lines) ∧ k.toUInt16 = step := by
  obtain ⟨found, surveyed⟩ := Survey.exists_foldlM_read (s := .start) h
  obtain ⟨-, adds⟩ := Survey.of_foldlM_read (Nat.zero_le _) surveyed
  exact ⟨found.labels, by simpa [Survey.start] using adds.labels⟩

/-- What it means that some lines assemble to a program with some steps. -/
structure Assembles (lines : List String) (m : MachineCode) (steps : List Instruction) :
    Prop where
  accepted : Accepts .empty 0 (statements lines)
  labels : ∀ name step, m.labels.stepOf? name = some step ↔
    ∃ k, (name, k) ∈ declarations 0 (statements lines) ∧ k.toUInt16 = step
  spelled : (stepTexts (statements lines)).map (Instruction.ofText m.labels) = steps.map .ok
  code : m.code = steps.flatMap Instruction.encode

theorem assemble_eq_ok_iff {lines : List String} {m : MachineCode} :
    assemble lines = .ok m ↔ ∃ steps, Assembles lines m steps := by
  constructor
  · intro h
    cases surveyed : survey lines with
    | error e => simp [assemble, surveyed] at h
    | ok found =>
      obtain ⟨accepted, adds⟩ := Survey.of_foldlM_read (Nat.zero_le _) surveyed
      cases spelled : found.instructions with
      | error e => simp [assemble, surveyed, spelled, Except.map] at h
      | ok steps =>
        simp only [assemble, surveyed, spelled, Except.map, Except.ok.injEq] at h
        subst h
        rw [Survey.instructions_eq_ok_iff, adds.steps] at spelled
        exact ⟨steps, accepted, by simpa [Survey.start] using adds.labels, spelled, rfl⟩
  · rintro ⟨steps, h⟩
    obtain ⟨found, surveyed⟩ := Survey.exists_foldlM_read (s := .start) h.accepted
    obtain ⟨-, adds⟩ := Survey.of_foldlM_read (Nat.zero_le _) surveyed
    -- Both tables have the labels that the lines declare.
    have labels : found.labels = m.labels := by
      ext name step
      rw [h.labels]
      simpa [Survey.start] using adds.labels name step
    have spelled : found.instructions = .ok steps := by
      rw [Survey.instructions_eq_ok_iff, adds.steps, labels]
      exact h.spelled
    have read : survey lines = .ok found := surveyed
    simp only [assemble, read, spelled, Except.map, labels, ← h.code]

namespace Assembles

variable {lines : List String} {m : MachineCode} {steps : List Instruction}

theorem read (h : Assembles lines m steps) : instructions m.code = .ok steps := by
  rw [h.code, instructions_flatMap_encode]

theorem length_eq (h : Assembles lines m steps) :
    (stepTexts (statements lines)).length = steps.length := by
  simpa using congrArg List.length h.spelled

theorem few (h : Assembles lines m steps) : steps.length ≤ maxSteps := by
  rw [← h.length_eq]
  simpa using h.accepted.few

theorem inside (h : Assembles lines m steps) :
    ∀ name step, m.labels.stepOf? name = some step → step.toNat ≤ steps.length := by
  intro name step found
  obtain ⟨k, member, rfl⟩ := (h.labels name step).mp found
  have bound := (declarations_bounds member).2
  rw [h.length_eq] at bound
  have := Nat.mod_le k UInt16.size
  simp only [Nat.toUInt16_eq, UInt16.toNat_ofNat']
  omega

end Assembles

theorem assembles_iff {lines : List String} {m : MachineCode} {steps : List Instruction} :
    Assembles lines m steps ↔ assemble lines = .ok m ∧ instructions m.code = .ok steps := by
  constructor
  · intro h
    exact ⟨assemble_eq_ok_iff.mpr ⟨steps, h⟩, h.read⟩
  · rintro ⟨assembled, read⟩
    obtain ⟨again, h⟩ := assemble_eq_ok_iff.mp assembled
    rw [h.read] at read
    cases read
    exact h

end Formicary
