import Mathlib.Data.List.Forall2
import Formicary.Proofs.Lexemes
import Formicary.Proofs.Survey

/-!
# The grammar of program texts

Which texts are programs, said line by line: a line is blank, declares a label or holds a step. It
can be wrong in three ways. Whether it declares a label badly or holds one step too many depends on
the lines before it; whether its words make an instruction depends on the labels of the whole text.
The assembler accepts a text exactly when no line is wrong, and otherwise names the first line that
is wrong in one of the first two ways, or else the first that is wrong in the third.
-/

namespace Formicary

open Text

/-- A line without its comment and outer blanks. -/
def content (line : String) : List Char :=
  trim (beforeComment line.toList)

/-- A line that declares a label: a name and a colon. -/
def Declares (line : String) (name : List Char) : Prop :=
  ∃ cs, content line = cs ++ [':'] ∧ name = trim cs

/-- A line that holds a step. -/
def HoldsStep (line : String) : Prop :=
  content line ≠ [] ∧ (content line).getLast? ≠ some ':'

instance : DecidablePred HoldsStep := fun line =>
  inferInstanceAs (Decidable (content line ≠ [] ∧ (content line).getLast? ≠ some ':'))

/-- The lines that hold steps. -/
def stepLines (lines : List String) : List String :=
  lines.filter HoldsStep

/-- A label that some lines declare, and how many steps stand before its declaration. -/
def Declared (lines : List String) (name : List Char) (steps : Nat) : Prop :=
  ∃ front line back, lines = front ++ line :: back ∧ Declares line name ∧
    steps = (stepLines front).length

/-- A line that declares something else than a new label: no single word, the number of a step, or a
label that a line before it declares. -/
def Misdeclares (before : List String) (line : String) : Prop :=
  ∃ name, Declares line name ∧
    ¬(IsWord name ∧ (∀ n, Numeral 10 name n → UInt16.size ≤ n) ∧
      ∀ earlier ∈ before, ¬Declares earlier name)

/-- A line that holds one step too many. -/
def Overflows (before : List String) (line : String) : Prop :=
  HoldsStep line ∧ maxSteps ≤ (stepLines before).length

/-- A line that holds a step whose words are no instruction. -/
def Misspelt (lines : List String) (line : String) : Prop :=
  HoldsStep line ∧ ∀ i : Instruction, ¬i.Written (Declared lines) (words (content line))

/-- The steps of some lines with the numbers of their lines. -/
def numberedSteps (lines : List String) : List (Nat × List Char) :=
  ((lines.zipIdx 1).filter (HoldsStep ·.1)).map fun (line, n) => (n, content line)

section Kinds

variable {line : String} {name text : List Char}

theorem ofLine_eq_label_iff : Statement.ofLine line = .label name ↔ Declares line name := by
  unfold Declares content
  rcases Statement.ofLine_cases line with ⟨text, means⟩ | ⟨cs, text, means⟩ |
    ⟨last, ends, other, means⟩
  · rw [means, text]
    simp
  · rw [means, text]
    simp [eq_comm]
  · rw [means]
    constructor
    · intro same
      cases same
    · intro declares
      obtain ⟨cs, shape, -⟩ := declares
      rw [shape, List.getLast?_concat] at ends
      exact absurd (Option.some.inj ends).symm other

theorem ofLine_eq_step_iff :
    Statement.ofLine line = .step text ↔ HoldsStep line ∧ text = content line := by
  unfold HoldsStep content
  rcases Statement.ofLine_cases line with ⟨shape, means⟩ | ⟨cs, shape, means⟩ |
    ⟨last, ends, other, means⟩
  · rw [means, shape]
    simp
  · rw [means, shape]
    simp
  · rw [means, ends]
    have some : trim (beforeComment line.toList) ≠ [] := by
      intro empty
      rw [empty] at ends
      cases ends
    simp [some, other, eq_comm]

theorem not_holdsStep_of_declares (declares : Declares line name) : ¬HoldsStep line := by
  intro holds
  have label := ofLine_eq_label_iff.mpr declares
  rw [ofLine_eq_step_iff.mpr ⟨holds, rfl⟩] at label
  cases label

theorem eq_of_declares {other : List Char} (first : Declares line name)
    (second : Declares line other) : other = name := by
  have label := ofLine_eq_label_iff.mpr first
  rw [ofLine_eq_label_iff.mpr second] at label
  cases label
  rfl

end Kinds

section Places

variable {lines : List String} {line : String} {name : List Char} {k : Nat}

theorem mem_stepLines_iff : line ∈ stepLines lines ↔ line ∈ lines ∧ HoldsStep line := by
  simp [stepLines]

theorem stepLines_concat_of_holds (holds : HoldsStep line) :
    stepLines (lines ++ [line]) = stepLines lines ++ [line] := by
  simp [stepLines, List.filter_append, holds]

theorem stepLines_concat_of_not (other : ¬HoldsStep line) :
    stepLines (lines ++ [line]) = stepLines lines := by
  simp [stepLines, List.filter_append, other]

theorem numberedSteps_concat_of_holds (holds : HoldsStep line) :
    numberedSteps (lines ++ [line]) =
      numberedSteps lines ++ [(lines.length + 1, content line)] := by
  simp [numberedSteps, List.zipIdx_append, List.filter_append, holds, Nat.add_comm]

theorem numberedSteps_concat_of_not (other : ¬HoldsStep line) :
    numberedSteps (lines ++ [line]) = numberedSteps lines := by
  simp [numberedSteps, List.zipIdx_append, List.filter_append, other]

theorem length_numberedSteps (lines : List String) :
    (numberedSteps lines).length = (stepLines lines).length := by
  induction lines using List.reverseRecOn with
  | nil => rfl
  | append_singleton lines line ih =>
    by_cases holds : HoldsStep line
    · rw [numberedSteps_concat_of_holds holds, stepLines_concat_of_holds holds]
      simp [ih]
    · rw [numberedSteps_concat_of_not holds, stepLines_concat_of_not holds, ih]

theorem declared_concat_iff :
    Declared (lines ++ [line]) name k ↔
      Declared lines name k ∨ Declares line name ∧ k = (stepLines lines).length := by
  unfold Declared
  simp only [concat_eq_append_cons_iff]
  constructor
  · rintro ⟨front, other, back, ⟨rest, -, rfl⟩ | ⟨-, rfl, rfl⟩, declares, steps⟩
    · exact .inl ⟨front, other, rest, rfl, declares, steps⟩
    · exact .inr ⟨declares, steps⟩
  · rintro (⟨front, other, back, rfl, declares, steps⟩ | ⟨declares, steps⟩)
    · exact ⟨front, other, back ++ [line], .inl ⟨back, rfl, rfl⟩, declares, steps⟩
    · exact ⟨lines, line, [], .inr ⟨rfl, rfl, rfl⟩, declares, steps⟩

theorem Declared.le (declared : Declared lines name k) : k ≤ (stepLines lines).length := by
  obtain ⟨front, line, back, rfl, -, rfl⟩ := declared
  unfold stepLines
  rw [List.filter_append, List.length_append]
  exact Nat.le_add_right _ _

theorem exists_declared_iff :
    (∃ k, Declared lines name k) ↔ ∃ line ∈ lines, Declares line name := by
  constructor
  · rintro ⟨k, front, line, back, rfl, declares, -⟩
    exact ⟨line, by simp, declares⟩
  · rintro ⟨line, member, declares⟩
    obtain ⟨front, back, rfl⟩ := List.append_of_mem member
    exact ⟨_, front, line, back, rfl, declares, rfl⟩

end Places

/-- What a survey of some lines has found. -/
structure Surveyed (lines : List String) (s : Survey) : Prop where
  line : s.line = lines.length
  steps : s.steps.toList = numberedSteps lines
  few : (stepLines lines).length ≤ maxSteps
  labels : ∀ name step, s.labels.stepOf? (String.ofList name) = some step ↔
    Declared lines name step.toNat

namespace Surveyed

variable {lines : List String} {s s' : Survey} {line : String}

theorem size_steps (h : Surveyed lines s) : s.steps.size = (stepLines lines).length := by
  rw [← Array.length_toList, h.steps, length_numberedSteps]

/-- Sixteen bits hold the number of every step, and that of the place behind the last one. -/
theorem lt_size (h : Surveyed lines s) {k : Nat} (inside : k ≤ (stepLines lines).length) :
    k < UInt16.size :=
  Nat.lt_of_le_of_lt (inside.trans h.few) (by decide)

/-- A name is free exactly when no line declares it. -/
theorem stepOf?_eq_none_iff (h : Surveyed lines s) {name : List Char} :
    s.labels.stepOf? (String.ofList name) = none ↔ ∀ earlier ∈ lines, ¬Declares earlier name := by
  rw [Option.eq_none_iff_forall_ne_some]
  simp only [ne_eq, h.labels]
  constructor
  · intro free earlier member declares
    obtain ⟨k, declared⟩ := exists_declared_iff.mpr ⟨earlier, member, declares⟩
    have small := h.lt_size declared.le
    apply free (UInt16.ofNat k)
    rw [UInt16.toNat_ofNat_of_lt' small]
    exact declared
  · intro free step declared
    obtain ⟨earlier, member, declares⟩ := exists_declared_iff.mp ⟨_, declared⟩
    exact free earlier member declares

theorem blank (h : Surveyed lines s) (means : Statement.ofLine line = .blank) :
    Surveyed (lines ++ [line]) { s with line := s.line + 1 } := by
  have other : ¬HoldsStep line := by
    intro holds
    rw [ofLine_eq_step_iff.mpr ⟨holds, rfl⟩] at means
    cases means
  have silent : ∀ name, ¬Declares line name := by
    intro name declares
    rw [ofLine_eq_label_iff.mpr declares] at means
    cases means
  refine ⟨by simp [h.line], ?_, ?_, ?_⟩
  · rw [numberedSteps_concat_of_not other]
    exact h.steps
  · rw [stepLines_concat_of_not other]
    exact h.few
  · intro name step
    rw [declared_concat_iff]
    simp [silent, h.labels]

theorem label (h : Surveyed lines s) {name : List Char} (declares : Declares line name)
    {labels : LabelTable}
    (added : s.labels.insert? (String.ofList name) s.steps.size.toUInt16 = some labels) :
    Surveyed (lines ++ [line]) { s with line := s.line + 1, labels } := by
  have other := not_holdsStep_of_declares declares
  have small := h.lt_size (Nat.le_of_eq h.size_steps)
  refine ⟨by simp [h.line], ?_, ?_, ?_⟩
  · rw [numberedSteps_concat_of_not other]
    exact h.steps
  · rw [stepLines_concat_of_not other]
    exact h.few
  · intro word step
    obtain ⟨free, all⟩ := LabelTable.insert?_eq_some_iff.mp added
    rw [declared_concat_iff, all]
    by_cases same : word = name
    · subst same
      have fresh : ¬Declared lines word step.toNat := by
        rw [← h.labels, free]
        nofun
      rw [if_pos rfl, Option.some.injEq]
      simp only [fresh, declares, true_and, false_or]
      rw [← UInt16.toNat_inj, Nat.toUInt16_eq, UInt16.toNat_ofNat_of_lt' small, h.size_steps]
      exact eq_comm
    · have apart : ¬Declares line word := fun second => same (eq_of_declares declares second)
      rw [if_neg fun equal => same (String.ofList_inj.mp equal), h.labels]
      simp only [apart, false_and, or_false]

theorem step (h : Surveyed lines s) (holds : HoldsStep line) (room : s.steps.size < maxSteps) :
    Surveyed (lines ++ [line])
      { s with line := s.line + 1, steps := s.steps.push (s.line + 1, content line) } := by
  have silent : ∀ name, ¬Declares line name :=
    fun name declares => not_holdsStep_of_declares declares holds
  refine ⟨by simp [h.line], ?_, ?_, ?_⟩
  · rw [numberedSteps_concat_of_holds holds, Array.toList_push, h.steps, h.line]
  · rw [stepLines_concat_of_holds holds, List.length_append, ← h.size_steps]
    exact Nat.succ_le_of_lt room
  · intro name step
    rw [declared_concat_iff]
    simp [silent, h.labels]

end Surveyed

section FirstReading

variable {lines : List String} {s : Survey} {line : String}

theorem line_of_read_eq_error {e : AssemblyError} (refused : s.read line = .error e) :
    e.line = s.line + 1 := by
  unfold Survey.read at refused
  dsimp only at refused
  split at refused
  · cases refused
  · split at refused
    · cases refused
      rfl
    · cases refused
  · split at refused
    · cases refused
      rfl
    · cases refused

theorem exists_read_eq_error (wrong : ∀ s', s.read line ≠ .ok s') (number : s.line = lines.length) :
    ∃ mistake, s.read line = .error ⟨lines.length + 1, mistake⟩ := by
  obtain ⟨⟨place, mistake⟩, refused⟩ := exists_error_of_ne_ok wrong
  have same : place = s.line + 1 := line_of_read_eq_error refused
  rw [same, number] at refused
  exact ⟨mistake, refused⟩

/-- One more line is read unless it is wrong after the lines before it. -/
theorem Surveyed.read (h : Surveyed lines s) (line : String) :
    (¬Misdeclares lines line ∧ ¬Overflows lines line ∧
      ∃ s', s.read line = .ok s' ∧ Surveyed (lines ++ [line]) s') ∨
    ((Misdeclares lines line ∨ Overflows lines line) ∧
      ∃ mistake, s.read line = .error ⟨lines.length + 1, mistake⟩) := by
  cases means : Statement.ofLine line with
  | blank =>
    refine .inl ⟨?_, ?_, _, Survey.read_blank means s, h.blank means⟩
    · intro misdeclares
      obtain ⟨name, declares, -⟩ := misdeclares
      rw [ofLine_eq_label_iff.mpr declares] at means
      cases means
    · intro overflows
      rw [ofLine_eq_step_iff.mpr ⟨overflows.1, rfl⟩] at means
      cases means
  | label name =>
    have declares := ofLine_eq_label_iff.mp means
    have names : IsLabelName name ↔ IsWord name ∧ ∀ n, Numeral 10 name n → UInt16.size ≤ n := by
      rw [← readUInt16?_eq_none_iff]
      exact ⟨fun named => ⟨named.toIsWord, named.unnumbered⟩, fun named => ⟨named.1, named.2⟩⟩
    by_cases proper : IsLabelName name ∧ s.labels.stepOf? (String.ofList name) = none
    · obtain ⟨named, free⟩ := proper
      obtain ⟨labels, added⟩ := LabelTable.exists_insert? free s.steps.size.toUInt16
      refine .inl ⟨?_, ?_, _, (Survey.read_label means).mpr ⟨named, labels, added, rfl⟩,
        h.label declares added⟩
      · intro misdeclares
        obtain ⟨other, second, wrong⟩ := misdeclares
        rw [eq_of_declares declares second] at wrong
        obtain ⟨word, unnumbered⟩ := names.mp named
        exact wrong ⟨word, unnumbered, h.stepOf?_eq_none_iff.mp free⟩
      · intro overflows
        exact not_holdsStep_of_declares declares overflows.1
    · refine .inr ⟨.inl ⟨name, declares, ?_⟩, exists_read_eq_error ?_ h.line⟩
      · intro good
        obtain ⟨word, unnumbered, fresh⟩ := good
        exact proper ⟨names.mpr ⟨word, unnumbered⟩, h.stepOf?_eq_none_iff.mpr fresh⟩
      · intro s' read
        obtain ⟨named, labels, added, -⟩ := (Survey.read_label means).mp read
        exact proper ⟨named, (LabelTable.insert?_eq_some_iff.mp added).1⟩
  | step text =>
    obtain ⟨holds, rfl⟩ := ofLine_eq_step_iff.mp means
    by_cases room : s.steps.size < maxSteps
    · refine .inl ⟨?_, ?_, _, (Survey.read_step means).mpr ⟨room, rfl⟩, h.step holds room⟩
      · intro misdeclares
        obtain ⟨name, declares, -⟩ := misdeclares
        exact not_holdsStep_of_declares declares holds
      · intro overflows
        have full := overflows.2
        rw [← h.size_steps] at full
        exact absurd room (Nat.not_lt.mpr full)
    · refine .inr ⟨.inr ⟨holds, ?_⟩, exists_read_eq_error ?_ h.line⟩
      · rw [← h.size_steps]
        exact Nat.not_lt.mp room
      · intro s' read
        exact room ((Survey.read_step means).mp read).1

theorem survey_concat (lines : List String) (line : String) :
    survey (lines ++ [line]) = survey lines >>= (·.read line) :=
  foldlM_concat Survey.read Survey.start lines line

theorem surveyed_start : Surveyed [] .start where
  line := rfl
  steps := rfl
  few := Nat.zero_le _
  labels := by
    intro name step
    simp [Survey.start, Declared]

/-- Neither does the line declare a label badly nor does it hold one step too many. -/
def Proper (before : List String) (line : String) : Prop :=
  ¬Misdeclares before line ∧ ¬Overflows before line

/-- The first reading ends at the first line that is wrong after the lines before it. -/
theorem survey_cases (lines : List String) :
    (AtEach Proper lines ∧ ∃ s, survey lines = .ok s ∧ Surveyed lines s) ∨
    ∃ front line back mistake, lines = front ++ line :: back ∧ AtEach Proper front ∧
      (Misdeclares front line ∨ Overflows front line) ∧
      survey lines = .error ⟨front.length + 1, mistake⟩ := by
  -- A line is judged by the lines before it, so the induction adds lines at the end.
  induction lines using List.reverseRecOn with
  | nil => exact .inl ⟨atEach_nil, _, rfl, surveyed_start⟩
  | append_singleton lines line ih =>
    rw [survey_concat, atEach_concat_iff]
    rcases ih with ⟨proper, s, read, h⟩ | ⟨front, first, back, mistake, rfl, proper, wrong, refused⟩
    · rw [read, ok_bind]
      rcases h.read line with ⟨declared, room, s', next, h'⟩ | ⟨wrong, mistake, refused⟩
      · exact .inl ⟨⟨proper, declared, room⟩, s', next, h'⟩
      · exact .inr ⟨lines, line, [], mistake, rfl, proper, wrong, refused⟩
    · rw [refused, error_bind]
      exact .inr ⟨front, first, back ++ [line], mistake, by simp, proper, wrong, rfl⟩

end FirstReading

section SecondReading

variable {labels : LabelTable}

/-- Reads the step of a line with a number. -/
def spell (labels : LabelTable) (step : Nat × List Char) : Except AssemblyError Instruction :=
  (Instruction.ofText labels step.2).mapError fun mistake => ⟨step.1, mistake⟩

theorem exists_of_mem_forall₂ {R : String → Instruction → Prop} {lines : List String}
    {steps : List Instruction} (related : List.Forall₂ R lines steps) {line : String}
    (member : line ∈ lines) : ∃ i, R line i := by
  induction related with
  | nil => cases member
  | cons first _ ih =>
    rcases List.mem_cons.mp member with rfl | later
    · exact ⟨_, first⟩
    · exact ih later

/-- The second reading ends at the first line whose step is no instruction. -/
theorem mapM_spell_cases (labels : LabelTable) (lines : List String) :
    (∃ steps, (numberedSteps lines).mapM (spell labels) = .ok steps ∧
      List.Forall₂ (fun line i => Instruction.ofText labels (content line) = .ok i)
        (stepLines lines) steps) ∨
    ∃ front line back mistake, lines = front ++ line :: back ∧ HoldsStep line ∧
      (∀ i, Instruction.ofText labels (content line) ≠ .ok i) ∧
      (∀ earlier ∈ front, HoldsStep earlier →
        ∃ i, Instruction.ofText labels (content earlier) = .ok i) ∧
      (numberedSteps lines).mapM (spell labels) = .error ⟨front.length + 1, mistake⟩ := by
  -- The labels are those of the whole text and stay as they are while lines are added.
  induction lines using List.reverseRecOn with
  | nil => exact .inl ⟨[], rfl, .nil⟩
  | append_singleton lines line ih =>
    by_cases holds : HoldsStep line
    · rw [numberedSteps_concat_of_holds holds, stepLines_concat_of_holds holds, mapM_concat]
      rcases ih with ⟨steps, read, spelled⟩ |
        ⟨front, first, back, mistake, rfl, step, wrong, fine, refused⟩
      · rw [read, ok_bind]
        cases text : Instruction.ofText labels (content line) with
        | ok i =>
          refine .inl ⟨steps ++ [i], ?_, List.rel_append spelled (.cons text .nil)⟩
          exact map_eq_ok_iff.mpr ⟨i, mapError_eq_ok_iff.mpr text, rfl⟩
        | error mistake =>
          refine .inr ⟨lines, line, [], mistake, rfl, holds, ?_, ?_, ?_⟩
          · rw [text]
            nofun
          · intro earlier member step
            exact exists_of_mem_forall₂ spelled (mem_stepLines_iff.mpr ⟨member, step⟩)
          · unfold spell
            rw [text]
            rfl
      · rw [refused, error_bind]
        exact .inr ⟨front, first, back ++ [line], mistake, by simp, step, wrong, fine, rfl⟩
    · rw [numberedSteps_concat_of_not holds, stepLines_concat_of_not holds]
      rcases ih with fine | ⟨front, first, back, mistake, rfl, wrong⟩
      · exact .inl fine
      · exact .inr ⟨front, first, back ++ [line], mistake, by simp, wrong⟩

variable {lines : List String} {s : Survey} {line : String}

theorem Surveyed.ofText_eq_ok_iff (h : Surveyed lines s) (holds : HoldsStep line)
    {i : Instruction} :
    Instruction.ofText s.labels (content line) = .ok i ↔
      i.Written (Declared lines) (words (content line)) :=
  Instruction.ofText_eq_ok_iff_written h.labels holds.1

theorem Surveyed.not_misspelt_iff (h : Surveyed lines s) :
    ¬Misspelt lines line ↔
      (HoldsStep line → ∃ i, Instruction.ofText s.labels (content line) = .ok i) := by
  unfold Misspelt
  rw [not_and]
  refine imp_congr_right fun holds => ?_
  simp only [h.ofText_eq_ok_iff holds, not_forall, not_not]

theorem Surveyed.instructions_eq (h : Surveyed lines s) :
    s.instructions = (numberedSteps lines).mapM (spell s.labels) := by
  unfold Survey.instructions
  rw [h.steps]
  rfl

end SecondReading

/-- What the machine code of a text has. -/
structure Renders (lines : List String) (m : MachineCode) (steps : List Instruction) : Prop where
  code : instructions m.code = .ok steps
  spelled : List.Forall₂ (fun line i => ∀ j : Instruction,
    j.Written (Declared lines) (words (content line)) ↔ j = i) (stepLines lines) steps
  labels : ∀ name k, Declared lines name k ↔
    ∃ step, m.labels.stepOf? (String.ofList name) = some step ∧ step.toNat = k

section Assembly

variable {lines : List String} {s : Survey} {line : String}

theorem Surveyed.renders (h : Surveyed lines s) {steps : List Instruction}
    (spelled : List.Forall₂ (fun line i => Instruction.ofText s.labels (content line) = .ok i)
      (stepLines lines) steps) :
    Renders lines ⟨steps.flatMap Instruction.encode, s.labels⟩ steps where
  code := instructions_flatMap_encode steps
  spelled := by
    have holds : ∀ line ∈ stepLines lines, HoldsStep line :=
      fun line member => (mem_stepLines_iff.mp member).2
    refine List.Forall₂.imp ?_ ((List.forall₂_and_left _ _).mpr ⟨holds, spelled⟩)
    intro line i both j
    rw [← h.ofText_eq_ok_iff both.1, both.2, Except.ok.injEq]
    exact eq_comm
  labels := by
    intro name k
    constructor
    · intro declared
      have small := h.lt_size declared.le
      refine ⟨UInt16.ofNat k, ?_, UInt16.toNat_ofNat_of_lt' small⟩
      rw [h.labels, UInt16.toNat_ofNat_of_lt' small]
      exact declared
    · rintro ⟨step, found, rfl⟩
      exact (h.labels name step).mp found

theorem atEach_proper_iff :
    AtEach Proper lines ↔
      AtEach (fun before line => ¬Misdeclares before line) lines ∧
        (stepLines lines).length ≤ maxSteps := by
  induction lines using List.reverseRecOn with
  | nil => exact ⟨fun _ => ⟨atEach_nil, Nat.zero_le _⟩, fun _ => atEach_nil⟩
  | append_singleton lines line ih =>
    rw [atEach_concat_iff, atEach_concat_iff, ih]
    unfold Proper Overflows
    by_cases holds : HoldsStep line
    · rw [stepLines_concat_of_holds holds, List.length_append, List.length_singleton]
      grind
    · rw [stepLines_concat_of_not holds]
      grind

/-- A text is assembled, or some first line of it is wrong. -/
theorem assemble_cases (lines : List String) :
    (AtEach Proper lines ∧ (∀ line ∈ lines, ¬Misspelt lines line) ∧
      ∃ m steps, assemble lines = .ok m ∧ Renders lines m steps) ∨
    ∃ front line back mistake, lines = front ++ line :: back ∧
      assemble lines = .error ⟨front.length + 1, mistake⟩ ∧
      (AtEach Proper front ∧ (Misdeclares front line ∨ Overflows front line) ∨
        AtEach Proper lines ∧ Misspelt lines line ∧
          ∀ earlier ∈ front, ¬Misspelt lines earlier) := by
  unfold assemble
  rcases survey_cases lines with ⟨proper, s, read, h⟩ |
    ⟨front, line, back, mistake, split, proper, wrong, refused⟩
  · rw [read]
    simp only [h.instructions_eq]
    rcases mapM_spell_cases s.labels lines with ⟨steps, spells, spelled⟩ |
      ⟨front, line, back, mistake, split, holds, wrong, fine, refused⟩
    · refine .inl ⟨proper, ?_, _, steps, by rw [spells]; rfl, h.renders spelled⟩
      intro line member
      rw [h.not_misspelt_iff]
      intro holds
      exact exists_of_mem_forall₂ spelled (mem_stepLines_iff.mpr ⟨member, holds⟩)
    · refine .inr ⟨front, line, back, mistake, split, by rw [refused]; rfl, .inr ⟨proper, ?_, ?_⟩⟩
      · refine ⟨holds, ?_⟩
        intro i written
        exact wrong i ((h.ofText_eq_ok_iff holds).mpr written)
      · intro earlier member
        rw [h.not_misspelt_iff]
        exact fine earlier member
  · rw [refused]
    exact .inr ⟨front, line, back, mistake, split, rfl, .inl ⟨proper, wrong⟩⟩

end Assembly

/-- A text is a program exactly when every label is declared once and properly, no more than 65535
lines hold steps, and the words of each such line are an instruction, jumps going to steps or to
labels of the text. The machine code then has for each of these lines the one instruction that the
line spells, and for each label the number of steps before it. The line of an error is the first
that is wrong after those before it; only if there is none, it is the first that is no instruction.
-/
theorem assemble_grammar (lines : List String) :
    ((∃ m, assemble lines = .ok m) ↔
      AtEach (fun before line => ¬Misdeclares before line) lines ∧
        (stepLines lines).length ≤ maxSteps ∧ ∀ line ∈ lines, ¬Misspelt lines line) ∧
    (∀ m, assemble lines = .ok m → ∃ steps, Renders lines m steps) ∧
    (∀ e, assemble lines = .error e → ∃ front line back, lines = front ++ line :: back ∧
      e.line = front.length + 1 ∧
      (AtEach Proper front ∧ (Misdeclares front line ∨ Overflows front line) ∨
        AtEach Proper lines ∧ Misspelt lines line ∧
          ∀ earlier ∈ front, ¬Misspelt lines earlier)) := by
  have conditions : AtEach (fun before line => ¬Misdeclares before line) lines ∧
      (stepLines lines).length ≤ maxSteps ∧ (∀ line ∈ lines, ¬Misspelt lines line) ↔
        AtEach Proper lines ∧ ∀ line ∈ lines, ¬Misspelt lines line := by
    rw [atEach_proper_iff, and_assoc]
  rw [conditions]
  rcases assemble_cases lines with ⟨proper, spelled, m, steps, assembled, renders⟩ |
    ⟨front, line, back, mistake, split, refused, wrong⟩
  · refine ⟨⟨fun _ => ⟨proper, spelled⟩, fun _ => ⟨m, assembled⟩⟩, ?_, ?_⟩
    · intro other same
      rw [assembled] at same
      cases same
      exact ⟨steps, renders⟩
    · intro e failed
      rw [assembled] at failed
      cases failed
  · refine ⟨⟨?_, ?_⟩, ?_, ?_⟩
    · intro done
      obtain ⟨m, assembled⟩ := done
      rw [refused] at assembled
      cases assembled
    · intro good
      obtain ⟨proper, spelled⟩ := good
      rcases wrong with ⟨-, wrong⟩ | ⟨-, misspelt, -⟩
      · obtain ⟨declared, room⟩ := proper front line back split
        exact absurd wrong (not_or.mpr ⟨declared, room⟩)
      · exact absurd misspelt (spelled line (by simp [split]))
    · intro m assembled
      rw [refused] at assembled
      cases assembled
    · intro e failed
      rw [refused] at failed
      cases failed
      exact ⟨front, line, back, split, rfl, wrong⟩

/-- A text with jumps back and forth, the second to a label behind the last step. -/
def backAndForth : List String :=
  ["top: # again", "dec A", "Jnz top", "JMP end", "end:"]

theorem assemble_grammar_backAndForth :
    (∀ line ∈ backAndForth, ¬Misspelt backAndForth line) ∧ Declared backAndForth "end".toList 3 ∧
      ∃ m steps, assemble backAndForth = .ok m ∧ Renders backAndForth m steps ∧
        steps.length = 3 := by
  obtain ⟨accepts, renders, -⟩ := assemble_grammar backAndForth
  have assembled : (assemble backAndForth).toOption.map
      (fun m => (m.labels.stepOf? "end", (instructions m.code).toOption.map List.length)) =
        some (some 3, some 3) := by
    decide +kernel
  cases code : assemble backAndForth with
  | error e =>
    rw [code] at assembled
    cases assembled
  | ok m =>
    rw [code] at assembled
    obtain ⟨found, length⟩ := Prod.mk.inj (Option.some.inj assembled)
    obtain ⟨steps, h⟩ := renders m code
    rw [h.code] at length
    exact ⟨(accepts.mp ⟨m, code⟩).2.2, (h.labels _ _).mpr ⟨3, found, rfl⟩, m, steps, rfl, h,
      Option.some.inj length⟩

end Formicary
