import Formicary.Proofs.Listing

/-!
# When a listing is read back

A listing leads back to the program it lists when its label lines declare different proper names,
or nothing, and its jump lines are taken for jumps. Apart from a coincidence of two misreadings that
make up for each other, these conditions are also necessary.
-/

namespace Formicary

open Text

/-- The conditions under which the listing of a program with some steps is read back. -/
structure Relistable (m : MachineCode) (steps : List Instruction) : Prop where
  few : steps.length ≤ maxSteps
  inside : ∀ name step, m.labels.stepOf? name = some step → step.toNat ≤ steps.length
  /-- Every label line declares a proper name or nothing. -/
  proper : ∀ name step, m.labels.stepOf? name = some step →
    Statement.ofLine (name ++ ":") = .blank ∨
      ∃ word, Statement.ofLine (name ++ ":") = .label word ∧ IsLabelName word
  /-- No two label lines declare the same name. -/
  distinct : ∀ name other, (m.labels.stepOf? name).isSome → (m.labels.stepOf? other).isSome →
    ∀ word, Statement.ofLine (name ++ ":") = .label word →
      Statement.ofLine (other ++ ":") = .label word → name = other
  /-- No label that a jump is listed with hides its end or ends like a declaration. -/
  targets : ∀ i ∈ steps, ∀ step ∈ i.target?, ∀ name ∈ m.labels.nameAt? step,
    '#' ∉ name.toList ∧ (trim name.toList).getLast? ≠ some ':'

/-- Two misreadings at once: a label line that holds a step and a jump line that declares a label. -/
def Garbled (m : MachineCode) (steps : List Instruction) : Prop :=
  (∃ name step text, m.labels.stepOf? name = some step ∧
      Statement.ofLine (name ++ ":") = .step text) ∧
    ∃ i ∈ steps, ∃ word, Statement.ofLine (i.toLine m.labels.nameAt?) = .label word

section Lines

variable {nameAt? : UInt16 → Option String} {i : Instruction}

theorem named_or_unnamed (nameAt? : UInt16 → Option String) (i : Instruction) :
    (∃ step name, i.target? = some step ∧ nameAt? step = some name) ∨
      ∀ step ∈ i.target?, nameAt? step = none := by
  cases jumps : i.target? with
  | none => simp
  | some step => cases named : nameAt? step <;> simp [named]

/-- A target without a label is listed as its number. -/
theorem spells_unnamed (unnamed : ∀ step ∈ i.target?, nameAt? step = none) (labels : LabelTable) :
    (Statement.ofLine (i.toLine nameAt?)).Spells labels i := by
  have word : ∀ step ∈ i.target?,
      Operands.targetWord nameAt? step = toString step.toNat := by
    intro step jumps
    simp [Operands.targetWord, unnamed step jumps]
  apply spells_toLine
  · intro step jumps
    rw [word step jumps]
    exact (Nat.toList_repr (n := step.toNat)) ▸ isPlain_toDigits step.toNat
  · intro step jumps
    rw [word step jumps, readTarget?, readUInt16?_toString]

theorem toLine_ne_blank : Statement.ofLine (i.toLine nameAt?) ≠ .blank := by
  rcases named_or_unnamed nameAt? i with ⟨step, name, jumps, named⟩ | unnamed
  · by_cases colon : (trim (beforeComment name.toList)).getLast? = some ':'
    · obtain ⟨word, means⟩ := ofLine_jump_eq_label jumps named colon
      simp [means]
    · simp [ofLine_jump_eq_step jumps named colon]
  · obtain ⟨text, means, -⟩ := spells_unnamed unnamed .empty
    simp [means]

end Lines

section Steps

/-- Steps are read back one by one when each line is taken for a step. -/
theorem spelled_iff {labels : LabelTable} {toLine : Instruction → String}
    {steps : List Instruction}
    (lines : ∀ i ∈ steps, ∃ text, Statement.ofLine (toLine i) = .step text) :
    (stepTexts (statements (steps.map toLine))).map (Instruction.ofText labels) = steps.map .ok ↔
      ∀ i ∈ steps, (Statement.ofLine (toLine i)).Spells labels i := by
  induction steps with
  | nil => simp [statements, stepTexts]
  | cons i steps ih =>
    obtain ⟨⟨text, first⟩, rest⟩ := List.forall_mem_cons.mp lines
    rw [List.map_cons, Survey.statements_cons, first, List.forall_mem_cons, ← ih rest, first]
    simp [stepTexts, Statement.Spells]

theorem length_stepTexts_le (found : List Statement) : (stepTexts found).length ≤ found.length := by
  fun_induction stepTexts found with
  | case1 => exact Nat.le_refl 0
  | case2 text rest ih => exact Nat.succ_le_succ ih
  | case3 s rest _ ih => exact Nat.le_succ_of_le ih

theorem all_steps_of_length {found : List Statement}
    (h : (stepTexts found).length = found.length) : ∀ s ∈ found, ∃ text, s = .step text := by
  fun_induction stepTexts found with
  | case1 => simp
  | case2 text rest ih =>
    rw [List.forall_mem_cons]
    exact ⟨⟨text, rfl⟩, ih (Nat.succ.inj h)⟩
  | case3 s rest _ ih =>
    have := length_stepTexts_le rest
    rw [List.length_cons] at h
    omega

theorem mem_stepTexts {text : List Char} {found : List Statement} :
    text ∈ stepTexts found ↔ .step text ∈ found := by
  fun_induction stepTexts found with
  | case1 => simp
  | case2 other rest ih => simp [ih]
  | case3 s rest other ih =>
    have different : Statement.step text ≠ s := fun same => other text same.symm
    simp [ih, different]

theorem length_stepTexts_weave_cons {index : Std.ExtTreeMap UInt16 (List String)} {line : String}
    (step : ∃ text, Statement.ofLine line = .step text) (lines : List String) (start : Nat) :
    (stepTexts (statements (weave index start (line :: lines)))).length =
      (stepTexts (statements (labelLines index start))).length +
        (1 + (stepTexts (statements (weave index (start + 1) lines))).length) := by
  obtain ⟨text, means⟩ := step
  rw [weave, statements_append, stepTexts_append, Survey.statements_cons, means,
    List.length_append, stepTexts, List.length_cons, Nat.add_comm 1]

theorem length_le_stepTexts_weave {index : Std.ExtTreeMap UInt16 (List String)}
    {lines : List String} (steps : ∀ line ∈ lines, ∃ text, Statement.ofLine line = .step text)
    (start : Nat) :
    lines.length ≤ (stepTexts (statements (weave index start lines))).length := by
  induction lines generalizing start with
  | nil => exact Nat.zero_le _
  | cons line lines ih =>
    obtain ⟨first, rest⟩ := List.forall_mem_cons.mp steps
    have := ih rest (start + 1)
    rw [length_stepTexts_weave_cons first, List.length_cons]
    omega

/-- A label line that holds a step adds it to those of the program. -/
theorem length_lt_stepTexts_weave {t : LabelTable} {lines : List String}
    (steps : ∀ line ∈ lines, ∃ text, Statement.ofLine line = .step text)
    {name : String} {step : Nat} {text : List Char} (member : name ∈ t.namesBefore step)
    (means : Statement.ofLine (name ++ ":") = .step text) {start : Nat} (low : start ≤ step)
    (high : step ≤ start + lines.length) :
    lines.length < (stepTexts (statements (weave t.byStep start lines))).length := by
  have extra : 0 < (stepTexts (statements (labelLines t.byStep step))).length := by
    apply List.length_pos_of_mem
    rw [mem_stepTexts, t.labelLines_byStep, ← means]
    exact List.mem_map_of_mem (List.mem_map_of_mem member)
  -- The induction walks to the place of the label; the lines after it count for one step each.
  induction lines generalizing start with
  | nil =>
    obtain rfl : start = step := Nat.le_antisymm low high
    exact extra
  | cons line lines ih =>
    obtain ⟨first, rest⟩ := List.forall_mem_cons.mp steps
    rw [length_stepTexts_weave_cons first]
    rw [List.length_cons] at high ⊢
    by_cases here : start = step
    · subst here
      have := @length_le_stepTexts_weave t.byStep lines rest (start + 1)
      omega
    · have later : start + 1 ≤ step := by omega
      have := ih rest later (by omega)
      omega

end Steps

namespace Relistable

variable {m : MachineCode} {steps : List Instruction} (h : Relistable m steps)

include h

theorem quiet : m.labels.Quiet := by
  intro name step found text
  rcases h.proper name step found with means | ⟨word, means, -⟩ <;> simp [means]

theorem toLine_eq_step : ∀ i ∈ steps,
    ∃ text, Statement.ofLine (i.toLine m.labels.nameAt?) = .step text := by
  intro i member
  rcases named_or_unnamed m.labels.nameAt? i with ⟨step, name, jumps, named⟩ | unnamed
  · obtain ⟨unmarked, open_end⟩ := h.targets i member step jumps name named
    rw [← beforeComment_of_not_mem unmarked] at open_end
    exact ⟨_, ofLine_jump_eq_step jumps named open_end⟩
  · obtain ⟨text, means, -⟩ := spells_unnamed unnamed .empty
    exact ⟨text, means⟩

/-- Each line is read back once the labels are those that the listing declares. -/
theorem spells {labels : LabelTable}
    (known : ∀ name step word, m.labels.stepOf? name = some step → declared? name = some word →
      labels.stepOf? word = some step) :
    ∀ i ∈ steps, (Statement.ofLine (i.toLine m.labels.nameAt?)).Spells labels i := by
  intro i member
  rcases named_or_unnamed m.labels.nameAt? i with ⟨step, name, jumps, named⟩ | unnamed
  · obtain ⟨unmarked, open_end⟩ := h.targets i member step jumps name named
    have found := LabelTable.stepOf?_of_nameAt? named
    have means := Statement.ofLine_colon unmarked
    have word : IsLabelName (trim name.toList) := by
      rcases h.proper name step found with blank | ⟨word, again, proper⟩
      · simp [means] at blank
      · rw [means] at again
        cases again
        exact proper
    have declares : declared? name = some (String.ofList (trim name.toList)) := by
      simp [declared?, means]
    rw [spells_jump jumps named (by rwa [beforeComment_of_not_mem unmarked]),
      beforeComment_of_not_mem unmarked]
    refine ⟨trim name.toList, ?_, ?_⟩
    · rw [← words_trim, words_word word.toIsWord]
    · rw [readTarget?, word.unnumbered]
      exact known name step _ found declares
  · exact spells_unnamed unnamed labels

theorem all_steps : ∀ line ∈ steps.map (·.toLine m.labels.nameAt?),
    ∃ text, Statement.ofLine line = .step text := by
  intro line member
  obtain ⟨i, inside, rfl⟩ := List.mem_map.mp member
  exact h.toLine_eq_step i inside

theorem accepts :
    Accepts .empty 0
      (statements (weave m.labels.byStep 0 (steps.map (·.toLine m.labels.nameAt?)))) := by
  have texts := stepTexts_weave h.quiet 0 (steps.map (·.toLine m.labels.nameAt?))
  refine ⟨?_, ?_, ?_, ?_⟩
  · rintro ⟨word, k⟩ member
    obtain ⟨-, name, before, declares⟩ := (mem_declarations_weave h.all_steps h.quiet).mp member
    obtain ⟨s, found, -⟩ := LabelTable.mem_namesBefore.mp before
    rw [declared?_eq_some_iff] at declares
    rcases h.proper name s found with blank | ⟨other, means, proper⟩
    · simp [declares] at blank
    · rw [declares] at means
      cases means
      exact proper
  · intro d member
    exact LabelTable.stepOf?_empty d.1
  · rw [map_fst_declarations_weave h.all_steps h.quiet,
      nodup_filterMap_iff (nodup_flatMap_namesBefore ..)]
    intro name first other second word declares again
    obtain ⟨s, found, -⟩ := mem_flatMap_namesBefore.mp first
    obtain ⟨r, named, -⟩ := mem_flatMap_namesBefore.mp second
    rw [declared?_eq_some_iff] at declares again
    exact h.distinct name other (by simp [found]) (by simp [named]) word.toList declares again
  · have := length_stepTexts_le (statements (steps.map (·.toLine m.labels.nameAt?)))
    have few := h.few
    rw [texts]
    simp only [statements, List.length_map] at this
    simp only [statements]
    omega

/-- The listing assembles to the same steps, under the names that its label lines declare. -/
theorem assembles (read : instructions m.code = .ok steps) :
    ∃ lines m', m.listing = .ok lines ∧ Assembles lines m' steps ∧
      ∀ word step, m'.labels.stepOf? word = some step ↔
        ∃ name, m.labels.stepOf? name = some step ∧ declared? name = some word := by
  obtain ⟨labels, all⟩ := h.accepts.exists_labels
  have known : ∀ word step, labels.stepOf? word = some step ↔
      ∃ name, m.labels.stepOf? name = some step ∧ declared? name = some word := by
    intro word step
    simp only [all, mem_declarations_weave h.all_steps h.quiet, LabelTable.mem_namesBefore]
    constructor
    · rintro ⟨k, ⟨-, name, ⟨s, found, rfl⟩, declares⟩, rfl⟩
      exact ⟨name, by simpa using found, declares⟩
    · rintro ⟨name, found, declares⟩
      refine ⟨step.toNat, ⟨?_, name, ⟨step, found, rfl⟩, declares⟩, by simp⟩
      simpa using h.inside name step found
  refine ⟨_, ⟨steps.flatMap Instruction.encode, labels⟩,
    listing_eq_ok_iff.mpr ⟨steps, read, h.inside, rfl⟩, ⟨h.accepts, all, ?_, rfl⟩, known⟩
  rw [stepTexts_weave h.quiet, spelled_iff h.toLine_eq_step]
  apply h.spells
  intro name step word found declares
  exact (known word step).mpr ⟨name, found, declares⟩

end Relistable

section Necessity

variable {m m' : MachineCode} {steps : List Instruction} {labels : LabelTable}

/-- If the steps come back although one misreading is excluded, there was no misreading of labels:
it would have added a step. -/
theorem quiet_of_length (clear : ¬Garbled m steps)
    (inside : ∀ name step, m.labels.stepOf? name = some step → step.toNat ≤ steps.length)
    (count : (stepTexts (statements
      (weave m.labels.byStep 0 (steps.map (·.toLine m.labels.nameAt?))))).length = steps.length) :
    m.labels.Quiet := by
  intro name step found text means
  have all : ∀ line ∈ steps.map (·.toLine m.labels.nameAt?),
      ∃ text, Statement.ofLine line = .step text := by
    intro line member
    obtain ⟨i, used, rfl⟩ := List.mem_map.mp member
    cases reading : Statement.ofLine (i.toLine m.labels.nameAt?) with
    | blank => exact absurd reading toLine_ne_blank
    | label word =>
      exact absurd ⟨⟨name, step, text, found, means⟩, i, used, word, reading⟩ clear
    | step text => exact ⟨text, rfl⟩
  have before := LabelTable.mem_namesBefore.mpr ⟨step, found, rfl⟩
  have more := length_lt_stepTexts_weave all before means (Nat.zero_le _)
    (by simpa using inside name step found)
  rw [count, List.length_map] at more
  exact Nat.lt_irrefl _ more

/-- A jump that comes back was listed with a label that hides nothing. -/
theorem target_of_spells (quiet : m.labels.Quiet) {i : Instruction} {step : UInt16} {name : String}
    (jumps : i.target? = some step) (named : m.labels.nameAt? step = some name)
    (spells : (Statement.ofLine (i.toLine m.labels.nameAt?)).Spells labels i) :
    '#' ∉ name.toList ∧ (trim name.toList).getLast? ≠ some ':' := by
  have open_end : (trim (beforeComment name.toList)).getLast? ≠ some ':' := by
    intro colon
    obtain ⟨word, means⟩ := ofLine_jump_eq_label jumps named colon
    obtain ⟨text, again, -⟩ := spells
    simp [means] at again
  have unmarked : '#' ∉ name.toList := by
    intro marked
    have line := quiet name step (LabelTable.stepOf?_of_nameAt? named)
    rw [Statement.ofLine_colon_of_mem marked] at line
    rcases Statement.ofLine_cases name with ⟨empty, -⟩ | ⟨cs, text, -⟩ | ⟨last, -, -, means⟩
    · -- Nothing is left of the label, so the jump has no target.
      obtain ⟨w, words_eq, -⟩ := (spells_jump jumps named open_end).mp spells
      rw [← words_trim, empty] at words_eq
      simp at words_eq
    · exact open_end (by simp [text])
    · exact line _ means
  rw [beforeComment_of_not_mem unmarked] at open_end
  exact ⟨unmarked, open_end⟩

/-- A listing from which the same steps are assembled meets the conditions, unless misreadings make
up for each other. -/
theorem relistable_of_assembles {lines : List String} (listed : m.listing = .ok lines)
    (read : instructions m.code = .ok steps) (h : Assembles lines m' steps)
    (clear : ¬Garbled m steps) : Relistable m steps := by
  obtain ⟨again, same, inside, rfl⟩ := listing_eq_ok_iff.mp listed
  rw [read] at same
  cases same
  -- As many steps come back as were listed: first no label line can hold one, and then every line
  -- of an instruction must.
  have count := congrArg List.length h.spelled
  rw [List.length_map, List.length_map] at count
  have quiet := quiet_of_length clear inside count
  have texts := stepTexts_weave quiet 0 (steps.map (·.toLine m.labels.nameAt?))
  have all : ∀ line ∈ steps.map (·.toLine m.labels.nameAt?),
      ∃ text, Statement.ofLine line = .step text := by
    rw [texts] at count
    intro line member
    exact all_steps_of_length (by simpa [statements] using count) _ (List.mem_map_of_mem member)
  have spelled : ∀ i ∈ steps, (Statement.ofLine (i.toLine m.labels.nameAt?)).Spells m'.labels i := by
    have spelled := h.spelled
    rw [texts] at spelled
    exact (spelled_iff fun i member => all _ (List.mem_map_of_mem member)).mp spelled
  refine ⟨?_, inside, ?_, ?_, ?_⟩
  · have few := h.accepted.few
    omega
  · intro name step found
    cases means : Statement.ofLine (name ++ ":") with
    | blank => exact .inl rfl
    | label word =>
      refine .inr ⟨word, rfl, ?_⟩
      have declares : declared? name = some (String.ofList word) := by simp [declared?, means]
      have member := (mem_declarations_weave all quiet).mpr ⟨by simpa using inside name step found,
        name, LabelTable.mem_namesBefore.mpr ⟨step, found, rfl⟩, declares⟩
      simpa using h.accepted.named _ member
    | step text => exact absurd means (quiet name step found text)
  · intro name other first second word means also
    have once := h.accepted.once
    rw [map_fst_declarations_weave all quiet,
      nodup_filterMap_iff (nodup_flatMap_namesBefore ..)] at once
    have listed_name : ∀ name, (m.labels.stepOf? name).isSome →
        name ∈ (List.range' 0 ((steps.map (·.toLine m.labels.nameAt?)).length + 1)).flatMap
          m.labels.namesBefore := by
      intro name some
      obtain ⟨step, found⟩ := Option.isSome_iff_exists.mp some
      have := inside name step found
      exact mem_flatMap_namesBefore.mpr ⟨step, found, by simpa using Nat.lt_succ_of_le this⟩
    exact once name (listed_name name first) other (listed_name other second) (String.ofList word)
      (by simp [declared?, means]) (by simp [declared?, also])
  · intro i member step jumps name named
    exact target_of_spells quiet jumps named (spelled i member)

end Necessity

/-- Two labels of one step: the line of the first makes a declaration of the jump to it, and the line
of the second holds that jump. -/
def swappedLabels : LabelTable :=
  ((LabelTable.empty.insert? ":" 0).bind (·.insert? "JMP 0#" 0)).getD .empty

/-- The labels that the listing of this jump declares. -/
def rereadLabels : LabelTable :=
  ((LabelTable.empty.insert? ":" 0).bind (·.insert? "JMP" 1)).getD .empty

theorem stepOf?_swappedLabels {name : String} {step : UInt16} :
    swappedLabels.stepOf? name = some step ↔ (name = ":" ∨ name = "JMP 0#") ∧ step = 0 := by
  have entries : swappedLabels.entries = [(":", 0), ("JMP 0#", 0)] := by decide +kernel
  rw [← LabelTable.mem_entries, entries]
  simp [or_and_right]

/-- Misreadings can make up for each other: the jump line is lost to a declaration, and the label
line brings it back. -/
theorem assembles_swappedLabels :
    Garbled ⟨[0x40, 0, 0], swappedLabels⟩ [⟨.jmp, .target 0⟩] ∧
      MachineCode.listing ⟨[0x40, 0, 0], swappedLabels⟩ = .ok ["::", "JMP 0#:", "JMP :"] ∧
      Assembles ["::", "JMP 0#:", "JMP :"] ⟨[0x40, 0, 0], rereadLabels⟩ [⟨.jmp, .target 0⟩] := by
  have read : instructions [0x40, 0, 0] = .ok [⟨.jmp, .target 0⟩] :=
    instructions_flatMap_encode [⟨.jmp, .target 0⟩]
  refine ⟨⟨?_, ?_⟩, ?_, ?_⟩
  · refine ⟨"JMP 0#", 0, "JMP 0".toList, stepOf?_swappedLabels.mpr ⟨.inr rfl, rfl⟩, ?_⟩
    decide +kernel
  · refine ⟨⟨.jmp, .target 0⟩, List.mem_singleton_self _, "JMP".toList, ?_⟩
    decide +kernel
  · refine listing_eq_ok_iff.mpr ⟨_, read, ?_, by decide +kernel⟩
    intro name step found
    obtain ⟨-, rfl⟩ := stepOf?_swappedLabels.mp found
    exact Nat.zero_le _
  · exact assembles_iff.mpr ⟨by decide +kernel, read⟩

end Formicary
