import Formicary.Proofs.Relisting

/-!
# Programs, their listings, and back

The listing of a program under proper labels is read back as the same program, with its header bytes
in their normal form, unless it shows a jump with a label that ends in a colon. Such a label can be
declared, but not jumped to by name.
-/

namespace Formicary

open Text

section ProperLabels

/-- Whether all labels of a program have proper names without comment marks. -/
def ProperLabels (m : MachineCode) : Prop :=
  ∀ name step, m.labels.stepOf? name = some step → IsLabelName name.toList ∧ '#' ∉ name.toList

/-- No jump of a listing shows a label that ends in a colon. -/
def OpenJumps (m : MachineCode) (steps : List Instruction) : Prop :=
  ∀ i ∈ steps, ∀ step ∈ i.target?, ∀ name ∈ m.labels.nameAt? step,
    name.toList.getLast? ≠ some ':'

variable {m : MachineCode} {steps : List Instruction}

theorem ofLine_proper {name : String} (h : IsLabelName name.toList ∧ '#' ∉ name.toList) :
    Statement.ofLine (name ++ ":") = .label name.toList := by
  rw [Statement.ofLine_colon h.2, trim_word h.1.toIsWord]

theorem declared?_proper {name : String} (h : IsLabelName name.toList ∧ '#' ∉ name.toList) :
    declared? name = some name := by
  rw [declared?_eq_some_iff]
  exact ofLine_proper h

theorem relistable_of_proper (proper : ProperLabels m) (few : steps.length ≤ maxSteps)
    (inside : ∀ name step, m.labels.stepOf? name = some step → step.toNat ≤ steps.length)
    (jumps : OpenJumps m steps) : Relistable m steps where
  few := few
  inside := inside
  proper name step found :=
    .inr ⟨_, ofLine_proper (proper name step found), (proper name step found).1⟩
  distinct := by
    intro name other first second word means also
    obtain ⟨s, found⟩ := Option.isSome_iff_exists.mp first
    obtain ⟨r, named⟩ := Option.isSome_iff_exists.mp second
    rw [ofLine_proper (proper name s found)] at means
    rw [ofLine_proper (proper other r named)] at also
    exact String.toList_inj.mp (Statement.label.inj (means.trans also.symm))
  targets i member step target name named := by
    have found := proper name step (LabelTable.stepOf?_of_nameAt? named)
    rw [trim_word found.1.toIsWord]
    exact ⟨found.2, jumps i member step target name named⟩

/-- A listing under proper labels leads back to the same steps and labels exactly when its jumps
show no label that ends in a colon. -/
theorem exists_listing_iff (read : instructions m.code = .ok steps) (proper : ProperLabels m)
    (few : steps.length ≤ maxSteps)
    (inside : ∀ name step, m.labels.stepOf? name = some step → step.toNat ≤ steps.length) :
    ∃ lines, m.listing = .ok lines ∧
      (assemble lines = .ok ⟨steps.flatMap Instruction.encode, m.labels⟩ ↔ OpenJumps m steps) := by
  have listed := listing_eq_ok_iff.mpr ⟨steps, read, inside, rfl⟩
  refine ⟨_, listed, ?_⟩
  constructor
  · intro assembled
    have h := assembles_iff.mpr ⟨assembled, instructions_flatMap_encode steps⟩
    -- A proper label is declared by its line, so the exception does not arise.
    have clear : ¬Garbled m steps := by
      rintro ⟨⟨name, step, text, found, means⟩, -⟩
      rw [ofLine_proper (proper name step found)] at means
      cases means
    have relistable := relistable_of_assembles listed read h clear
    intro i member step jumps name named
    have word := (proper name step (LabelTable.stepOf?_of_nameAt? named)).1.toIsWord
    have target := (relistable.targets i member step jumps name named).2
    rwa [trim_word word] at target
  · intro jumps
    obtain ⟨lines, m', listed', h, labels⟩ :=
      (relistable_of_proper proper few inside jumps).assembles read
    rw [listed] at listed'
    cases listed'
    have same : m'.labels = m.labels := by
      ext word step
      rw [labels]
      constructor
      · rintro ⟨name, found, declares⟩
        rw [declared?_proper (proper name step found)] at declares
        cases declares
        exact found
      · intro found
        exact ⟨word, found, declared?_proper (proper word step found)⟩
    rw [assemble_eq_ok_iff.mpr ⟨steps, h⟩, ← same, ← h.code]

end ProperLabels

/-- The assembler declares proper labels only. -/
theorem Assembles.properLabels {lines : List String} {m : MachineCode} {steps : List Instruction}
    (h : Assembles lines m steps) : ProperLabels m := by
  intro name step found
  obtain ⟨k, member, -⟩ := (h.labels name step).mp found
  obtain ⟨line, -, means⟩ := List.mem_map.mp (label_mem_of_mem_declarations member)
  exact ⟨h.accepted.named _ member, Statement.not_mem_of_ofLine_label means⟩

/-- Every program that was assembled has a listing, and the listing is assembled to the same program
exactly when none of its jumps shows a label that ends in a colon. -/
theorem assemble_listing_of_assemble {lines : List String} {m : MachineCode}
    (h : assemble lines = .ok m) :
    ∃ steps listing, instructions m.code = .ok steps ∧ m.listing = .ok listing ∧
      (assemble listing = .ok m ↔
        ∀ i ∈ steps, ∀ step ∈ i.target?, ∀ name ∈ m.labels.nameAt? step,
          name.toList.getLast? ≠ some ':') := by
  obtain ⟨steps, h⟩ := assemble_eq_ok_iff.mp h
  obtain ⟨listing, listed, back⟩ := exists_listing_iff h.read h.properLabels h.few h.inside
  rw [← h.code] at back
  exact ⟨steps, listing, h.read, listed, back⟩

/-- A label that ends in a colon, at the first step. -/
def colonLabel : LabelTable :=
  (LabelTable.empty.insert? "a:" 0).getD .empty

/-- A plain label at the first step. -/
def loopLabel : LabelTable :=
  (LabelTable.empty.insert? "a" 0).getD .empty

theorem assemble_loop : assemble ["a:", "JMP a"] = .ok ⟨[0x40, 0, 0], loopLabel⟩ := by
  decide +kernel

theorem instructions_loop : instructions [0x40, 0, 0] = .ok [⟨.jmp, .target 0⟩] :=
  instructions_flatMap_encode [⟨.jmp, .target 0⟩]

theorem openJumps_loop : OpenJumps ⟨[0x40, 0, 0], loopLabel⟩ [⟨.jmp, .target 0⟩] := by
  intro i member step jumps name named
  obtain rfl := List.mem_singleton.mp member
  cases jumps
  have first : loopLabel.nameAt? 0 = some "a" := by decide +kernel
  cases first.symm.trans named
  decide

theorem assemble_listing_of_assemble_colon :
    (assemble ["a::", "JMP 0"] = .ok ⟨[0x40, 0, 0], colonLabel⟩ ∧
      ∃ steps listing, instructions [0x40, 0, 0] = .ok steps ∧
        MachineCode.listing ⟨[0x40, 0, 0], colonLabel⟩ = .ok listing ∧
        (assemble listing = .ok ⟨[0x40, 0, 0], colonLabel⟩ ↔
          ∀ i ∈ steps, ∀ step ∈ i.target?, ∀ name ∈ colonLabel.nameAt? step,
            name.toList.getLast? ≠ some ':')) ∧
    assemble ["a:", "JMP a"] = .ok ⟨[0x40, 0, 0], loopLabel⟩ ∧
      ∃ listing, MachineCode.listing ⟨[0x40, 0, 0], loopLabel⟩ = .ok listing ∧
        assemble listing = .ok ⟨[0x40, 0, 0], loopLabel⟩ := by
  have assembled : assemble ["a::", "JMP 0"] = .ok ⟨[0x40, 0, 0], colonLabel⟩ := by decide +kernel
  obtain ⟨steps, listing, read, listed, back⟩ := assemble_listing_of_assemble assemble_loop
  obtain rfl : [⟨.jmp, .target 0⟩] = steps := Except.ok.inj (instructions_loop.symm.trans read)
  exact ⟨⟨assembled, assemble_listing_of_assemble assembled⟩, assemble_loop, listing, listed,
    back.mpr openJumps_loop⟩

/-- The listing of a jump to a label that ends in a colon declares a second label instead. -/
theorem assemble_listing_colon_ne :
    assemble ["a::", "JMP 0"] = .ok ⟨[0x40, 0, 0], colonLabel⟩ ∧
      MachineCode.listing ⟨[0x40, 0, 0], colonLabel⟩ = .ok ["a::", "JMP a:"] ∧
      assemble ["a::", "JMP a:"] = .error ⟨2, .labelNotOneWord "JMP a"⟩ := by
  have assembled : assemble ["a::", "JMP 0"] = .ok ⟨[0x40, 0, 0], colonLabel⟩ := by decide +kernel
  have read := instructions_flatMap_encode [⟨.jmp, .target 0⟩]
  obtain ⟨steps, h⟩ := assemble_eq_ok_iff.mp assembled
  have inside := h.inside
  obtain rfl : [⟨.jmp, .target 0⟩] = steps := Except.ok.inj (read.symm.trans h.read)
  refine ⟨assembled, listing_eq_ok_iff.mpr ⟨_, read, inside, ?_⟩, ?_⟩ <;> decide +kernel

/-- Code that is readable to its end, under labels that a listing can show, comes back from its
listing with the same labels and steps; of its bytes only those operand bits of headers change that
the instructions do not use. -/
theorem assemble_listing_of_plain_labels {m : MachineCode} {steps : List Instruction}
    (read : instructions m.code = .ok steps) (few : steps.length ≤ maxSteps)
    (inside : ∀ name step, m.labels.stepOf? name = some step → step.toNat ≤ steps.length)
    (plain : ∀ name step, m.labels.stepOf? name = some step →
      IsPlain name.toList ∧ readUInt16? name.toList = none) :
    ∃ lines m', m.listing = .ok lines ∧ assemble lines = .ok m' ∧ m'.labels = m.labels ∧
      m'.code.length = m.code.length ∧
      m.code = (decode m.code).located.flatMap Located.bytes ∧
      m'.code = (decode m.code).located.flatMap Located.cleared ∧
      m.compile = .ok steps.toArray ∧ m'.compile = .ok steps.toArray := by
  have proper : ProperLabels m := by
    intro name step found
    obtain ⟨word, unnumbered⟩ := plain name step found
    exact ⟨⟨word.toIsWord, unnumbered⟩, word.unmarked⟩
  have jumps : OpenJumps m steps := by
    intro i member step target name named
    exact (plain name step (LabelTable.stepOf?_of_nameAt? named)).1.open_end
  obtain ⟨lines, listed, back⟩ := exists_listing_iff read proper few inside
  have bytes := flatMap_bytes_of_instructions read
  have cleared := flatMap_encode_of_instructions read
  refine ⟨lines, _, listed, back.mpr jumps, rfl, ?_, bytes.symm, cleared, ?_, ?_⟩
  · rw [cleared]
    conv_rhs => rw [← bytes]
    simp only [List.length_flatMap, Located.length_cleared]
  · exact compile_eq_ok_iff.mpr read
  · exact compile_eq_ok_iff.mpr (instructions_flatMap_encode steps)

/-- A label for the first of two steps and one for their end. -/
def startAndEnd : LabelTable :=
  ((LabelTable.empty.insert? "start" 0).bind (·.insert? "end" 2)).getD .empty

theorem stepOf?_startAndEnd {name : String} {step : UInt16}
    (h : startAndEnd.stepOf? name = some step) :
    (name, step) = ("end", 2) ∨ (name, step) = ("start", 0) := by
  have entries : startAndEnd.entries = [("end", 2), ("start", 0)] := by decide +kernel
  have member := LabelTable.mem_entries.mpr h
  rw [entries] at member
  simpa using member

theorem instructions_loose :
    instructions [0x07, 0x45, 0, 0] = .ok [⟨.nop, .bare⟩, ⟨.jmp, .target 0⟩] := by
  have first : readInstruction 0 0x07 [0x45, 0, 0] =
      .ok (⟨0, ⟨.nop, .bare⟩, [0x07]⟩, [0x45, 0, 0]) := rfl
  have second : readInstruction 1 0x45 [0, 0] =
      .ok (⟨1, ⟨.jmp, .target 0⟩, [0x45, 0, 0]⟩, []) := rfl
  have decoded := decodeFrom_cons_ok first
  rw [List.length_singleton, Nat.zero_add, decodeFrom_cons_ok second, decodeFrom_nil] at decoded
  rw [instructions_eq_ok_iff, decode, decoded]
  exact ⟨rfl, rfl⟩

theorem assemble_listing_of_plain_labels_loose :
    ∃ lines m', MachineCode.listing ⟨[0x07, 0x45, 0, 0], startAndEnd⟩ = .ok lines ∧
      assemble lines = .ok m' ∧ m'.labels = startAndEnd ∧ m'.code.length = 4 ∧
      [0x07, 0x45, 0, 0] = (decode [0x07, 0x45, 0, 0]).located.flatMap Located.bytes ∧
      m'.code = (decode [0x07, 0x45, 0, 0]).located.flatMap Located.cleared ∧
      MachineCode.compile ⟨[0x07, 0x45, 0, 0], startAndEnd⟩ =
        .ok #[⟨.nop, .bare⟩, ⟨.jmp, .target 0⟩] ∧
      m'.compile = .ok #[⟨.nop, .bare⟩, ⟨.jmp, .target 0⟩] := by
  apply assemble_listing_of_plain_labels instructions_loose (by decide)
  · intro name step found
    rcases stepOf?_startAndEnd found with same | same <;> cases same <;> decide
  · intro name step found
    rcases stepOf?_startAndEnd found with same | same <;> cases same <;>
      exact ⟨isPlain_of_all (by decide +kernel), by decide +kernel⟩

end Formicary
