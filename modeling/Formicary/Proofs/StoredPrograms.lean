import Formicary.Command.Run
import Formicary.Proofs.BlobLayout
import Formicary.Proofs.RoundTrip

/-!
# Stored programs, checked and run

A blob passes the check of its file when it can be read. A run reads the same file by way of the
listing, which puts further conditions on the labels: blobs may hold labels beyond the last step and
names that program text cannot declare or jump to.
-/

namespace Formicary

open Text

section Files

variable {files : FileTree} {path : Path} {blob : List UInt8}
  (isBlob : path.extension? = some blobExtension) (stored : files.read path = .ok blob)

include stored in
theorem load_blob : MachineCode.load files path =
    (MachineCode.ofBlob blob).mapError (.cannotLoad path) := by
  simp only [MachineCode.load, stored]

include isBlob stored

/-- A stored program passes the check exactly when its blob can be read. -/
theorem checkFile_blob (withLint : Bool) :
    (∃ checked, (checkFile files path withLint).outcome = .ok checked) ↔
      ∃ m, MachineCode.ofBlob blob = .ok m := by
  simp only [checkFile, readProgram, isBlob, load_blob stored, if_true]
  cases MachineCode.ofBlob blob <;> simp [Except.mapError, Except.map]

theorem programLines_blob {m : MachineCode} (h : MachineCode.ofBlob blob = .ok m) :
    programLines files path = m.listing.mapError .code := by
  simp only [programLines, isBlob, load_blob stored, h, if_true]
  rfl

end Files

/-- Whether a run of a file gets a program of some steps from it. That a run ends here if the program
has no instructions is left out. -/
def RunsSteps (files : FileTree) (path : Path) (steps : List Instruction) : Prop :=
  ∃ lines m, programLines files path = .ok lines ∧ assemble lines = .ok m ∧
    m.compile = .ok steps.toArray

theorem runsSteps_iff {files : FileTree} {path : Path} {m : MachineCode}
    (shown : programLines files path = m.listing.mapError .code) (steps : List Instruction) :
    RunsSteps files path steps ↔ ∃ lines m', m.listing = .ok lines ∧ Assembles lines m' steps := by
  simp only [RunsSteps, shown, mapError_eq_ok_iff, assembles_iff, compile_eq_ok_iff]

/-- A stored program passes the check of its file exactly when its blob can be read. It then has
steps, and a run of the file has the same steps when the program can be relisted, and only then
unless a label line is misread together with a jump line. -/
theorem stored_program_runs_as_checked {files : FileTree} {path : Path} {blob : List UInt8}
    (isBlob : path.extension? = some blobExtension) (stored : files.read path = .ok blob)
    (withLint : Bool) :
    ((∃ checked, (checkFile files path withLint).outcome = .ok checked) ↔
        ∃ m, MachineCode.ofBlob blob = .ok m) ∧
      ∀ m, MachineCode.ofBlob blob = .ok m →
        ∃ steps, m.compile = .ok steps.toArray ∧
          (Relistable m steps → RunsSteps files path steps) ∧
          (RunsSteps files path steps → ¬Garbled m steps → Relistable m steps) := by
  refine ⟨checkFile_blob isBlob stored withLint, ?_⟩
  intro m h
  obtain ⟨-, -, -, -, -, -, steps, read⟩ := MachineCode.ofBlob_eq_ok_iff.mp h
  refine ⟨steps, compile_eq_ok_iff.mpr read, ?_⟩
  rw [runsSteps_iff (programLines_blob isBlob stored h)]
  constructor
  · intro relistable
    obtain ⟨lines, m', listed, assembles, -⟩ := relistable.assembles read
    exact ⟨lines, m', listed, assembles⟩
  · rintro ⟨lines, m', listed, assembles⟩ clear
    exact relistable_of_assembles listed read assembles clear

/-- A label beyond the end of a program of one step. -/
def farLabel : LabelTable :=
  (LabelTable.empty.insert? "far" 9).getD .empty

/-- The blob of that program. -/
def farBlob : List UInt8 :=
  [0x41, 0x4E, 0x54, 0x4D, 1, 0, 1, 0, 1, 0, 0, 0, 0x62, 0x14, 0xA2, 0xD0, 0x8B, 0x96, 0x73, 0xF0,
    3, 0x66, 0x61, 0x72, 9, 0, 0]

/-- A folder with nothing but that blob. -/
def farFiles : FileTree :=
  FileTree.empty.put ["far.antm"] (.file farBlob)

theorem ofBlob_farBlob : MachineCode.ofBlob farBlob = .ok ⟨[0], farLabel⟩ := by
  have read := instructions_flatMap_encode [⟨.nop, .bare⟩]
  refine MachineCode.ofBlob_eq_ok_iff.mpr ⟨⟨blobMagic, 1, 1, 1, 0xF073968BD0A21462⟩,
    [3, 0x66, 0x61, 0x72, 9, 0, 0], ?_, ?_, ?_, rfl, _, read⟩ <;> decide +kernel

/-- The blob of a jump to its own label. -/
def loopBlob : List UInt8 :=
  [0x41, 0x4E, 0x54, 0x4D, 1, 0, 1, 0, 3, 0, 0, 0, 0x65, 0x7A, 0xDE, 0xD6, 0x19, 0xC9, 0x3C, 0xF7,
    1, 0x61, 0, 0, 0x40, 0, 0]

/-- A folder with nothing but that blob. -/
def loopFiles : FileTree :=
  FileTree.empty.put ["loop.antm"] (.file loopBlob)

theorem ofBlob_loopBlob : MachineCode.ofBlob loopBlob = .ok ⟨[0x40, 0, 0], loopLabel⟩ := by
  refine MachineCode.ofBlob_eq_ok_iff.mpr ⟨⟨blobMagic, 1, 1, 3, 0xF73CC919D6DE7A65⟩,
    [1, 0x61, 0, 0, 0x40, 0, 0], ?_, ?_, ?_, rfl, _, instructions_loop⟩ <;> decide +kernel

theorem relistable_loop : Relistable ⟨[0x40, 0, 0], loopLabel⟩ [⟨.jmp, .target 0⟩] := by
  obtain ⟨steps, h⟩ := assemble_eq_ok_iff.mp assemble_loop
  obtain rfl : [⟨.jmp, .target 0⟩] = steps := Except.ok.inj (instructions_loop.symm.trans h.read)
  exact relistable_of_proper h.properLabels h.few h.inside openJumps_loop

theorem stored_program_runs_as_checked_far :
    (Path.extension? "far.antm" = some blobExtension ∧ farFiles.read "far.antm" = .ok farBlob ∧
      ((∃ checked, (checkFile farFiles "far.antm" true).outcome = .ok checked) ↔
        ∃ m, MachineCode.ofBlob farBlob = .ok m) ∧
      ∀ m, MachineCode.ofBlob farBlob = .ok m →
        ∃ steps, m.compile = .ok steps.toArray ∧
          (Relistable m steps → RunsSteps farFiles "far.antm" steps) ∧
          (RunsSteps farFiles "far.antm" steps → ¬Garbled m steps → Relistable m steps)) ∧
    Path.extension? "loop.antm" = some blobExtension ∧
      loopFiles.read "loop.antm" = .ok loopBlob ∧
      (∃ checked, (checkFile loopFiles "loop.antm" true).outcome = .ok checked) ∧
      RunsSteps loopFiles "loop.antm" [⟨.jmp, .target 0⟩] := by
  have isBlob : Path.extension? "far.antm" = some blobExtension := by decide +kernel
  have stored : farFiles.read "far.antm" = .ok farBlob := by decide +kernel
  have alsoBlob : Path.extension? "loop.antm" = some blobExtension := by decide +kernel
  have alsoStored : loopFiles.read "loop.antm" = .ok loopBlob := by decide +kernel
  obtain ⟨checked, runs⟩ := stored_program_runs_as_checked alsoBlob alsoStored true
  obtain ⟨steps, compiled, relists, -⟩ := runs _ ofBlob_loopBlob
  have read : instructions [0x40, 0, 0] = .ok steps := compile_eq_ok_iff.mp compiled
  obtain rfl : [⟨.jmp, .target 0⟩] = steps := Except.ok.inj (instructions_loop.symm.trans read)
  exact ⟨⟨isBlob, stored, stored_program_runs_as_checked isBlob stored true⟩, alsoBlob, alsoStored,
    checked.mpr ⟨_, ofBlob_loopBlob⟩, relists relistable_loop⟩

theorem maxKey?_farLabel : farLabel.byStep.maxKey? = some 9 := by
  have entries : farLabel.entries = [("far", 9)] := by decide +kernel
  refine Std.ExtTreeMap.maxKey?_eq_some_iff_mem_and_forall.mpr ⟨?_, ?_⟩
  · exact LabelTable.mem_byStep.mpr ⟨"far", LabelTable.mem_entries.mp (by simp [entries])⟩
  · intro step member
    obtain ⟨name, found⟩ := LabelTable.mem_byStep.mp member
    have member := LabelTable.mem_entries.mpr found
    rw [entries, List.mem_singleton] at member
    cases member
    decide

/-- A stored program that passes the check and cannot be run. -/
theorem far_label_checked_not_run :
    (∃ checked, (checkFile farFiles "far.antm" false).outcome = .ok checked) ∧
      programLines farFiles "far.antm" = .error (.code (.labelOutOfRange "far" 9 1)) := by
  have isBlob : Path.extension? "far.antm" = some blobExtension := by decide +kernel
  have stored : farFiles.read "far.antm" = .ok farBlob := by decide +kernel
  have read : instructions [0] = .ok [⟨.nop, .bare⟩] :=
    instructions_flatMap_encode [⟨.nop, .bare⟩]
  have beyond : MachineCode.listing ⟨[0], farLabel⟩ = .error (.labelOutOfRange "far" 9 1) := by
    simp only [MachineCode.listing, read, maxKey?_farLabel]
    decide +kernel
  refine ⟨(checkFile_blob isBlob stored false).mpr ⟨_, ofBlob_farBlob⟩, ?_⟩
  rw [programLines_blob isBlob stored ofBlob_farBlob, beyond]
  rfl

end Formicary
