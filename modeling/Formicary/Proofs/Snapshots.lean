import Formicary.Proofs.BlobRoundTrip
import Formicary.Proofs.ShelfHistory
import Formicary.Proofs.Survey
import Formicary.Shelf.Snapshot

/-!
# Shelves in snapshots and back

Whatever happens to a shelf, all its programs come from the assembler or are empty. Their code can
be read to its end and is far too short to overflow a blob, so it depends on their labels alone
whether the shelf has a snapshot; and from its snapshot the shelf is restored as it was.
-/

namespace Formicary

open Text

theorem Operands.length_trailing_le {s : Shape} (o : Operands s) : o.trailing.length ≤ 4 := by
  cases o <;> simp [trailing]

theorem length_flatMap_encode_le (steps : List Instruction) :
    (steps.flatMap Instruction.encode).length ≤ 5 * steps.length := by
  induction steps with
  | nil => simp
  | cons i steps ih =>
    have first : i.encode.length ≤ 5 := Nat.succ_le_succ i.operands.length_trailing_le
    rw [List.flatMap_cons, List.length_append, List.length_cons]
    omega

namespace MachineCode

/-- Code of instructions, no more than a program text may have. -/
def Assembled (m : MachineCode) : Prop :=
  ∃ steps : List Instruction, m.code = steps.flatMap Instruction.encode ∧ steps.length ≤ maxSteps

variable {m : MachineCode}

theorem assembled_empty : empty.Assembled :=
  ⟨[], rfl, Nat.zero_le _⟩

theorem assembled_of_assemble {lines : List String} (h : assemble lines = .ok m) : m.Assembled := by
  obtain ⟨steps, assembles⟩ := assemble_eq_ok_iff.mp h
  exact ⟨steps, assembles.code, assembles.few⟩

theorem Assembled.error_eq_none (h : m.Assembled) : (decode m.code).error = none := by
  obtain ⟨steps, code, -⟩ := h
  rw [code]
  exact (instructions_eq_ok_iff.mp (instructions_flatMap_encode steps)).1

theorem Assembled.length_lt (h : m.Assembled) : m.code.length < UInt32.size := by
  obtain ⟨steps, code, few⟩ := h
  have length := length_flatMap_encode_le steps
  have most : maxSteps = 65535 := rfl
  have size : UInt32.size = 4294967296 := rfl
  rw [code]
  omega

theorem Assembled.storable_iff (h : m.Assembled) :
    m.Storable ↔
      (∀ name step, m.labels.stepOf? name = some step → (toBytes name).length ≤ 255) ∧
        m.labels.size ≤ 65535 := by
  simp [MachineCode.storable_iff, h.length_lt]

/-- A program from the assembler is read back from its blob. -/
theorem Assembled.ofBlob_of_toBlob (h : m.Assembled) {blob : List UInt8}
    (stored : m.toBlob = .ok blob) :
    ofBlob blob = .ok m := by
  obtain ⟨fits, rfl⟩ := toBlob_eq_ok_iff.mp stored
  rw [ofBlob_bytes (UInt16.le_refl _) (layout_holds fits), h.error_eq_none]

end MachineCode

namespace Shelf

/-- All programs on the shelf come from the assembler or are empty. -/
structure Assembled (s : Shelf) : Prop where
  draft : s.draft.Assembled
  archive : ∀ m ∈ s.archive, m.Assembled

section Steps

variable {s t : Shelf}

theorem assembled_empty : empty.Assembled :=
  ⟨MachineCode.assembled_empty, by simp [empty]⟩

theorem Assembled.retireDraft (h : s.Assembled) : s.retireDraft.Assembled := by
  unfold Shelf.retireDraft
  split
  · refine ⟨MachineCode.assembled_empty, ?_⟩
    intro m member
    rcases Array.mem_push.mp member with old | rfl
    · exact h.archive m old
    · exact h.draft
  · exact ⟨MachineCode.assembled_empty, h.archive⟩

theorem Assembled.edit (h : s.Assembled) (lines : List String) : (s.edit lines).1.Assembled := by
  have retired := h.retireDraft
  unfold Shelf.edit
  dsimp only
  split
  · next draft assembled => exact ⟨MachineCode.assembled_of_assemble assembled, retired.archive⟩
  · exact retired

theorem Assembled.assign (h : s.Assembled) {id : WorkerId} (given : s.assign id = .ok t) :
    t.Assembled := by
  obtain ⟨-, rfl⟩ := assign_eq_ok_iff.mp given
  exact ⟨h.draft, h.archive⟩

theorem Assembled.perform (h : s.Assembled) (a : Action) : (s.perform a).Assembled := by
  cases a with
  | edit lines => exact h.edit lines
  | assign id =>
    unfold Shelf.perform
    dsimp only
    split
    · next given => exact h.assign given
    · exact h
  | unassign id => exact ⟨h.draft, h.archive⟩

theorem assembled_after (actions : List Action) : (after actions).Assembled := by
  induction actions using List.reverseRecOn with
  | nil => exact assembled_empty
  | append_singleton actions a ih =>
    rw [after_concat]
    exact ih.perform a

end Steps

section Snapshots

variable {s : Shelf} {snap : Snapshot}

theorem snapshot_eq_ok_iff :
    s.snapshot = .ok snap ↔
      s.archive.toList.map MachineCode.toBlob = snap.archive.map .ok ∧
        s.draft.toBlob = .ok snap.draft ∧ snap.pinned = s.pinned ∧
          snap.assignments = s.assignments.toList := by
  unfold snapshot
  simp only [bind_eq_ok_iff, mapError_eq_ok_iff, mapM_eq_ok_iff]
  constructor
  · rintro ⟨archive, stored, draft, written, same⟩
    cases same
    exact ⟨stored, written, rfl, rfl⟩
  · rintro ⟨stored, written, pinned, assignments⟩
    refine ⟨snap.archive, stored, snap.draft, written, ?_⟩
    rw [← pinned, ← assignments]
    rfl

/-- A shelf has a snapshot exactly when each of its programs has a blob. -/
theorem exists_snapshot_iff :
    (∃ snap, s.snapshot = .ok snap) ↔ s.draft.Storable ∧ ∀ m ∈ s.archive, m.Storable := by
  have blobs : (∃ blobs : List (List UInt8), s.archive.toList.map MachineCode.toBlob =
      blobs.map .ok) ↔ ∀ m ∈ s.archive, m.Storable := by
    simp only [exists_map_eq_ok_iff, MachineCode.exists_toBlob_iff, Array.mem_toList_iff]
  rw [← blobs, ← MachineCode.exists_toBlob_iff]
  simp only [snapshot_eq_ok_iff]
  constructor
  · rintro ⟨snap, stored, written, -, -⟩
    exact ⟨⟨_, written⟩, _, stored⟩
  · rintro ⟨⟨draft, written⟩, archive, stored⟩
    exact ⟨⟨draft, s.pinned, archive, s.assignments.toList⟩, stored, written, rfl, rfl⟩

theorem archiveOfBlobs_eq_ok_iff {place : Nat} {blobs : List (List UInt8)} {ms : List MachineCode} :
    archiveOfBlobs place blobs = .ok ms ↔ blobs.map MachineCode.ofBlob = ms.map .ok := by
  induction blobs generalizing place ms with
  | nil => cases ms <;> simp [archiveOfBlobs]
  | cons blob blobs ih =>
    simp only [archiveOfBlobs, bind_eq_ok_iff, mapError_eq_ok_iff, ih]
    cases ms with
    | nil => simp [pure, Except.pure]
    | cons m ms => simp [pure, Except.pure]

theorem ofList_toList (assignments : Std.ExtTreeMap WorkerId Nat) :
    Std.ExtTreeMap.ofList assignments.toList = assignments := by
  apply Std.ExtTreeMap.ext_getElem?
  intro id
  cases found : assignments[id]? with
  | some place =>
    have member := Std.ExtTreeMap.mem_toList_iff_getElem?_eq_some.mpr found
    exact Std.ExtTreeMap.getElem?_ofList_of_mem Std.ReflCmp.compare_self
      Std.ExtTreeMap.distinct_keys_toList member
  | none =>
    apply Std.ExtTreeMap.getElem?_ofList_of_contains_eq_false
    rw [Std.ExtTreeMap.map_fst_toList_eq_keys, ← Bool.not_eq_true, List.contains_iff_mem,
      Std.ExtTreeMap.mem_keys, Std.ExtTreeMap.mem_iff_isSome_getElem?, found]
    simp

/-- A snapshot restores the shelf it was made of, if the programs come from the assembler. -/
theorem Assembled.ofSnapshot_snapshot (h : s.Assembled) (taken : s.snapshot = .ok snap) :
    ofSnapshot snap = .ok s := by
  obtain ⟨stored, written, pinned, assignments⟩ := snapshot_eq_ok_iff.mp taken
  have draft := h.draft.ofBlob_of_toBlob written
  have archive : archiveOfBlobs 0 snap.archive = .ok s.archive.toList := by
    rw [archiveOfBlobs_eq_ok_iff]
    refine map_eq_ok_of_inverse ?_ stored
    intro m member blob
    exact (h.archive m (Array.mem_toList_iff.mp member)).ofBlob_of_toBlob
  unfold ofSnapshot
  rw [draft, archive, pinned, assignments, ofList_toList]
  rfl

end Snapshots

/-- After every sequence of actions a shelf has a snapshot exactly when the labels of its draft and
of its archived programs fit in blobs, and the snapshot restores the very same shelf: the draft and
whether it is pinned, the archive in its order, and who was given what. So whatever is done next, it
makes no difference whether it is done with the shelf or with the restored one. -/
theorem ofSnapshot_snapshot_after (actions : List Action) :
    ((∃ snap, (after actions).snapshot = .ok snap) ↔
        ∀ m, m = (after actions).draft ∨ m ∈ (after actions).archive →
          (∀ name step, m.labels.stepOf? name = some step → (toBytes name).length ≤ 255) ∧
            m.labels.size ≤ 65535) ∧
      ∀ snap, (after actions).snapshot = .ok snap → ofSnapshot snap = .ok (after actions) := by
  have assembled := assembled_after actions
  refine ⟨?_, fun snap => assembled.ofSnapshot_snapshot⟩
  rw [exists_snapshot_iff]
  constructor
  · rintro ⟨draft, archive⟩ m (rfl | member)
    · exact assembled.draft.storable_iff.mp draft
    · exact (assembled.archive m member).storable_iff.mp (archive m member)
  · intro fits
    refine ⟨assembled.draft.storable_iff.mpr (fits _ (.inl rfl)), ?_⟩
    intro m member
    exact (assembled.archive m member).storable_iff.mpr (fits m (.inr member))

/-- Two workers are given programs, and the first program is archived. -/
def twoGiven : List Action :=
  [.edit ["go:", "MOVE", "JMP go"], .assign 3, .edit ["DIG"], .assign 5]

theorem ofSnapshot_snapshot_twoGiven :
    ∃ snap, (after twoGiven).snapshot = .ok snap ∧ ofSnapshot snap = .ok (after twoGiven) ∧
      (after twoGiven).archive.size = 1 ∧ (after twoGiven).draft.code = [0x88] := by
  obtain ⟨exists_iff, restores⟩ := ofSnapshot_snapshot_after twoGiven
  have draft : (after twoGiven).draft = ⟨[0x88], .empty⟩ := by decide +kernel
  have archive : (after twoGiven).archive =
      #[⟨[0x08, 0x40, 0, 0], (LabelTable.empty.insert? "go" 0).getD .empty⟩] := by
    decide +kernel
  have fits : ∀ m, m = (after twoGiven).draft ∨ m ∈ (after twoGiven).archive → m.Storable := by
    rw [draft, archive]
    rintro m (rfl | member)
    · refine ⟨?_, by decide +kernel, by decide⟩
      unfold ShortNames
      decide +kernel
    · rw [List.mem_toArray, List.mem_singleton] at member
      subst member
      refine ⟨?_, by decide +kernel, by decide⟩
      unfold ShortNames
      decide +kernel
  obtain ⟨snap, taken⟩ := exists_iff.mpr fun m member =>
    let stored := MachineCode.storable_iff.mp (fits m member)
    ⟨stored.1, stored.2.1⟩
  exact ⟨snap, taken, restores snap taken, by rw [archive]; rfl, by rw [draft]⟩

end Shelf

end Formicary
