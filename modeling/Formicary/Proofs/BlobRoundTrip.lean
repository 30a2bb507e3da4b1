import Formicary.Proofs.BlobLayout

/-!
# Programs in blobs and back

A stored program is read back as it was. The other way round, a blob that can be read ends where its
header says, so no blob is the beginning of another, and among the blobs of one program the one that
is written has the newest version and its records in the order of names.
-/

namespace Formicary

open Text

namespace MachineCode

theorem layout_holds {m : MachineCode} (h : m.Storable) : (m.layout h).Holds m :=
  ⟨rfl, .refl _⟩

theorem storable_iff {m : MachineCode} :
    m.Storable ↔
      (∀ name step, m.labels.stepOf? name = some step → (toBytes name).length ≤ 255) ∧
        m.labels.size ≤ 65535 ∧ m.code.length < UInt32.size := by
  constructor
  · intro h
    refine ⟨?_, h.fewLabels, h.shortCode⟩
    intro name step found
    exact h.shortNames (name, step) (LabelTable.mem_entries.mpr found)
  · rintro ⟨names, few, short⟩
    refine ⟨?_, few, short⟩
    rintro ⟨name, step⟩ member
    exact names name step (LabelTable.mem_entries.mp member)

theorem exists_toBlob_iff {m : MachineCode} : (∃ blob, m.toBlob = .ok blob) ↔ m.Storable := by
  simp only [toBlob_eq_ok_iff]
  exact ⟨fun ⟨_, h, _⟩ => h, fun h => ⟨_, h, rfl⟩⟩

/-- A program is stored exactly when every number fits in its field, and it is then read back from
its blob, unless its code cannot be read to the end. -/
theorem ofBlob_toBlob (m : MachineCode) :
    ((∃ blob, m.toBlob = .ok blob) ↔
        (∀ name step, m.labels.stepOf? name = some step → (toBytes name).length ≤ 255) ∧
          m.labels.size ≤ 65535 ∧ m.code.length < UInt32.size) ∧
      ∀ blob, m.toBlob = .ok blob →
        ofBlob blob = match (decode m.code).error with
          | none => .ok m
          | some error => .error (.invalidCode error) := by
  refine ⟨exists_toBlob_iff.trans storable_iff, ?_⟩
  intro blob stored
  obtain ⟨h, rfl⟩ := toBlob_eq_ok_iff.mp stored
  rw [ofBlob_bytes (UInt16.le_refl _) (layout_holds h)]
  cases (decode m.code).error with
  | none => rfl
  | some error => rfl

/-- A program of one step with a label at its start and one at its end. -/
def twoLabels : MachineCode :=
  ⟨[0], ((LabelTable.empty.insert? "b" 0).bind (·.insert? "a" 1)).getD .empty⟩

theorem error_twoLabels : (decode twoLabels.code).error = none :=
  (instructions_eq_ok_iff.mp (instructions_flatMap_encode [⟨.nop, .bare⟩])).1

/-- The blob it is stored in. -/
def twoLabelsBlob : List UInt8 :=
  [0x41, 0x4E, 0x54, 0x4D, 1, 0, 2, 0, 1, 0, 0, 0, 0xB7, 0x64, 0x6C, 0x97, 0xC2, 0x15, 0x95, 0xD7,
    1, 0x61, 1, 0, 1, 0x62, 0, 0, 0]

theorem storable_twoLabels : twoLabels.Storable := by
  refine ⟨?_, by decide +kernel, by decide⟩
  unfold ShortNames
  decide +kernel

theorem toBlob_twoLabels : twoLabels.toBlob = .ok twoLabelsBlob :=
  toBlob_eq_ok_iff.mpr ⟨storable_twoLabels, by decide +kernel⟩

theorem ofBlob_toBlob_twoLabels :
    twoLabels.toBlob = .ok twoLabelsBlob ∧ ofBlob twoLabelsBlob = .ok twoLabels := by
  have back := (ofBlob_toBlob twoLabels).2 _ toBlob_twoLabels
  rw [error_twoLabels] at back
  exact ⟨toBlob_twoLabels, back⟩

end MachineCode

/-- The names, in bytes, of the first `count` label records of some content. -/
def recordNames : (count : Nat) → (content : List UInt8) → List (List UInt8)
  | 0, _ => []
  | _ + 1, [] => []
  | count + 1, length :: bytes =>
    bytes.take length.toNat :: recordNames count (bytes.drop (length.toNat + 2))

theorem recordNames_append {labels : List (String × UInt16)} (names : ShortNames labels)
    (rest : List UInt8) :
    recordNames labels.length (labels.flatMap recordBytes ++ rest) =
      labels.map fun label => toBytes label.1 := by
  induction labels with
  | nil => rfl
  | cons label labels ih =>
    obtain ⟨short, later⟩ := shortNames_cons.mp names
    have tail : (toBytes label.1 ++ (littleEndian 2 label.2.toNat ++
        (labels.flatMap recordBytes ++ rest))).drop ((toBytes label.1).length + 2) =
          labels.flatMap recordBytes ++ rest := by
      rw [List.drop_append, List.drop_of_length_le (by omega)]
      simp
    simp only [List.length_cons, List.flatMap_cons, List.append_assoc, List.cons_append, recordBytes,
      recordNames, length_toUInt8 short, List.take_left, tail, List.map_cons, ih later]

namespace LabelTable

theorem pairwise_entries (t : LabelTable) :
    t.entries.Pairwise fun a b => toBytes a.1 < toBytes b.1 := by
  refine Std.ExtTreeMap.ordered_keys_toList.imp ?_
  intro a b less
  exact toBytes_lt (compareOfLessAndEq_eq_lt.mp less)

/-- The entries are the only order of the labels in which the names ascend. -/
theorem eq_entries_iff {t : LabelTable} {labels : List (String × UInt16)}
    (perm : labels.Perm t.entries) :
    labels = t.entries ↔ (labels.map fun label => toBytes label.1).Pairwise (· < ·) := by
  rw [List.pairwise_map]
  constructor
  · rintro rfl
    exact t.pairwise_entries
  · intro ascending
    refine perm.eq_of_pairwise ?_ ascending t.pairwise_entries
    intro a b _ _ less more
    exact absurd more (List.lt_asymm less)

end LabelTable

namespace BlobLayout

variable {b : BlobLayout} {m : MachineCode} (holds : b.Holds m)
include holds

theorem Holds.storable : m.Storable := by
  refine ⟨?_, ?_, ?_⟩
  · intro label member
    exact b.shortNames label (holds.labels.mem_iff.mpr member)
  · rw [← LabelTable.length_entries, ← holds.labels.length_eq]
    exact b.fewLabels
  · rw [← holds.code]
    exact b.shortCode

theorem Holds.layout_eq_iff :
    m.layout holds.storable = b ↔
      b.version = 1 ∧
        (recordNames b.header.labelCount.toNat b.content).Pairwise (· < ·) := by
  rw [toNat_labelCount, content, recordNames_append b.shortNames,
    ← LabelTable.eq_entries_iff holds.labels]
  constructor
  · intro same
    exact ⟨congrArg BlobLayout.version same.symm, congrArg BlobLayout.labels same.symm⟩
  · rintro ⟨version, labels⟩
    exact BlobLayout.ext version.symm labels.symm holds.code.symm

end BlobLayout

namespace MachineCode

theorem eq_of_prefix_of_ofBlob {blob other : List UInt8} {m k : MachineCode}
    (h : ofBlob blob = .ok m) (also : ofBlob other = .ok k) (begins : blob <+: other) :
    blob = other := by
  obtain ⟨b, -, -, rfl⟩ := exists_layout_of_ofBlob h
  obtain ⟨c, -, -, rfl⟩ := exists_layout_of_ofBlob also
  rw [BlobLayout.eq_of_prefix begins]

/-- A blob that can be read is neither the beginning nor a continuation of another one, and its
program can be stored. It is the blob its program is stored in exactly when it has version 1 and the
names of its records ascend. -/
theorem ofBlob_delimited_canonical {blob : List UInt8} {m : MachineCode} (h : ofBlob blob = .ok m) :
    (∀ other, other ≠ blob → other <+: blob ∨ blob <+: other →
        ∃ error, ofBlob other = .error error) ∧
      ∃ stored header content,
        m.toBlob = .ok stored ∧ BlobHeader.read blob = .ok (header, content) ∧
          (stored = blob ↔
            header.version = 1 ∧
              (recordNames header.labelCount.toNat content).Pairwise (· < ·)) := by
  constructor
  · intro other different either
    apply exists_error_of_ne_ok
    intro k also
    rcases either with begins | continues
    · exact different (eq_of_prefix_of_ofBlob also h begins)
    · exact different (eq_of_prefix_of_ofBlob h also continues).symm
  · obtain ⟨b, known, holds, rfl⟩ := exists_layout_of_ofBlob h
    refine ⟨_, b.header, b.content, toBlob_eq_ok_iff.mpr ⟨holds.storable, rfl⟩,
      BlobLayout.read_bytes known, ?_⟩
    rw [BlobLayout.bytes_inj]
    exact holds.layout_eq_iff

theorem shortNames_descending : ShortNames [("b", 0), ("a", 1)] := by
  unfold ShortNames
  decide +kernel

/-- Another layout of the same program: an older version, and the names descend. -/
def descending : BlobLayout :=
  ⟨0, [("b", 0), ("a", 1)], [0], shortNames_descending, by decide, by decide⟩

def descendingBlob : List UInt8 :=
  [0x41, 0x4E, 0x54, 0x4D, 0, 0, 2, 0, 1, 0, 0, 0, 0x2B, 2, 0x98, 0xDB, 0x11, 0xCB, 0x45, 0xE7,
    1, 0x62, 0, 0, 1, 0x61, 1, 0, 0]

theorem ofBlob_descendingBlob : ofBlob descendingBlob = .ok twoLabels := by
  have spelled : descending.bytes = descendingBlob := by decide +kernel
  have holds : descending.Holds twoLabels := ⟨rfl, by decide +kernel⟩
  rw [← spelled, ofBlob_bytes (by decide) holds, error_twoLabels]

theorem ofBlob_delimited_canonical_descending :
    ofBlob descendingBlob = .ok twoLabels ∧
      (∀ other, other ≠ descendingBlob → other <+: descendingBlob ∨ descendingBlob <+: other →
          ∃ error, ofBlob other = .error error) ∧
        ∃ stored header content,
          twoLabels.toBlob = .ok stored ∧
            BlobHeader.read descendingBlob = .ok (header, content) ∧
              (stored = descendingBlob ↔
                header.version = 1 ∧
                  (recordNames header.labelCount.toNat content).Pairwise (· < ·)) :=
  ⟨ofBlob_descendingBlob, ofBlob_delimited_canonical ofBlob_descendingBlob⟩

end MachineCode

end Formicary
