import Mathlib.Logic.Basic
import Formicary.Blob.Basic
import Formicary.Proofs.Encoding
import Formicary.Proofs.Except
import Formicary.Proofs.Labels
import Formicary.Proofs.TextBytes

/-!
# The layout of blobs

A blob is laid out from a version, label records in some order, and code. Storing a program lays it
out in the newest version with its labels in the order of names; reading accepts the layouts of all
known versions, with the labels in any order, if the code can be read to its end.
-/

namespace Formicary

open Text

namespace BlobHeader

@[simp] theorem length_toBytes (h : BlobHeader) : h.toBytes.length = 20 := by
  simp [toBytes]

theorem read_toBytes {h : BlobHeader} (magic : h.magic = blobMagic) (known : h.version ≤ blobVersion)
    (content : List UInt8) : read (h.toBytes ++ content) = .ok (h, content) := by
  obtain ⟨mark, version, labelCount, codeLength, sum⟩ := h
  obtain rfl : mark = blobMagic := magic
  have unfolded : read (toBytes ⟨blobMagic, version, labelCount, codeLength, sum⟩ ++ content) =
      if blobVersion < (ofLittleEndian (littleEndian 2 version.toNat)).toUInt16 then
        .error (.unsupportedVersion (ofLittleEndian (littleEndian 2 version.toNat)).toUInt16)
      else .ok (⟨blobMagic, (ofLittleEndian (littleEndian 2 version.toNat)).toUInt16,
        (ofLittleEndian (littleEndian 2 labelCount.toNat)).toUInt16,
        (ofLittleEndian (littleEndian 4 codeLength.toNat)).toUInt32,
        (ofLittleEndian (littleEndian 8 sum.toNat)).toUInt64⟩, content) := rfl
  rw [unfolded]
  simp only [toUInt16_ofLittleEndian, toUInt32_ofLittleEndian, toUInt64_ofLittleEndian]
  exact if_neg (UInt16.not_lt.mpr known)

theorem read_eq_ok_iff {bytes content : List UInt8} {h : BlobHeader} :
    read bytes = .ok (h, content) ↔
      h.magic = blobMagic ∧ h.version ≤ blobVersion ∧ h.toBytes ++ content = bytes := by
  constructor
  · intro found
    unfold read at found
    split at found
    · next m₀ m₁ m₂ m₃ v₀ v₁ n₀ n₁ l₀ l₁ l₂ l₃ s₀ s₁ s₂ s₃ s₄ s₅ s₆ s₇ content =>
      dsimp only at found
      split at found
      · cases found
      · next mark =>
        split at found
        · cases found
        · next known =>
          cases found
          refine ⟨not_not.mp mark, UInt16.not_lt.mp known, ?_⟩
          have version := @littleEndian_toUInt16 [v₀, v₁] rfl
          have count := @littleEndian_toUInt16 [n₀, n₁] rfl
          have length := @littleEndian_toUInt32 [l₀, l₁, l₂, l₃] rfl
          have sum := @littleEndian_toUInt64 [s₀, s₁, s₂, s₃, s₄, s₅, s₆, s₇] rfl
          simp only [toBytes, version, count, length, sum]
          rfl
    · cases found
  · rintro ⟨magic, known, rfl⟩
    exact read_toBytes magic known content

theorem eq_of_toBytes_eq {h k : BlobHeader} (same : h.toBytes = k.toBytes) : h = k := by
  unfold toBytes at same
  obtain ⟨same, sum⟩ := List.append_inj' same (by simp)
  obtain ⟨same, length⟩ := List.append_inj' same (by simp)
  obtain ⟨same, count⟩ := List.append_inj' same (by simp)
  obtain ⟨magic, version⟩ := List.append_inj' same (by simp)
  have magic := Vector.toList_inj.mp magic
  have version := eq_of_littleEndian_eq version h.version.toNat_lt k.version.toNat_lt
  have count := eq_of_littleEndian_eq count h.labelCount.toNat_lt k.labelCount.toNat_lt
  have length := eq_of_littleEndian_eq length h.codeLength.toNat_lt k.codeLength.toNat_lt
  have sum := eq_of_littleEndian_eq sum h.checksum.toNat_lt k.checksum.toNat_lt
  cases h
  cases k
  simp only [BlobHeader.mk.injEq]
  exact ⟨magic, UInt16.toNat_inj.mp version, UInt16.toNat_inj.mp count, UInt32.toNat_inj.mp length,
    UInt64.toNat_inj.mp sum⟩

end BlobHeader

section Records

/-- The record of a label whose name has at most 255 bytes. -/
def recordBytes (label : String × UInt16) : List UInt8 :=
  (toBytes label.1).length.toUInt8 :: (toBytes label.1 ++ littleEndian 2 label.2.toNat)

/-- All names of some labels have at most 255 bytes. -/
def ShortNames (labels : List (String × UInt16)) : Prop :=
  ∀ label ∈ labels, (toBytes label.1).length ≤ 255

theorem shortNames_cons {label : String × UInt16} {labels : List (String × UInt16)} :
    ShortNames (label :: labels) ↔ (toBytes label.1).length ≤ 255 ∧ ShortNames labels :=
  List.forall_mem_cons

theorem length_toUInt8 {bytes : List UInt8} (short : bytes.length ≤ 255) :
    bytes.length.toUInt8.toNat = bytes.length := by
  simp only [Nat.toUInt8_eq, UInt8.toNat_ofNat']
  omega

theorem labelRecord_eq_ok_iff {name : String} {step : UInt16} {record : List UInt8} :
    labelRecord name step = .ok record ↔
      (toBytes name).length ≤ 255 ∧ recordBytes (name, step) = record := by
  unfold labelRecord recordBytes
  dsimp only
  by_cases short : (toBytes name).length < 256
  · simp [short, Nat.le_of_lt_succ short]
  · simp [short, show ¬(toBytes name).length ≤ 255 by omega]

theorem mapM_labelRecord_eq_ok_iff {labels : List (String × UInt16)} {records : List (List UInt8)} :
    (labels.mapM fun (name, step) => labelRecord name step) = .ok records ↔
      ShortNames labels ∧ labels.map recordBytes = records := by
  rw [mapM_eq_ok_iff]
  induction labels generalizing records with
  | nil => cases records <;> simp [ShortNames]
  | cons label labels ih =>
    cases records with
    | nil => simp
    | cons record records =>
      simp only [List.map_cons, List.cons.injEq, ih, labelRecord_eq_ok_iff, shortNames_cons]
      exact and_and_and_comm

/-- A record at the front of the content is read, and its label added. -/
theorem readLabels_record {label : String × UInt16} {t u : LabelTable}
    (short : (toBytes label.1).length ≤ 255) (added : t.insert? label.1 label.2 = some u)
    (count offset : Nat) (rest : List UInt8) :
    readLabels (count + 1) offset t (recordBytes label ++ rest) =
      readLabels count (offset + (toBytes label.1).length + 3) u rest := by
  obtain ⟨name, step⟩ := label
  have split : recordBytes (name, step) ++ rest =
      (toBytes name).length.toUInt8 :: (toBytes name ++
        (step.toNat.toUInt8 :: (step.toNat / 256).toUInt8 :: rest)) := by
    rw [recordBytes, List.cons_append, List.append_assoc]
    rfl
  have back : (ofLittleEndian [step.toNat.toUInt8, (step.toNat / 256).toUInt8]).toUInt16 = step :=
    toUInt16_ofLittleEndian step
  rw [split, readLabels, length_toUInt8 short, List.drop_left]
  simp only [List.take_left, fromBytes_toBytes, back, added]

/-- Nothing but a record at the front of the content is read as a label. -/
theorem exists_record_of_readLabels {count offset : Nat} {t : LabelTable} {content : List UInt8}
    {found : LabelTable × List UInt8} (read : readLabels (count + 1) offset t content = .ok found) :
    ∃ label u rest, (toBytes label.1).length ≤ 255 ∧ recordBytes label ++ rest = content ∧
      t.insert? label.1 label.2 = some u := by
  cases content with
  | nil => cases read
  | cons length bytes =>
    rw [readLabels] at read
    split at read
    · next s₀ s₁ rest tail =>
      split at read
      · cases read
      · next name text =>
        split at read
        · cases read
        · next u added =>
          have spelled := fromBytes_eq_ok_iff.mp text
          have enough : length.toNat ≤ bytes.length := by
            have sizes := congrArg List.length tail
            simp only [List.length_drop, List.length_cons] at sizes
            omega
          have size : (toBytes name).length = length.toNat := by
            rw [spelled, List.length_take, Nat.min_eq_left enough]
          refine ⟨(name, (ofLittleEndian [s₀, s₁]).toUInt16), u, rest, ?_, ?_, added⟩
          · show (toBytes name).length ≤ 255
            rw [size]
            exact Nat.le_of_lt_succ length.toNat_lt
          · have step := @littleEndian_toUInt16 [s₀, s₁] rfl
            have split := List.take_append_drop length.toNat bytes
            rw [tail] at split
            rw [recordBytes, size, step, spelled, List.cons_append, List.append_assoc]
            simp [split]
    · cases read

/-- Records are read to a table that has their labels besides those it had before. -/
theorem readLabels_eq_ok_iff {count offset : Nat} {t u : LabelTable} {content rest : List UInt8} :
    readLabels count offset t content = .ok (u, rest) ↔
      ∃ labels, labels.length = count ∧ ShortNames labels ∧
        labels.flatMap recordBytes ++ rest = content ∧ (labels ++ t.entries).Perm u.entries := by
  induction count generalizing offset t content with
  | zero =>
    rw [readLabels]
    constructor
    · intro same
      cases same
      exact ⟨[], rfl, nofun, rfl, .refl _⟩
    · rintro ⟨labels, none, -, rfl, perm⟩
      obtain rfl := List.eq_nil_of_length_eq_zero none
      rw [LabelTable.eq_of_perm_entries perm]
      rfl
  | succ count ih =>
    constructor
    · intro read
      obtain ⟨label, v, later, short, rfl, added⟩ := exists_record_of_readLabels read
      rw [readLabels_record short added] at read
      obtain ⟨labels, rfl, names, rfl, perm⟩ := ih.mp read
      refine ⟨label :: labels, rfl, shortNames_cons.mpr ⟨short, names⟩, ?_, ?_⟩
      · rw [List.flatMap_cons, List.append_assoc]
      · have moved := LabelTable.insert?_eq_some_iff_perm.mp added
        exact (List.perm_middle.symm.trans (moved.append_left labels)).trans perm
    · rintro ⟨labels, size, names, rfl, perm⟩
      cases labels with
      | nil => cases size
      | cons label labels =>
        obtain ⟨short, names⟩ := shortNames_cons.mp names
        -- The name of the first record is none of the others, so it was free before.
        have absent : label.1 ∉ (labels ++ t.entries).map Prod.fst :=
          LabelTable.not_mem_of_perm_entries perm
        rw [List.map_append, List.mem_append, not_or] at absent
        obtain ⟨v, added⟩ :=
          LabelTable.exists_insert? (LabelTable.stepOf?_eq_none_iff.mpr absent.2) label.2
        have moved := LabelTable.insert?_eq_some_iff_perm.mp added
        rw [List.flatMap_cons, List.append_assoc, readLabels_record short added]
        refine ih.mpr ⟨labels, Nat.succ.inj size, names, rfl, ?_⟩
        exact ((moved.append_left labels).symm.trans List.perm_middle).trans perm

theorem eq_of_recordBytes_append {a b : String × UInt16} {x y : List UInt8}
    (shortA : (toBytes a.1).length ≤ 255) (shortB : (toBytes b.1).length ≤ 255)
    (same : recordBytes a ++ x = recordBytes b ++ y) : a = b ∧ x = y := by
  simp only [recordBytes, List.cons_append, List.append_assoc, List.cons.injEq] at same
  have sizes : (toBytes a.1).length = (toBytes b.1).length := by
    rw [← length_toUInt8 shortA, ← length_toUInt8 shortB, same.1]
  obtain ⟨names, tails⟩ := List.append_inj same.2 sizes
  obtain ⟨steps, rests⟩ := List.append_inj tails (by simp)
  have step := eq_of_littleEndian_eq steps a.2.toNat_lt b.2.toNat_lt
  exact ⟨Prod.ext (toBytes_inj.mp names) (UInt16.toNat_inj.mp step), rests⟩

theorem length_lt_records_append (label : String × UInt16) (labels : List (String × UInt16))
    (x : List UInt8) : x.length < ((label :: labels).flatMap recordBytes ++ x).length := by
  simp only [List.flatMap_cons, recordBytes, List.length_append, List.length_cons]
  omega

/-- Records and what follows them are told apart by the number of records as well as by the length
of what follows. -/
theorem eq_of_records_append {labels others : List (String × UInt16)} {x y : List UInt8}
    (names : ShortNames labels) (otherNames : ShortNames others)
    (same : labels.flatMap recordBytes ++ x = others.flatMap recordBytes ++ y)
    (h : labels.length = others.length ∨ x.length = y.length) : labels = others ∧ x = y := by
  induction labels generalizing others with
  | nil =>
    cases others with
    | nil => exact ⟨rfl, same⟩
    | cons other others =>
      have longer := length_lt_records_append other others y
      rw [← same, List.flatMap_nil, List.nil_append] at longer
      rcases h with count | length
      · cases count
      · omega
  | cons label labels ih =>
    cases others with
    | nil =>
      have longer := length_lt_records_append label labels x
      rw [same, List.flatMap_nil, List.nil_append] at longer
      rcases h with count | length
      · cases count
      · omega
    | cons other others =>
      obtain ⟨short, later⟩ := shortNames_cons.mp names
      obtain ⟨otherShort, otherLater⟩ := shortNames_cons.mp otherNames
      simp only [List.flatMap_cons, List.append_assoc] at same
      obtain ⟨first, rests⟩ := eq_of_recordBytes_append short otherShort same
      obtain ⟨remaining, following⟩ := ih later otherLater rests (h.imp_left Nat.succ.inj)
      exact ⟨by rw [first, remaining], following⟩

end Records

/-- What a blob says: its version, its label records and its code, within the bounds of their
fields. -/
@[ext] structure BlobLayout where
  version : UInt16
  labels : List (String × UInt16)
  code : List UInt8
  shortNames : ShortNames labels
  fewLabels : labels.length ≤ 65535
  shortCode : code.length < UInt32.size

namespace BlobLayout

/-- The records and the code. -/
def content (b : BlobLayout) : List UInt8 :=
  b.labels.flatMap recordBytes ++ b.code

def header (b : BlobLayout) : BlobHeader :=
  ⟨blobMagic, b.version, b.labels.length.toUInt16, b.code.length.toUInt32, checksum b.content⟩

/-- The blob that says it. -/
def bytes (b : BlobLayout) : List UInt8 :=
  b.header.toBytes ++ b.content

/-- A layout holds a program when its records are the labels in some order. -/
structure Holds (b : BlobLayout) (m : MachineCode) : Prop where
  code : b.code = m.code
  labels : b.labels.Perm m.labels.entries

theorem toNat_labelCount (b : BlobLayout) : b.header.labelCount.toNat = b.labels.length :=
  UInt16.toNat_ofNat_of_lt' (Nat.lt_succ_of_le b.fewLabels)

theorem toNat_codeLength (b : BlobLayout) : b.header.codeLength.toNat = b.code.length :=
  UInt32.toNat_ofNat_of_lt' b.shortCode

theorem length_labels_eq {b c : BlobLayout} (same : b.header = c.header) :
    b.labels.length = c.labels.length := by
  rw [← b.toNat_labelCount, ← c.toNat_labelCount, same]

theorem length_code_eq {b c : BlobLayout} (same : b.header = c.header) :
    b.code.length = c.code.length := by
  rw [← b.toNat_codeLength, ← c.toNat_codeLength, same]

theorem eq_of_prefix {b c : BlobLayout} (h : b.bytes <+: c.bytes) : b = c := by
  obtain ⟨rest, same⟩ := h
  rw [bytes, bytes, List.append_assoc] at same
  obtain ⟨heads, contents⟩ := List.append_inj same (by simp)
  have header := BlobHeader.eq_of_toBytes_eq heads
  rw [content, content, List.append_assoc] at contents
  obtain ⟨labels, code⟩ := eq_of_records_append b.shortNames c.shortNames contents
    (.inl (length_labels_eq header))
  have length := congrArg List.length code
  rw [List.length_append, length_code_eq header] at length
  obtain rfl : rest = [] := List.eq_nil_of_length_eq_zero (by omega)
  rw [List.append_nil] at code
  exact BlobLayout.ext (congrArg BlobHeader.version header) labels code

theorem bytes_inj {b c : BlobLayout} : b.bytes = c.bytes ↔ b = c := by
  constructor
  · intro same
    exact eq_of_prefix (same ▸ List.prefix_rfl)
  · rintro rfl
    rfl

theorem read_bytes {b : BlobLayout} (known : b.version ≤ blobVersion) :
    BlobHeader.read b.bytes = .ok (b.header, b.content) :=
  BlobHeader.read_toBytes rfl known b.content

theorem readLabels_content {b : BlobLayout} {m : MachineCode} (holds : b.Holds m) :
    readLabels b.header.labelCount.toNat 0 .empty b.content = .ok (m.labels, m.code) := by
  refine readLabels_eq_ok_iff.mpr ⟨b.labels, b.toNat_labelCount.symm, b.shortNames, ?_, ?_⟩
  · rw [content, holds.code]
  · rw [LabelTable.entries_empty, List.append_nil]
    exact holds.labels

end BlobLayout

namespace MachineCode

/-- A blob has room for the program. -/
structure Storable (m : MachineCode) : Prop where
  shortNames : ShortNames m.labels.entries
  fewLabels : m.labels.size ≤ 65535
  shortCode : m.code.length < UInt32.size

/-- The layout a program is stored in: the newest version, with the labels in the order of names. -/
def layout (m : MachineCode) (h : m.Storable) : BlobLayout :=
  ⟨blobVersion, m.labels.entries, m.code, h.shortNames, m.labels.length_entries ▸ h.fewLabels,
    h.shortCode⟩

theorem toBlob_eq_ok_iff {m : MachineCode} {blob : List UInt8} :
    m.toBlob = .ok blob ↔ ∃ h : m.Storable, (m.layout h).bytes = blob := by
  unfold toBlob
  rw [bind_eq_ok_iff]
  constructor
  · rintro ⟨records, all, rest⟩
    obtain ⟨names, rfl⟩ := mapM_labelRecord_eq_ok_iff.mp all
    dsimp only at rest
    split at rest
    · cases rest
    · next few =>
      split at rest
      · cases rest
      · next short =>
        cases rest
        refine ⟨⟨names, Nat.le_of_lt_succ (Nat.lt_of_not_le few), Nat.lt_of_not_le short⟩, ?_⟩
        simp only [BlobLayout.bytes, BlobLayout.header, BlobLayout.content, layout,
          LabelTable.length_entries, List.flatMap_def]
  · rintro ⟨h, rfl⟩
    refine ⟨_, mapM_labelRecord_eq_ok_iff.mpr ⟨h.shortNames, rfl⟩, ?_⟩
    dsimp only
    rw [if_neg (Nat.not_le_of_lt (Nat.lt_succ_of_le h.fewLabels)),
      if_neg (Nat.not_le_of_lt h.shortCode)]
    simp only [BlobLayout.bytes, BlobLayout.header, BlobLayout.content, layout,
      LabelTable.length_entries, List.flatMap_def]
    rfl

/-- A blob can be read when its parts are as the header says and its code is readable to the end. -/
theorem ofBlob_eq_ok_iff {blob : List UInt8} {m : MachineCode} :
    ofBlob blob = .ok m ↔
      ∃ header content, BlobHeader.read blob = .ok (header, content) ∧
        checksum content = header.checksum ∧
        readLabels header.labelCount.toNat 0 .empty content = .ok (m.labels, m.code) ∧
        m.code.length = header.codeLength.toNat ∧
        ∃ steps, instructions m.code = .ok steps := by
  unfold ofBlob
  rw [bind_eq_ok_iff]
  constructor
  · rintro ⟨⟨header, content⟩, head, rest⟩
    dsimp only at rest
    split at rest
    · cases rest
    · next sum =>
      rw [bind_eq_ok_iff] at rest
      obtain ⟨⟨labels, code⟩, records, rest⟩ := rest
      dsimp only at rest
      split at rest
      · cases rest
      · next length =>
        cases read : instructions code with
        | error error => simp [stepCount, read, Except.map, throw, throwThe,
            MonadExceptOf.throw] at rest
        | ok steps =>
          simp only [stepCount, read, Except.map] at rest
          cases rest
          exact ⟨header, content, head, not_not.mp sum, records, not_not.mp length, steps, read⟩
  · rintro ⟨header, content, head, sum, records, length, steps, read⟩
    refine ⟨(header, content), head, ?_⟩
    dsimp only
    rw [if_neg (not_not.mpr sum), bind_eq_ok_iff]
    refine ⟨(m.labels, m.code), records, ?_⟩
    dsimp only
    rw [if_neg (not_not.mpr length)]
    simp only [stepCount, read, Except.map]
    rfl

theorem stepCount_eq (m : MachineCode) :
    m.stepCount = match (decode m.code).error with
      | some error => .error error
      | none => .ok (decode m.code).located.length := by
  unfold stepCount instructions Decoding.result
  cases (decode m.code).error <;> simp [Except.map]

/-- A layout of a known version is read as the program it holds, unless the code is at fault. -/
theorem ofBlob_bytes {b : BlobLayout} {m : MachineCode} (known : b.version ≤ blobVersion)
    (holds : b.Holds m) :
    ofBlob b.bytes = match (decode m.code).error with
      | some error => .error (.invalidCode error)
      | none => .ok m := by
  have sum : checksum b.content = b.header.checksum := rfl
  have length : m.code.length = b.header.codeLength.toNat := by
    rw [b.toNat_codeLength, holds.code]
  unfold ofBlob
  rw [BlobLayout.read_bytes known]
  simp only [bind, Except.bind]
  rw [if_neg (not_not.mpr sum), BlobLayout.readLabels_content holds]
  simp only [pure, Except.pure]
  rw [if_neg (not_not.mpr length), stepCount_eq]
  cases (decode m.code).error with
  | none => rfl
  | some error => rfl

/-- Nothing else is read as a program. -/
theorem exists_layout_of_ofBlob {blob : List UInt8} {m : MachineCode} (h : ofBlob blob = .ok m) :
    ∃ b : BlobLayout, b.version ≤ blobVersion ∧ b.Holds m ∧ b.bytes = blob := by
  obtain ⟨header, content, head, sum, records, length, -⟩ := ofBlob_eq_ok_iff.mp h
  obtain ⟨magic, known, rfl⟩ := BlobHeader.read_eq_ok_iff.mp head
  obtain ⟨labels, count, names, rfl, perm⟩ := readLabels_eq_ok_iff.mp records
  rw [LabelTable.entries_empty, List.append_nil] at perm
  have few := header.labelCount.toNat_lt
  have short := header.codeLength.toNat_lt
  refine ⟨⟨header.version, labels, m.code, names, ?_, ?_⟩, known, ⟨rfl, perm⟩, ?_⟩
  · omega
  · rw [length]
    exact short
  · have same : header = ⟨blobMagic, header.version, labels.length.toUInt16,
        m.code.length.toUInt32, checksum (labels.flatMap recordBytes ++ m.code)⟩ := by
      rw [count, length, sum, ← magic]
      simp
    rw [BlobLayout.bytes, BlobLayout.header, BlobLayout.content]
    dsimp only
    rw [← same]

end MachineCode

end Formicary
