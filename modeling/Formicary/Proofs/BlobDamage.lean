import Formicary.Proofs.BlobRoundTrip

/-!
# Damaged blobs

A blob of a stored program with one byte changed cannot be read, unless the change turns its version
into the older one. A change of the content changes the checksum, since each byte is combined with
the sum in a way that can be undone. The numbers of labels and of bytes of code lie outside the
checksum; but each of them follows from the other one and the content, so changing one of them alone
is noticed.
-/

namespace Formicary

section Checksum

/-- The checksum after one more byte. -/
def absorb (sum : UInt64) (b : UInt8) : UInt64 :=
  (sum ^^^ b.toUInt64) * 0x100000001b3

theorem checksum_eq_foldl (bytes : List UInt8) :
    checksum bytes = bytes.foldl absorb 0xcbf29ce484222325 :=
  rfl

/-- The multiplier is odd, so it has an inverse among the 64-bit numbers. -/
theorem mul_prime_cancel {x y : UInt64} (same : x * 0x100000001b3 = y * 0x100000001b3) : x = y := by
  have inverse : (0x100000001b3 : UInt64) * 0xce965057aff6957b = 1 := by decide
  calc x = x * (0x100000001b3 * 0xce965057aff6957b) := by rw [inverse, UInt64.mul_one]
    _ = y * (0x100000001b3 * 0xce965057aff6957b) := by
        rw [← UInt64.mul_assoc, same, UInt64.mul_assoc]
    _ = y := by rw [inverse, UInt64.mul_one]

theorem absorb_sum_inj {s t : UInt64} {b : UInt8} (same : absorb s b = absorb t b) : s = t :=
  (UInt64.xor_left_inj _).mp (mul_prime_cancel same)

theorem absorb_byte_inj {s : UInt64} {a b : UInt8} (same : absorb s a = absorb s b) : a = b := by
  have wide := (UInt64.xor_right_inj _).mp (mul_prime_cancel same)
  exact UInt8.toUInt64_inj.mp wide

theorem foldl_absorb_inj {bytes : List UInt8} {s t : UInt64}
    (same : bytes.foldl absorb s = bytes.foldl absorb t) : s = t := by
  induction bytes generalizing s t with
  | nil => exact same
  | cons b bytes ih => exact absorb_sum_inj (ih same)

theorem set_eq_of_foldl_absorb_eq {bytes : List UInt8} {s : UInt64} {place : Nat} {byte : UInt8}
    (same : (bytes.set place byte).foldl absorb s = bytes.foldl absorb s) :
    bytes.set place byte = bytes := by
  induction bytes generalizing s place with
  | nil => rfl
  | cons b bytes ih =>
    cases place with
    | zero =>
      have first : absorb s byte = absorb s b := foldl_absorb_inj same
      rw [List.set_cons_zero, absorb_byte_inj first]
    | succ place =>
      rw [List.set_cons_succ, ih same]

/-- Changing one byte changes the checksum. -/
theorem set_eq_of_checksum_eq {bytes : List UInt8} {place : Nat} {byte : UInt8}
    (same : checksum (bytes.set place byte) = checksum bytes) : bytes.set place byte = bytes := by
  rw [checksum_eq_foldl, checksum_eq_foldl] at same
  exact set_eq_of_foldl_absorb_eq same

end Checksum

/-- A changed byte of two parts lies in one of them. -/
theorem eq_set_or_eq_set {x y x' y' : List UInt8} {place : Nat} {byte : UInt8}
    (same : x' ++ y' = (x ++ y).set place byte) (length : x'.length = x.length) :
    (∃ i, x' = x.set i byte) ∧ y' = y ∨ x' = x ∧ ∃ i, y' = y.set i byte := by
  rw [List.set_append] at same
  split at same
  · obtain ⟨first, second⟩ := List.append_inj same (by simp [length])
    exact .inl ⟨⟨_, first⟩, second⟩
  · obtain ⟨first, second⟩ := List.append_inj same length
    exact .inr ⟨first, ⟨_, second⟩⟩

theorem BlobHeader.labelCount_eq_or_codeLength_eq {h k : BlobHeader} {place : Nat} {byte : UInt8}
    (same : k.toBytes = h.toBytes.set place byte) :
    k.labelCount = h.labelCount ∨ k.codeLength = h.codeLength := by
  have count (front : k.magic.toList ++ littleEndian 2 k.version.toNat ++
      littleEndian 2 k.labelCount.toNat = h.magic.toList ++ littleEndian 2 h.version.toNat ++
        littleEndian 2 h.labelCount.toNat) : k.labelCount = h.labelCount := by
    obtain ⟨-, count⟩ := List.append_inj' front (by simp)
    exact UInt16.toNat_inj.mp
      (eq_of_littleEndian_eq count k.labelCount.toNat_lt h.labelCount.toNat_lt)
  unfold toBytes at same
  rcases eq_set_or_eq_set same (by simp) with ⟨⟨i, front⟩, -⟩ | ⟨front, -⟩
  · rcases eq_set_or_eq_set front (by simp) with ⟨-, length⟩ | ⟨front, -⟩
    · exact .inr (UInt32.toNat_inj.mp
        (eq_of_littleEndian_eq length k.codeLength.toNat_lt h.codeLength.toNat_lt))
    · exact .inl (count front)
  · exact .inl (count (List.append_inj' front (by simp)).1)

namespace BlobLayout

/-- A change of one byte that gives another layout has not changed the labels or the code. -/
theorem eq_of_bytes_eq_set {b c : BlobLayout} {place : Nat} {byte : UInt8}
    (same : c.bytes = b.bytes.set place byte) : c.labels = b.labels ∧ c.code = b.code := by
  rcases eq_set_or_eq_set same (by simp) with ⟨⟨i, heads⟩, contents⟩ | ⟨heads, ⟨i, contents⟩⟩
  · refine eq_of_records_append c.shortNames b.shortNames contents ?_
    rw [← c.toNat_labelCount, ← b.toNat_labelCount, ← c.toNat_codeLength, ← b.toNat_codeLength]
    rcases BlobHeader.labelCount_eq_or_codeLength_eq heads with count | length
    · exact .inl (congrArg UInt16.toNat count)
    · exact .inr (congrArg UInt32.toNat length)
  · have header := BlobHeader.eq_of_toBytes_eq heads
    have sum : checksum c.content = checksum b.content := congrArg BlobHeader.checksum header
    rw [contents] at sum
    exact eq_of_records_append c.shortNames b.shortNames
      (contents.trans (set_eq_of_checksum_eq sum)) (.inl (length_labels_eq header))

theorem getElem?_bytes_four (b : BlobLayout) : b.bytes[4]? = some b.version.toNat.toUInt8 :=
  rfl

/-- The same labels and code in the older version. -/
def older (b : BlobLayout) : BlobLayout :=
  { b with version := 0 }

theorem bytes_older {b : BlobLayout} (newest : b.version = blobVersion) :
    b.older.bytes = b.bytes.set 4 0 := by
  obtain ⟨version, labels, code, names, few, short⟩ := b
  obtain rfl : version = 1 := newest
  simp only [older, bytes, header, BlobHeader.toBytes, List.append_assoc]
  rfl

end BlobLayout

namespace MachineCode

/-- A stored program whose code is readable cannot be read any more once a byte of its blob has
changed, except that the version may have become the older one. -/
theorem ofBlob_set_of_toBlob {m : MachineCode} {blob : List UInt8} (stored : m.toBlob = .ok blob)
    (readable : (decode m.code).error = none) {place : Nat} (inside : place < blob.length)
    {byte : UInt8} (changed : byte ≠ blob[place]) :
    if place = 4 ∧ byte = 0 then ofBlob (blob.set place byte) = .ok m
    else ∃ error, ofBlob (blob.set place byte) = .error error := by
  obtain ⟨h, rfl⟩ := toBlob_eq_ok_iff.mp stored
  split
  · next older =>
    obtain ⟨rfl, rfl⟩ := older
    rw [← BlobLayout.bytes_older rfl, ofBlob_bytes (UInt16.zero_le) ⟨rfl, .refl _⟩, readable]
  · next other =>
    apply exists_error_of_ne_ok
    intro k accepted
    obtain ⟨c, known, -, same⟩ := exists_layout_of_ofBlob accepted
    obtain ⟨labels, code⟩ := BlobLayout.eq_of_bytes_eq_set same
    have differs : c.version ≠ blobVersion := by
      intro version
      rw [show c = m.layout h from BlobLayout.ext version labels code] at same
      apply changed
      have found := congrArg (·[place]?) same
      simp only [List.getElem?_eq_getElem inside, List.getElem?_set_self inside] at found
      exact (Option.some.inj found).symm
    have zero : c.version = 0 := by
      have less := UInt16.lt_of_le_of_ne known differs
      exact UInt16.toNat_inj.mp (Nat.lt_one_iff.mp less)
    have fourth := congrArg (·[4]?) same
    simp only [BlobLayout.getElem?_bytes_four, zero] at fourth
    by_cases at_version : place = 4
    · subst at_version
      rw [List.getElem?_set_self inside] at fourth
      exact other ⟨rfl, (Option.some.inj fourth).symm⟩
    · rw [List.getElem?_set_ne at_version, BlobLayout.getElem?_bytes_four] at fourth
      cases fourth

theorem ofBlob_set_of_toBlob_twoLabels :
    twoLabels.toBlob = .ok twoLabelsBlob ∧ (decode twoLabels.code).error = none ∧
      ofBlob (twoLabelsBlob.set 4 0) = .ok twoLabels ∧
        ∃ error, ofBlob (twoLabelsBlob.set 6 1) = .error error :=
  have damaged {place : Nat} (inside : place < twoLabelsBlob.length) {byte : UInt8} :=
    @ofBlob_set_of_toBlob _ _ toBlob_twoLabels error_twoLabels place inside byte
  ⟨toBlob_twoLabels, error_twoLabels,
    @damaged 4 (by decide) 0 (by decide), @damaged 6 (by decide) 1 (by decide)⟩

end MachineCode

end Formicary
