import Mathlib.Tactic.SplitIfs
import Formicary.Text.Utf8

/-!
# Texts and their bytes

Bytes that spell a text are its UTF-8 bytes, so a text is read from them and from nothing else. The
order of texts by code points is the lexicographic order of their bytes: two characters differ at a
byte that both of them have, and the greater character has the greater byte there.
-/

namespace Formicary.Text

theorem fromBytes_eq_ok_iff {bytes : List UInt8} {text : String} :
    fromBytes bytes = .ok text ↔ toBytes text = bytes := by
  unfold fromBytes ofBytes? String.fromUTF8?
  by_cases valid : ByteArray.IsValidUTF8 ⟨bytes.toArray⟩
  · simp only [valid, dite_true, Except.ok.injEq]
    constructor
    · rintro rfl
      rfl
    · rintro rfl
      rfl
  · simp only [valid, dite_false, reduceCtorEq, false_iff]
    rintro rfl
    exact valid text.isValidUTF8

theorem fromBytes_toBytes (text : String) : fromBytes (toBytes text) = .ok text :=
  fromBytes_eq_ok_iff.mpr rfl

theorem toBytes_inj {s t : String} : toBytes s = toBytes t ↔ s = t := by
  constructor
  · intro same
    have read := fromBytes_toBytes s
    rw [same, fromBytes_toBytes t] at read
    exact (Except.ok.inj read).symm
  · rintro rfl
    rfl

theorem toBytes_eq_flatMap (text : String) :
    toBytes text = text.toList.flatMap String.utf8EncodeChar := by
  rw [toBytes, String.toUTF8_eq_toByteArray, ← String.utf8Encode_toList]
  exact List.toList_data_toByteArray

/-- Two byte strings differ within both of them, and at the first difference the second is greater.
What follows them does not change their order. -/
def StrictlyBelow : List UInt8 → List UInt8 → Prop
  | a :: x, b :: y => a < b ∨ a = b ∧ StrictlyBelow x y
  | _, _ => False

theorem StrictlyBelow.append_lt {x y : List UInt8} (h : StrictlyBelow x y) (r s : List UInt8) :
    x ++ r < y ++ s := by
  fun_induction StrictlyBelow x y with
  | case1 a x b y ih =>
    rw [List.cons_append, List.cons_append, List.cons_lt_cons_iff]
    rcases h with less | ⟨same, below⟩
    · exact .inl less
    · exact .inr ⟨same, ih below⟩
  | case2 => cases h

theorem strictlyBelow_utf8EncodeChar {c d : Char} (h : c < d) :
    StrictlyBelow (String.utf8EncodeChar c) (String.utf8EncodeChar d) := by
  have less : c.val.toNat < d.val.toNat := h
  have top : d.val.toNat < 0x110000 := by
    rcases d.valid with low | ⟨-, high⟩
    · exact Nat.lt_trans low (by decide)
    · exact high
  unfold String.utf8EncodeChar
  dsimp only
  generalize c.val.toNat = v at *
  generalize d.val.toNat = w at *
  -- Each byte after the first holds six bits, so the bytes before it spell the quotient by 64.
  have twice (n : Nat) : n / 4096 = n / 64 / 64 := by omega
  have thrice (n : Nat) : n / 262144 = n / 64 / 64 / 64 := by omega
  simp only [twice, thrice]
  split_ifs <;>
    simp only [StrictlyBelow, UInt8.lt_iff_toNat_lt, ← UInt8.toNat_inj, UInt8.toNat_ofNat'] <;>
    omega

theorem flatMap_utf8EncodeChar_lt {s t : List Char} (h : s < t) :
    s.flatMap String.utf8EncodeChar < t.flatMap String.utf8EncodeChar := by
  induction h with
  | @nil d t =>
    have some_byte : String.utf8EncodeChar d ≠ [] := by
      intro none
      have size := String.length_utf8EncodeChar d
      have := d.utf8Size_pos
      rw [none, List.length_nil] at size
      omega
    obtain ⟨b, bytes, split⟩ := List.exists_cons_of_ne_nil some_byte
    rw [List.flatMap_cons, split]
    exact List.nil_lt_cons ..
  | rel less =>
    rw [List.flatMap_cons, List.flatMap_cons]
    exact (strictlyBelow_utf8EncodeChar less).append_lt _ _
  | cons _ ih =>
    rw [List.flatMap_cons, List.flatMap_cons]
    exact List.append_left_lt ih

/-- A greater text has greater bytes. -/
theorem toBytes_lt {s t : String} (h : s < t) : toBytes s < toBytes t := by
  rw [toBytes_eq_flatMap, toBytes_eq_flatMap]
  exact flatMap_utf8EncodeChar_lt (String.lt_iff.mp h)

end Formicary.Text
