import Formicary.Code.Listing
import Formicary.Code.Source
import Formicary.Proofs.Except
import Formicary.Proofs.Words
import Formicary.Review.Lint

/-!
# Operands in words and back

Numbers, registers and channels are read back from the words that a listing has for them. These
words are never empty and hold neither blanks nor comment marks, and none ends in a colon.
-/

namespace Formicary

namespace Text

theorem isDigit_iff {c : Char} : c.isDigit = true ↔ 0x30 ≤ c.toNat ∧ c.toNat ≤ 0x39 := by
  simp only [Char.isDigit, UInt32.le_iff_toNat_le, Bool.and_eq_true, decide_eq_true_eq]
  rfl

theorem digitValue?_of_isDigit {c : Char} (h : c.isDigit = true) :
    digitValue? 10 c = some (c.toNat - 0x30) := by
  obtain ⟨low, high⟩ := isDigit_iff.mp h
  have small : c.toNat - 0x30 < 10 := by omega
  simp [digitValue?, low, high, small]

/-- Digits are read as the number they spell. -/
theorem appendDigits?_eq (value : Nat) {cs : List Char} (h : ∀ c ∈ cs, c.isDigit = true) :
    appendDigits? 10 value cs = some (Nat.ofDigitChars 10 cs value) := by
  induction cs generalizing value with
  | nil => simp [appendDigits?]
  | cons c cs ih =>
    have first := digitValue?_of_isDigit (h c (by simp))
    have rest := ih (value * 10 + (c.toNat - 0x30)) fun d member => h d (by simp [member])
    simp only [appendDigits?, first, rest, Nat.ofDigitChars_cons, Nat.mul_comm]
    rfl

theorem isDigit_of_mem_toDigits {c : Char} {n : Nat} (h : c ∈ Nat.toDigits 10 n) :
    c.isDigit = true :=
  Nat.isDigit_of_mem_toDigits (by decide) (by decide) h

theorem readDigits?_toDigits (n : Nat) : readDigits? 10 (Nat.toDigits 10 n) = some n := by
  obtain ⟨c, cs, eq⟩ := List.exists_cons_of_ne_nil (Nat.toDigits_ne_nil (n := n) (b := 10))
  have digits : ∀ d ∈ Nat.toDigits 10 n, d.isDigit = true := fun d => isDigit_of_mem_toDigits
  have value := appendDigits?_eq 0 digits
  rw [Nat.ofDigitChars_ten_toDigits] at value
  rw [eq] at value ⊢
  exact value

/-- Digits stand without a sign. -/
theorem readNat?_toDigits (n : Nat) : readNat? 10 (Nat.toDigits 10 n) = some n := by
  unfold readNat?
  split
  · next cs eq =>
    have plus : '+' ∈ Nat.toDigits 10 n := by simp [eq]
    exact absurd (isDigit_of_mem_toDigits plus) (by decide)
  · exact readDigits?_toDigits n

theorem toList_toString (z : Int) :
    (toString z).toList = Nat.toDigits 10 z.natAbs ∧ 0 ≤ z ∨
      (toString z).toList = '-' :: Nat.toDigits 10 z.natAbs ∧ z < 0 := by
  cases z with
  | ofNat n => exact .inl ⟨Nat.toList_repr, Int.natCast_nonneg n⟩
  | negSucc n =>
    refine .inr ⟨?_, Int.negSucc_lt_zero n⟩
    show ("-" ++ Nat.repr (n + 1)).toList = _
    simp [Nat.toList_repr]

/-- A whole number is read back from its decimal form. -/
theorem readInt?_toString (z : Int) : readInt? (toString z).toList = some z := by
  rcases toList_toString z with ⟨form, sign⟩ | ⟨form, sign⟩ <;> rw [form]
  · unfold readInt?
    split
    · next cs eq =>
      have minus : '-' ∈ Nat.toDigits 10 z.natAbs := by simp [eq]
      exact absurd (isDigit_of_mem_toDigits minus) (by decide)
    · simp only [readNat?_toDigits]
      exact congrArg some (Int.natAbs_of_nonneg sign)
  · simp only [readInt?, readDigits?_toDigits]
    have negated : -(z.natAbs : Int) = z := by omega
    exact congrArg some negated

theorem readBetween?_toString {low high z : Int} (h : low ≤ z ∧ z ≤ high) :
    readBetween? low high (toString z).toList = some z := by
  simp only [readBetween?, readInt?_toString]
  simp [h.1, h.2]

theorem readUInt16?_toString (step : UInt16) :
    readUInt16? (toString step.toNat).toList = some step := by
  have form : (toString step.toNat).toList = Nat.toDigits 10 step.toNat := Nat.toList_repr
  have small := step.toNat_lt
  simp only [readUInt16?, readBelow?, form, readNat?_toDigits]
  simp [small]

end Text

open Text

/-- A word of a listing: no blanks, no comment mark, and no colon at its end. -/
structure IsPlain (w : List Char) : Prop extends IsWord w where
  unmarked : '#' ∉ w
  open_end : w.getLast? ≠ some ':'

theorem isPlain_of_forall {w : List Char} (ne_nil : w ≠ [])
    (h : ∀ c ∈ w, isBlank c = false ∧ c ≠ '#' ∧ c ≠ ':') : IsPlain w where
  ne_nil := ne_nil
  solid c member := (h c member).1
  unmarked member := (h '#' member).2.1 rfl
  open_end last := (h ':' (List.mem_of_getLast? last)).2.2 rfl

/-- The same for a word that is at hand, to be checked by evaluation. -/
theorem isPlain_of_all {w : List Char}
    (h : (!w.isEmpty && w.all fun c => !isBlank c && c != '#' && c != ':') = true) : IsPlain w := by
  simp only [Bool.and_eq_true, List.all_eq_true, bne_iff_ne, Bool.not_eq_true'] at h
  refine isPlain_of_forall ?_ fun c member => ?_
  · rintro rfl
    exact absurd h.1 (by simp)
  · obtain ⟨⟨solid, unmarked⟩, no_colon⟩ := h.2 c member
    exact ⟨solid, unmarked, no_colon⟩

theorem plain_of_isDigit {c : Char} (h : c.isDigit = true) :
    isBlank c = false ∧ c ≠ '#' ∧ c ≠ ':' := by
  obtain ⟨low, high⟩ := isDigit_iff.mp h
  refine ⟨?_, ?_, ?_⟩
  · simp [isBlank]
    omega
  · rintro rfl
    exact absurd h (by decide)
  · rintro rfl
    exact absurd h (by decide)

theorem isPlain_toDigits (n : Nat) : IsPlain (Nat.toDigits 10 n) :=
  isPlain_of_forall Nat.toDigits_ne_nil fun _ member =>
    plain_of_isDigit (isDigit_of_mem_toDigits member)

/-- The decimal form of a whole number: digits, and a sign before them if it is negative. -/
theorem digit_or_sign {z : Int} {c : Char} (h : c ∈ (toString z).toList) :
    c.isDigit = true ∨ c = '-' := by
  rcases toList_toString z with ⟨form, -⟩ | ⟨form, -⟩ <;> rw [form] at h
  · exact .inl (isDigit_of_mem_toDigits h)
  · rcases List.mem_cons.mp h with rfl | h
    · exact .inr rfl
    · exact .inl (isDigit_of_mem_toDigits h)

theorem isPlain_toString (z : Int) : IsPlain (toString z).toList := by
  refine isPlain_of_forall ?_ fun c member => ?_
  · rcases toList_toString z with ⟨form, -⟩ | ⟨form, -⟩ <;> rw [form]
    · exact Nat.toDigits_ne_nil
    · simp
  · rcases digit_or_sign member with digit | rfl
    · exact plain_of_isDigit digit
    · decide

theorem Reg.read?_name (r : Reg) : read? r.name.toList = some r := by
  cases r <;> rfl

theorem Reg.isPlain_name (r : Reg) : IsPlain r.name.toList := by
  apply isPlain_of_all
  cases r <;> rfl

theorem Channel.read?_letter (c : Channel) : read? c.letter.toString.toList = some c := by
  revert c
  decide

theorem Channel.isPlain_letter (c : Channel) : IsPlain c.letter.toString.toList := by
  apply isPlain_of_all
  revert c
  decide

/-- Constants are listed as numbers with a sign and read modulo two to the 32. -/
theorem readConstant?_toString (value : UInt32) :
    readConstant? (toString value.toInt32.toInt).toList = some value := by
  have form : value.toInt32.toInt =
      if 2 * value.toNat < 4294967296 then (value.toNat : Int) else value.toNat - 4294967296 :=
    BitVec.toInt_eq_toNat_cond value.toBitVec
  have small : value.toNat < 4294967296 := value.toNat_lt
  have bounds : -0x80000000 ≤ value.toInt32.toInt ∧ value.toInt32.toInt ≤ 0xFFFFFFFF := by
    rw [form]
    split <;> omega
  have back : (value.toInt32.toInt % 0x100000000).toNat.toUInt32 = value := by
    have same : (value.toInt32.toInt % 0x100000000).toNat = value.toNat := by
      rw [form]
      split <;> omega
    rw [same, Nat.toUInt32_eq, UInt32.ofNat_toNat]
  -- No number starts like a hexadecimal constant.
  have no_letter : ∀ x ∈ (toString value.toInt32.toInt).toList, x ≠ 'x' ∧ x ≠ 'X' := by
    intro x member
    rcases digit_or_sign member with digit | rfl
    · constructor <;> rintro rfl <;> exact absurd digit (by decide)
    · decide
  unfold readConstant?
  split
  · next eq => exact absurd rfl (no_letter 'x' (by rw [eq]; simp)).1
  · next eq => exact absurd rfl (no_letter 'X' (by rw [eq]; simp)).2
  · simp only [readBetween?_toString bounds, Option.map_some, back]

theorem readPriority?_toString (priority : Int8) :
    readPriority? (toString priority.toInt).toList = some priority := by
  have bounds : -128 ≤ priority.toInt ∧ priority.toInt ≤ 127 :=
    ⟨priority.le_toInt, Int.le_of_lt_add_one priority.toInt_lt⟩
  simp only [readPriority?, readBetween?_toString bounds, Option.map_some]
  simp

namespace Operands

/-- The word of a target: the first label of the step, or else its number. -/
def targetWord (nameAt? : UInt16 → Option String) (step : UInt16) : String :=
  (nameAt? step).getD (toString step.toNat)

/-- Every word of a listing is plain, if its targets are. -/
theorem isPlain_toWords {nameAt? : UInt16 → Option String} {s : Shape} {o : Operands s}
    (h : ∀ step ∈ o.target?, IsPlain (targetWord nameAt? step).toList) {w : String}
    (member : w ∈ o.toWords nameAt?) : IsPlain w.toList := by
  cases o with
  | bare => cases member
  | register r =>
    obtain rfl := List.mem_singleton.mp member
    exact r.isPlain_name
  | registerConstant r value =>
    rcases List.mem_cons.mp member with rfl | member
    · exact r.isPlain_name
    · obtain rfl := List.mem_singleton.mp member
      exact isPlain_toString _
  | registerPair source destination =>
    rcases List.mem_cons.mp member with rfl | member
    · exact source.isPlain_name
    · obtain rfl := List.mem_singleton.mp member
      exact destination.isPlain_name
  | target step =>
    obtain rfl := List.mem_singleton.mp member
    exact h step rfl
  | channel c =>
    obtain rfl := List.mem_singleton.mp member
    exact Channel.isPlain_letter c
  | channelPriority c priority =>
    rcases List.mem_cons.mp member with rfl | member
    · exact Channel.isPlain_letter c
    · obtain rfl := List.mem_singleton.mp member
      exact isPlain_toString _

theorem takeOperand_eq_ok_iff {α : Type} {op : Op} {kind : OperandKind}
    {read? : List Char → Option α} {ws rest : List (List Char)} {value : α} :
    takeOperand op kind read? ws = .ok (value, rest) ↔
      ∃ w, ws = w :: rest ∧ read? w = some value := by
  cases ws with
  | nil => simp [takeOperand]
  | cons w ws => cases read : read? w <;> simp [takeOperand, read, and_comm]

/-- Whether some words make up the operands, given what the labels name. -/
def Reads (labels : LabelTable) : {s : Shape} → Operands s → List (List Char) → Prop
  | _, .bare, ws => ws = []
  | _, .register r, ws => ∃ w, ws = [w] ∧ Reg.read? w = some r
  | _, .registerConstant r value, ws =>
    ∃ w v, ws = [w, v] ∧ Reg.read? w = some r ∧ readConstant? v = some value
  | _, .registerPair source destination, ws =>
    ∃ w v, ws = [w, v] ∧ Reg.read? w = some source ∧ Reg.read? v = some destination
  | _, .target step, ws => ∃ w, ws = [w] ∧ readTarget? labels w = some step
  | _, .channel c, ws => ∃ w, ws = [w] ∧ Channel.read? w = some c
  | _, .channelPriority c priority, ws =>
    ∃ w v, ws = [w, v] ∧ Channel.read? w = some c ∧ readPriority? v = some priority

/-- Operands are taken from all the words of a line exactly when the words make them up. -/
theorem takeOperands_eq_ok_iff (op : Op) {labels : LabelTable} {ws : List (List Char)} {s : Shape}
    {o : Operands s} : takeOperands op labels ws s = .ok (o, []) ↔ o.Reads labels ws := by
  cases o <;>
    simp only [takeOperands, bind_eq_ok_iff, Prod.exists, takeOperand_eq_ok_iff, pure, Except.pure,
      Except.ok.injEq, Prod.mk.injEq, Reads] <;> grind

/-- Operands are read back from their words, if the words of their targets are. -/
theorem reads_toWords {labels : LabelTable} {nameAt? : UInt16 → Option String} {s : Shape}
    {o : Operands s}
    (known : ∀ step ∈ o.target?, readTarget? labels (targetWord nameAt? step).toList = some step) :
    o.Reads labels ((o.toWords nameAt?).map String.toList) := by
  cases o with
  | bare => rfl
  | register r => exact ⟨_, rfl, r.read?_name⟩
  | registerConstant r value => exact ⟨_, _, rfl, r.read?_name, readConstant?_toString value⟩
  | registerPair source destination =>
    exact ⟨_, _, rfl, source.read?_name, destination.read?_name⟩
  | target step => exact ⟨_, rfl, known step rfl⟩
  | channel c => exact ⟨_, rfl, Channel.read?_letter c⟩
  | channelPriority c priority =>
    exact ⟨_, _, rfl, Channel.read?_letter c, readPriority?_toString priority⟩

end Operands

end Formicary
