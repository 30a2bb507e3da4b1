import Mathlib.Data.List.Induction
import Formicary.Proofs.Lines

/-!
# What the words of a program may be

The words that stand for numbers, registers, channels, targets and operations, said without the
functions that read them: a numeral is built up digit by digit from its front, a letter is itself in
either case. Each reading function accepts exactly the words of its kind.
-/

namespace Formicary

namespace Text

/-- A digit for a value, in either case. -/
def IsDigit (base : Nat) (c : Char) (d : Nat) : Prop :=
  d < base ∧ (c = d.digitChar ∨ c = d.digitChar.toUpper)

/-- Digits for a number, the most significant first. -/
inductive Digits (base : Nat) : List Char → Nat → Prop where
  | nil : Digits base [] 0
  | concat {cs : List Char} {n : Nat} {c : Char} {d : Nat} (front : Digits base cs n)
    (last : IsDigit base c d) : Digits base (cs ++ [c]) (n * base + d)

/-- At least one digit, and maybe a plus sign before them. -/
def Numeral (base : Nat) (w : List Char) (n : Nat) : Prop :=
  ∃ ds, ds ≠ [] ∧ Digits base ds n ∧ (w = ds ∨ w = '+' :: ds)

/-- A decimal numeral, or a minus sign and at least one decimal digit. -/
def SignedNumeral (w : List Char) (z : Int) : Prop :=
  (∃ n : Nat, Numeral 10 w n ∧ z = n) ∨
    ∃ ds n, ds ≠ [] ∧ Digits 10 ds n ∧ w = '-' :: ds ∧ z = -(n : Int)

section Digits

variable {base : Nat} {c : Char} {d n : Nat} {cs : List Char}

theorem toNat_digitChar :
    ∀ d < 16, d < 10 ∧ d.digitChar.toNat = 0x30 + d ∧ d.digitChar.toUpper.toNat = 0x30 + d ∨
      10 ≤ d ∧ d.digitChar.toNat = 0x57 + d ∧ d.digitChar.toUpper.toNat = 0x37 + d := by
  decide

theorem digitValue?_eq_some_iff (small : base ≤ 16) :
    digitValue? base c = some d ↔ IsDigit base c d := by
  have value : digitValue? base c = some d ↔ d < base ∧
      (0x30 ≤ c.toNat ∧ c.toNat ≤ 0x39 ∧ d + 0x30 = c.toNat ∨
        0x41 ≤ c.toNat ∧ c.toNat ≤ 0x46 ∧ d + 0x37 = c.toNat ∨
        0x61 ≤ c.toNat ∧ c.toNat ≤ 0x66 ∧ d + 0x57 = c.toNat) := by
    unfold digitValue?
    simp only [Bool.and_eq_true, decide_eq_true_eq, Option.filter_eq_some_iff]
    split
    · simp only [Option.some.injEq]
      omega
    · split
      · simp only [Option.some.injEq]
        omega
      · split
        · simp only [Option.some.injEq]
          omega
        · simp only [reduceCtorEq, false_and, false_iff]
          omega
  rw [value, IsDigit, ← Char.toNat_inj, ← Char.toNat_inj]
  constructor
  · rintro ⟨low, shape⟩
    have chars := toNat_digitChar d (by omega)
    omega
  · rintro ⟨low, shape⟩
    have chars := toNat_digitChar d (by omega)
    omega

theorem digits_concat_iff :
    Digits base (cs ++ [c]) n ↔
      ∃ m d, Digits base cs m ∧ IsDigit base c d ∧ n = m * base + d := by
  constructor
  · intro digits
    generalize whole : cs ++ [c] = w at digits
    cases digits with
    | nil => simp at whole
    | @concat front m b d digits last =>
      obtain ⟨rfl, one⟩ := List.append_inj' whole rfl
      cases one
      exact ⟨m, d, digits, last, rfl⟩
  · rintro ⟨m, d, digits, last, rfl⟩
    exact .concat digits last

theorem Digits.exists_isDigit (digits : Digits base cs n) (member : c ∈ cs) :
    ∃ d, IsDigit base c d := by
  induction digits with
  | nil => cases member
  | concat front last ih =>
    rcases List.mem_append.mp member with earlier | here
    · exact ih earlier
    · rw [List.mem_singleton.mp here]
      exact ⟨_, last⟩

theorem not_isDigit (small : base ≤ 16) (unread : digitValue? base c = none) :
    ¬IsDigit base c d := by
  intro digit
  rw [(digitValue?_eq_some_iff small).mpr digit] at unread
  cases unread

/-- A digit behind others is read last. -/
theorem appendDigits?_concat (value : Nat) (cs : List Char) (c : Char) :
    appendDigits? base value (cs ++ [c]) =
      (appendDigits? base value cs).bind fun n => (digitValue? base c).map (n * base + ·) := by
  induction cs generalizing value with
  | nil =>
    simp only [List.nil_append, appendDigits?, Option.bind_some]
    cases digitValue? base c <;> rfl
  | cons d cs ih =>
    simp only [List.cons_append, appendDigits?]
    cases digitValue? base d with
    | none => rfl
    | some first => exact ih _

theorem appendDigits?_eq_some_iff (small : base ≤ 16) :
    appendDigits? base 0 cs = some n ↔ Digits base cs n := by
  induction cs using List.reverseRecOn generalizing n with
  | nil =>
    simp only [appendDigits?, Option.some.injEq]
    constructor
    · rintro rfl
      exact .nil
    · intro digits
      generalize whole : ([] : List Char) = w at digits
      cases digits with
      | nil => rfl
      | concat front last => simp at whole
  | append_singleton cs c ih =>
    rw [appendDigits?_concat, digits_concat_iff]
    simp only [Option.bind_eq_some_iff, Option.map_eq_some_iff, ih, digitValue?_eq_some_iff small]
    grind

theorem readDigits?_eq_some_iff (small : base ≤ 16) :
    readDigits? base cs = some n ↔ cs ≠ [] ∧ Digits base cs n := by
  cases cs with
  | nil => simp [readDigits?]
  | cons c cs => simpa [readDigits?] using appendDigits?_eq_some_iff small

end Digits

section Numerals

variable {base n : Nat} {w : List Char} {z : Int}

theorem readNat?_eq_some_iff (small : base ≤ 16) : readNat? base w = some n ↔ Numeral base w n := by
  have sign : ∀ cs, ¬Digits base ('+' :: cs) n := by
    intro cs digits
    obtain ⟨d, digit⟩ := digits.exists_isDigit (c := '+') (by simp)
    exact not_isDigit small rfl digit
  unfold readNat? Numeral
  split
  · next cs =>
    rw [readDigits?_eq_some_iff small]
    constructor
    · rintro ⟨some, digits⟩
      exact ⟨cs, some, digits, .inr rfl⟩
    · rintro ⟨ds, some, digits, rfl | same⟩
      · exact absurd digits (sign cs)
      · cases same
        exact ⟨some, digits⟩
  · next unsigned =>
    rw [readDigits?_eq_some_iff small]
    constructor
    · rintro ⟨some, digits⟩
      exact ⟨w, some, digits, .inl rfl⟩
    · rintro ⟨ds, some, digits, rfl | rfl⟩
      · exact ⟨some, digits⟩
      · exact absurd rfl (unsigned ds)

theorem readInt?_eq_some_iff : readInt? w = some z ↔ SignedNumeral w z := by
  have sign : ∀ cs m, ¬Numeral 10 ('-' :: cs) m := by
    rintro cs m ⟨ds, -, digits, rfl | same⟩
    · obtain ⟨d, digit⟩ := digits.exists_isDigit (c := '-') (by simp)
      exact not_isDigit (by decide) rfl digit
    · cases same
  have lifted (x : Option Nat) :
      (x >>= fun n => pure (n : Int)) = Option.map (Nat.cast : Nat → Int) x := by
    cases x <;> rfl
  unfold readInt? SignedNumeral
  split
  · next cs =>
    simp only [lifted, Option.map_map, Option.map_eq_some_iff, Function.comp_apply,
      readDigits?_eq_some_iff (show 10 ≤ 16 by decide)]
    constructor
    · rintro ⟨m, ⟨some, digits⟩, rfl⟩
      exact .inr ⟨cs, m, some, digits, rfl, rfl⟩
    · rintro (⟨m, numeral, -⟩ | ⟨ds, m, some, digits, same, rfl⟩)
      · exact absurd numeral (sign cs m)
      · cases same
        exact ⟨m, ⟨some, digits⟩, rfl⟩
  · next positive =>
    simp only [lifted, Option.map_map, Option.map_eq_some_iff, Function.comp_apply,
      readNat?_eq_some_iff (show 10 ≤ 16 by decide)]
    constructor
    · rintro ⟨m, numeral, rfl⟩
      exact .inl ⟨m, numeral, rfl⟩
    · rintro (⟨m, numeral, rfl⟩ | ⟨ds, m, -, -, rfl, -⟩)
      · exact ⟨m, numeral, rfl⟩
      · exact absurd rfl (positive ds)

theorem readBetween?_eq_some_iff {low high : Int} :
    readBetween? low high w = some z ↔ SignedNumeral w z ∧ low ≤ z ∧ z ≤ high := by
  simp [readBetween?, Option.filter_eq_some_iff, readInt?_eq_some_iff]

theorem readUInt16?_eq_some_iff {step : UInt16} :
    readUInt16? w = some step ↔ Numeral 10 w step.toNat := by
  unfold readUInt16? readBelow?
  simp only [Option.map_eq_some_iff, Option.filter_eq_some_iff, decide_eq_true_eq,
    readNat?_eq_some_iff (show 10 ≤ 16 by decide)]
  constructor
  · rintro ⟨n, ⟨numeral, small⟩, rfl⟩
    rw [Nat.toUInt16_eq, UInt16.toNat_ofNat_of_lt' small]
    exact numeral
  · intro numeral
    exact ⟨step.toNat, ⟨numeral, step.toNat_lt⟩, by simp⟩

theorem readUInt16?_eq_none_iff :
    readUInt16? w = none ↔ ∀ n, Numeral 10 w n → UInt16.size ≤ n := by
  rw [Option.eq_none_iff_forall_ne_some]
  simp only [ne_eq, readUInt16?_eq_some_iff]
  constructor
  · intro none n numeral
    by_contra small
    refine none (UInt16.ofNat n) ?_
    rw [UInt16.toNat_ofNat_of_lt' (Nat.lt_of_not_le small)]
    exact numeral
  · intro large step numeral
    exact absurd step.toNat_lt (Nat.not_lt.mpr (large _ numeral))

end Numerals

end Text

open Text

/-- The letter of a register, in either case. -/
def IsRegister (w : List Char) (r : Reg) : Prop :=
  w.map Char.toUpper = r.name.toList

/-- The letter of a channel, in either case. -/
def IsChannel (w : List Char) (c : Channel) : Prop :=
  w.map Char.toUpper = [c.letter]

/-- A hexadecimal numeral after `0x` that fits 32 bits, or a decimal one that fits them with or
without a sign. Negative numbers stand for their remainder modulo two to the 32. -/
def IsConstant (w : List Char) (value : UInt32) : Prop :=
  (∃ ds, (w = '0' :: 'x' :: ds ∨ w = '0' :: 'X' :: ds) ∧ Numeral 16 ds value.toNat) ∨
    ∃ z, SignedNumeral w z ∧ -0x80000000 ≤ z ∧ z ≤ 0xFFFFFFFF ∧
      (value.toNat : Int) = z % 0x100000000

/-- A decimal number that fits eight bits with a sign. -/
def IsPriority (w : List Char) (priority : Int8) : Prop :=
  SignedNumeral w priority.toInt

/-- The number of a step, or else a name for one. -/
def IsTarget (names : List Char → Nat → Prop) (w : List Char) (step : UInt16) : Prop :=
  Numeral 10 w step.toNat ∨ (∀ n, Numeral 10 w n → UInt16.size ≤ n) ∧ names w step.toNat

/-- The words of some operands, given which names the steps have. -/
def Operands.Written (names : List Char → Nat → Prop) :
    {s : Shape} → Operands s → List (List Char) → Prop
  | _, .bare, ws => ws = []
  | _, .register r, ws => ∃ w, ws = [w] ∧ IsRegister w r
  | _, .registerConstant r value, ws =>
    ∃ w v, ws = [w, v] ∧ IsRegister w r ∧ IsConstant v value
  | _, .registerPair source destination, ws =>
    ∃ w v, ws = [w, v] ∧ IsRegister w source ∧ IsRegister v destination
  | _, .target step, ws => ∃ w, ws = [w] ∧ IsTarget names w step
  | _, .channel c, ws => ∃ w, ws = [w] ∧ IsChannel w c
  | _, .channelPriority c priority, ws =>
    ∃ w v, ws = [w, v] ∧ IsChannel w c ∧ IsPriority v priority

/-- The words of an instruction: a mnemonic in any mixture of cases, and its operands. -/
def Instruction.Written (names : List Char → Nat → Prop) (i : Instruction)
    (ws : List (List Char)) : Prop :=
  ∃ w rest, ws = w :: rest ∧ w.map Char.toUpper = i.op.mnemonic.toList ∧
    i.operands.Written names rest

section Letters

theorem toNat_toUpper (c : Char) :
    c.toUpper.toNat = if 0x61 ≤ c.toNat ∧ c.toNat ≤ 0x7A then c.toNat - 0x20 else c.toNat := by
  unfold Char.toUpper
  have range : 'a'.val ≤ c.val ∧ c.val ≤ 'z'.val ↔ 0x61 ≤ c.toNat ∧ c.toNat ≤ 0x7A := Iff.rfl
  split
  · next lower =>
    rw [if_pos (range.mp lower)]
    have shift : ('A'.val - 'a'.val).toNat = 4294967264 := by decide
    have bound : 0x61 ≤ c.val.toNat ∧ c.val.toNat ≤ 0x7A := range.mp lower
    show (c.val + ('A'.val - 'a'.val)).toNat = c.val.toNat - 0x20
    rw [UInt32.toNat_add, shift]
    omega
  · next other => rw [if_neg (mt range.mpr other)]

/-- A word that becomes one capital letter is that letter in either case. -/
theorem map_toUpper_eq_singleton_iff {w : List Char} {x : Char}
    (capital : 0x41 ≤ x.toNat ∧ x.toNat ≤ 0x5A) :
    w.map Char.toUpper = [x] ↔ ∃ c, w = [c] ∧ (c.toNat = x.toNat ∨ c.toNat = x.toNat + 0x20) := by
  have letter (c : Char) : c.toUpper = x ↔ c.toNat = x.toNat ∨ c.toNat = x.toNat + 0x20 := by
    rw [← Char.toNat_inj, toNat_toUpper]
    split <;> omega
  constructor
  · intro same
    obtain ⟨c, cs, rfl, first, rest⟩ := List.map_eq_cons_iff.mp same
    rw [List.map_eq_nil_iff.mp rest]
    exact ⟨c, rfl, (letter c).mp first⟩
  · rintro ⟨c, rfl, shape⟩
    rw [List.map_singleton, (letter c).mpr shape]

theorem Reg.read?_eq_some_iff {w : List Char} {r : Reg} :
    Reg.read? w = some r ↔ IsRegister w r := by
  constructor
  · intro read
    unfold Reg.read? at read
    split at read <;> cases read <;> rfl
  · intro written
    cases r with
    | a =>
      obtain ⟨c, rfl, upper | lower⟩ := (map_toUpper_eq_singleton_iff (by decide)).mp written
      · rw [Char.toNat_inj.mp upper]
        rfl
      · rw [show c = 'a' from Char.toNat_inj.mp lower]
        rfl
    | b =>
      obtain ⟨c, rfl, upper | lower⟩ := (map_toUpper_eq_singleton_iff (by decide)).mp written
      · rw [Char.toNat_inj.mp upper]
        rfl
      · rw [show c = 'b' from Char.toNat_inj.mp lower]
        rfl

theorem Channel.read?_eq_some_iff {w : List Char} {c : Channel} :
    Channel.read? w = some c ↔ IsChannel w c := by
  have letter : c.letter.toNat = 0x41 + c.val := by
    revert c
    decide
  have small := c.isLt
  have shape : IsChannel w c ↔
      ∃ x, w = [x] ∧ (x.toNat = 0x41 + c.val ∨ x.toNat = 0x61 + c.val) := by
    unfold IsChannel
    rw [map_toUpper_eq_singleton_iff (by omega), letter]
    grind
  rw [shape]
  cases w with
  | nil => simp [Channel.read?]
  | cons x w =>
    cases w with
    | nil =>
      have value : Channel.read? [x] = some c ↔
          x.toNat = 0x41 + c.val ∨ x.toNat = 0x61 + c.val := by
        simp only [Channel.read?, Bool.and_eq_true, decide_eq_true_eq]
        split
        · simp only [Option.some.injEq, Fin.ext_iff, Fin.val_ofNat]
          omega
        · split
          · simp only [Option.some.injEq, Fin.ext_iff, Fin.val_ofNat]
            omega
          · simp only [reduceCtorEq, false_iff]
            omega
      rw [value]
      simp
    | cons y w => simp [Channel.read?]

theorem Op.ofMnemonic?_eq_some_iff {w : List Char} {op : Op} :
    Op.ofMnemonic? w = some op ↔ w.map Char.toUpper = op.mnemonic.toList := by
  constructor
  · intro found
    have same := List.find?_some found
    exact (beq_iff_eq.mp same).symm
  · intro same
    unfold ofMnemonic?
    rw [same]
    cases op <;> rfl

end Letters

section Words

variable {w : List Char}

theorem readConstant?_eq_some_iff {value : UInt32} :
    readConstant? w = some value ↔ IsConstant w value := by
  have hexadecimal {ds : List Char} :
      ((readNat? 16 ds).filter (· < UInt32.size)).map Nat.toUInt32 = some value ↔
        Numeral 16 ds value.toNat := by
    simp only [Option.map_eq_some_iff, Option.filter_eq_some_iff, decide_eq_true_eq,
      readNat?_eq_some_iff (show 16 ≤ 16 by decide)]
    constructor
    · rintro ⟨n, ⟨numeral, small⟩, rfl⟩
      rw [Nat.toUInt32_eq, UInt32.toNat_ofNat_of_lt' small]
      exact numeral
    · intro numeral
      exact ⟨value.toNat, ⟨numeral, value.toNat_lt⟩, by simp⟩
  -- No decimal numeral has the letter behind the zero.
  have other {x : Char} {ds : List Char} {z : Int} (letter : digitValue? 10 x = none) :
      ¬SignedNumeral ('0' :: x :: ds) z := by
    rintro (⟨n, ⟨cs, -, digits, rfl | same⟩, -⟩ | ⟨cs, n, -, -, same, -⟩)
    · obtain ⟨d, digit⟩ := digits.exists_isDigit (c := x) (by simp)
      exact not_isDigit (by decide) letter digit
    · cases same
    · cases same
  unfold readConstant? IsConstant
  split
  · next ds =>
    rw [hexadecimal]
    constructor
    · intro numeral
      exact .inl ⟨ds, .inl rfl, numeral⟩
    · rintro (⟨cs, same | same, numeral⟩ | ⟨z, numeral, -⟩)
      · cases same
        exact numeral
      · cases same
      · exact absurd numeral (other rfl)
  · next ds =>
    rw [hexadecimal]
    constructor
    · intro numeral
      exact .inl ⟨ds, .inr rfl, numeral⟩
    · rintro (⟨cs, same | same, numeral⟩ | ⟨z, numeral, -⟩)
      · cases same
      · cases same
        exact numeral
      · exact absurd numeral (other rfl)
  · next lower upper =>
    simp only [Option.map_eq_some_iff, readBetween?_eq_some_iff]
    constructor
    · rintro ⟨z, ⟨numeral, low, high⟩, rfl⟩
      refine .inr ⟨z, numeral, low, high, ?_⟩
      rw [Nat.toUInt32_eq, UInt32.toNat_ofNat_of_lt' (by show _ < 4294967296; omega)]
      omega
    · rintro (⟨ds, rfl | rfl, -⟩ | ⟨z, numeral, low, high, same⟩)
      · exact absurd rfl (lower ds)
      · exact absurd rfl (upper ds)
      · refine ⟨z, ⟨numeral, low, high⟩, ?_⟩
        rw [← same]
        simp

theorem readPriority?_eq_some_iff {priority : Int8} :
    readPriority? w = some priority ↔ IsPriority w priority := by
  unfold readPriority? IsPriority
  simp only [Option.map_eq_some_iff, readBetween?_eq_some_iff]
  constructor
  · rintro ⟨z, ⟨numeral, low, high⟩, rfl⟩
    rw [Int.toInt8, Int8.toInt_ofInt_of_le (by omega) (by omega)]
    exact numeral
  · intro numeral
    exact ⟨priority.toInt, ⟨numeral, priority.le_toInt, Int.le_of_lt_add_one priority.toInt_lt⟩,
      by simp⟩

/-- Targets are read by a table that knows the names. -/
theorem readTarget?_eq_some_iff {labels : LabelTable} {names : List Char → Nat → Prop}
    (known : ∀ w step, labels.stepOf? (String.ofList w) = some step ↔ names w step.toNat)
    {step : UInt16} : readTarget? labels w = some step ↔ IsTarget names w step := by
  unfold readTarget? IsTarget
  cases read : readUInt16? w with
  | none =>
    have large := readUInt16?_eq_none_iff.mp read
    simp only [known]
    constructor
    · intro named
      exact .inr ⟨large, named⟩
    · rintro (numeral | ⟨-, named⟩)
      · exact absurd step.toNat_lt (Nat.not_lt.mpr (large _ numeral))
      · exact named
  | some other =>
    have numeral := readUInt16?_eq_some_iff.mp read
    simp only [Option.some.injEq]
    constructor
    · rintro rfl
      exact .inl numeral
    · rintro (same | ⟨large, -⟩)
      · exact Option.some.inj (read.symm.trans (readUInt16?_eq_some_iff.mpr same))
      · exact absurd other.toNat_lt (Nat.not_lt.mpr (large _ numeral))

/-- Words make up operands for a table that knows the names exactly when they are their words. -/
theorem Operands.reads_iff_written {labels : LabelTable} {names : List Char → Nat → Prop}
    (known : ∀ w step, labels.stepOf? (String.ofList w) = some step ↔ names w step.toNat)
    {s : Shape} {o : Operands s} {ws : List (List Char)} :
    o.Reads labels ws ↔ o.Written names ws := by
  cases o with
  | bare => exact Iff.rfl
  | register r => simp only [Reads, Written, Reg.read?_eq_some_iff]
  | registerConstant r value =>
    simp only [Reads, Written, Reg.read?_eq_some_iff, readConstant?_eq_some_iff]
  | registerPair source destination => simp only [Reads, Written, Reg.read?_eq_some_iff]
  | target step => simp only [Reads, Written, readTarget?_eq_some_iff known]
  | channel c => simp only [Reads, Written, Channel.read?_eq_some_iff]
  | channelPriority c priority =>
    simp only [Reads, Written, Channel.read?_eq_some_iff, readPriority?_eq_some_iff]

end Words

section Texts

/-- The first word of a text stands before the first blank. -/
theorem words_eq_splitFirst {c : Char} (cs : List Char) (solid : isBlank c = false) :
    words (c :: cs) = (splitFirst (c :: cs)).1 :: words (splitFirst (c :: cs)).2 := by
  have word : IsWord ((c :: cs).takeWhile (!isBlank ·)) := by
    refine ⟨by simp [solid], ?_⟩
    intro x member
    simpa using List.mem_takeWhile_imp member
  have split : (c :: cs).takeWhile (!isBlank ·) ++ (c :: cs).dropWhile (!isBlank ·) = c :: cs :=
    List.takeWhile_append_dropWhile
  rw [splitFirst, List.span_eq_takeWhile_dropWhile]
  have stop := List.head?_dropWhile_not (!isBlank ·) (c :: cs)
  cases rest : (c :: cs).dropWhile (!isBlank ·) with
  | nil =>
    rw [rest, List.append_nil] at split
    conv_lhs => rw [← split]
    rw [words_word word]
    rfl
  | cons b ds =>
    rw [rest] at split stop
    have blank : isBlank b = true := by simpa using stop
    conv_lhs => rw [← split]
    rw [words_append_blank _ _ blank, words_word word, words_cons_blank blank]
    rfl

theorem solid_of_trim_eq_cons {cs ds : List Char} {c : Char} (text : trim cs = c :: ds) :
    isBlank c = false := by
  have stop := List.head?_dropWhile_not isBlank cs
  obtain ⟨behind, front⟩ := List.rdropWhile_prefix isBlank (trimStart cs)
  rw [← trim_eq, text] at front
  unfold trimStart at front
  rw [← front] at stop
  exact stop

/-- An instruction is read from a text without outer blanks exactly when it has its words. -/
theorem Instruction.ofText_eq_ok_iff_written {labels : LabelTable}
    {names : List Char → Nat → Prop}
    (known : ∀ w step, labels.stepOf? (String.ofList w) = some step ↔ names w step.toNat)
    {cs : List Char} (some : trim cs ≠ []) {i : Instruction} :
    ofText labels (trim cs) = .ok i ↔ i.Written names (words (trim cs)) := by
  obtain ⟨c, ds, text⟩ := List.exists_cons_of_ne_nil some
  rw [ofText_eq_ok_iff, text, words_eq_splitFirst ds (solid_of_trim_eq_cons text), Written,
    Op.ofMnemonic?_eq_some_iff, Operands.reads_iff_written known]
  constructor
  · rintro ⟨mnemonic, written⟩
    exact ⟨_, _, rfl, mnemonic, written⟩
  · rintro ⟨w, rest, same, mnemonic, written⟩
    obtain ⟨rfl, rfl⟩ := List.cons.inj same
    exact ⟨mnemonic, written⟩

end Texts

end Formicary
