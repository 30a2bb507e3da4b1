import Formicary.Code.MachineCode

/-!
# Instructions in bytes and back

Reading the bytes of some instructions gives these instructions again. The other way round, machine
code that can be read to its end comes back from its instructions in a normal form: in each header
the operand bits that the shape does not use are cleared, and no other bit changes.
-/

namespace Formicary

theorem ofLittleEndian_littleEndian (count value : Nat) :
    ofLittleEndian (littleEndian count value) = value % Nat.pow 256 count := by
  induction count generalizing value with
  | zero => simp [littleEndian, ofLittleEndian, Nat.mod_one]
  | succ count ih =>
    have power : Nat.pow 256 (count + 1) = 256 * Nat.pow 256 count := Nat.pow_succ'
    have low : value.toUInt8.toNat = value % 256 := by simp
    simp only [littleEndian, ofLittleEndian, ih]
    rw [power, low, Nat.mod_mul]

theorem eq_of_littleEndian_eq {count a b : Nat} (same : littleEndian count a = littleEndian count b)
    (ha : a < Nat.pow 256 count) (hb : b < Nat.pow 256 count) : a = b := by
  rw [← Nat.mod_eq_of_lt ha, ← ofLittleEndian_littleEndian, same, ofLittleEndian_littleEndian,
    Nat.mod_eq_of_lt hb]

theorem toUInt16_ofLittleEndian (step : UInt16) :
    (ofLittleEndian (littleEndian 2 step.toNat)).toUInt16 = step := by
  have small : step.toNat % Nat.pow 256 2 = step.toNat := Nat.mod_eq_of_lt step.toNat_lt
  rw [ofLittleEndian_littleEndian, small]
  simp

theorem toUInt32_ofLittleEndian (value : UInt32) :
    (ofLittleEndian (littleEndian 4 value.toNat)).toUInt32 = value := by
  have small : value.toNat % Nat.pow 256 4 = value.toNat := Nat.mod_eq_of_lt value.toNat_lt
  rw [ofLittleEndian_littleEndian, small]
  simp

theorem toUInt64_ofLittleEndian (value : UInt64) :
    (ofLittleEndian (littleEndian 8 value.toNat)).toUInt64 = value := by
  have small : value.toNat % Nat.pow 256 8 = value.toNat := Nat.mod_eq_of_lt value.toNat_lt
  rw [ofLittleEndian_littleEndian, small]
  simp

/-- Bytes are the bytes of the number they spell. -/
theorem littleEndian_ofLittleEndian (bytes : List UInt8) :
    littleEndian bytes.length (ofLittleEndian bytes) = bytes := by
  induction bytes with
  | nil => rfl
  | cons b bytes ih =>
    have small := b.toNat_lt
    have low : (b.toNat + 256 * ofLittleEndian bytes).toUInt8 = b := by
      apply UInt8.toNat_inj.mp
      simp only [UInt8.toNat_ofNat']
      omega
    have high : (b.toNat + 256 * ofLittleEndian bytes) / 256 = ofLittleEndian bytes := by omega
    simp only [ofLittleEndian, List.length_cons, littleEndian, low, high, ih]

theorem ofLittleEndian_lt (bytes : List UInt8) :
    ofLittleEndian bytes < Nat.pow 256 bytes.length := by
  induction bytes with
  | nil => decide
  | cons b bytes ih =>
    have small := b.toNat_lt
    have power : Nat.pow 256 (bytes.length + 1) = 256 * Nat.pow 256 bytes.length := Nat.pow_succ'
    simp only [ofLittleEndian, List.length_cons, power]
    omega

theorem littleEndian_toUInt16 {bytes : List UInt8} (h : bytes.length = 2) :
    littleEndian 2 (ofLittleEndian bytes).toUInt16.toNat = bytes := by
  have small : ofLittleEndian bytes < Nat.pow 256 2 := h ▸ ofLittleEndian_lt bytes
  rw [Nat.toUInt16_eq, UInt16.toNat_ofNat_of_lt' small, ← h, littleEndian_ofLittleEndian]

theorem littleEndian_toUInt32 {bytes : List UInt8} (h : bytes.length = 4) :
    littleEndian 4 (ofLittleEndian bytes).toUInt32.toNat = bytes := by
  have small : ofLittleEndian bytes < Nat.pow 256 4 := h ▸ ofLittleEndian_lt bytes
  rw [Nat.toUInt32_eq, UInt32.toNat_ofNat_of_lt' small, ← h, littleEndian_ofLittleEndian]

theorem littleEndian_toUInt64 {bytes : List UInt8} (h : bytes.length = 8) :
    littleEndian 8 (ofLittleEndian bytes).toUInt64.toNat = bytes := by
  have small : ofLittleEndian bytes < Nat.pow 256 8 := h ▸ ofLittleEndian_lt bytes
  rw [Nat.toUInt64_eq, UInt64.toNat_ofNat_of_lt' small, ← h, littleEndian_ofLittleEndian]

/-- A header is eight times its operation number, plus its operand bits. -/
theorem toNat_makeHeader {code : UInt8} (h : code < 32) (operand : UInt8) :
    (makeHeader code operand).toNat = 8 * code.toNat + operand.toNat % 8 := by
  have bound : code.toNat < 32 := h
  have shifted : (code.toNat <<< 3) % 256 = code.toNat <<< 3 := by
    rw [Nat.shiftLeft_eq]; omega
  have mask : operand.toNat &&& 7 = operand.toNat % 8 := Nat.and_two_pow_sub_one_eq_mod _ 3
  have low : operand.toNat % 8 < 8 := by omega
  calc (makeHeader code operand).toNat
      = (code.toNat <<< 3) % 256 ||| (operand.toNat &&& 7) := rfl
    _ = code.toNat <<< 3 + operand.toNat % 8 := by
        rw [shifted, mask, Nat.shiftLeft_add_eq_or_of_lt low]
    _ = 8 * code.toNat + operand.toNat % 8 := by rw [Nat.shiftLeft_eq]; omega

theorem headerCode_makeHeader {code : UInt8} (h : code < 32) (operand : UInt8) :
    headerCode (makeHeader code operand) = code := by
  apply UInt8.toNat_inj.mp
  have shift : (headerCode (makeHeader code operand)).toNat =
      (makeHeader code operand).toNat >>> 3 := rfl
  rw [shift, toNat_makeHeader h, Nat.shiftRight_eq_div_pow]
  omega

namespace Op

theorem code_lt (op : Op) : op.code < 32 := by
  cases op <;> decide

theorem ofCode?_code (op : Op) : ofCode? op.code = some op := by
  cases op <;> rfl

/-- Different operations have different numbers, so a number gives back the operation it names. -/
theorem code_of_ofCode? {code : UInt8} {op : Op} (h : ofCode? code = some op) : op.code = code := by
  obtain ⟨bound, found⟩ := List.getElem?_eq_some_iff.mp h
  have small : code.toNat < 23 := bound
  have all_codes : ∀ n : Fin 23, (all[n.val]).code = n.val.toUInt8 := by decide
  have this := all_codes ⟨code.toNat, small⟩
  rw [← found, this]
  exact UInt8.toNat_inj.mp (by simp)

end Op

namespace Reg

theorem ofBit_eq_iff (bits : UInt8) (r : Reg) : ofBit bits = r ↔ bits.toNat % 2 = r.bit.toNat := by
  have mask : (bits &&& 1).toNat = bits.toNat % 2 := Nat.and_two_pow_sub_one_eq_mod _ 1
  have zero_iff : bits &&& 1 = 0 ↔ bits.toNat % 2 = 0 := by
    rw [← UInt8.toNat_inj, mask, UInt8.toNat_zero]
  unfold ofBit
  split <;> rename_i low <;> rw [zero_iff] at low <;> cases r <;> simp [bit, low]
  omega

theorem ofBit_makeHeader {code : UInt8} (h : code < 32) (r : Reg) :
    ofBit (makeHeader code r.bit) = r := by
  rw [ofBit_eq_iff, toNat_makeHeader h]
  cases r <;> simp [bit] <;> omega

end Reg

namespace Channel

theorem ofBits_eq_iff (bits : UInt8) (c : Channel) : ofBits bits = c ↔ bits.toNat % 8 = c.val := by
  simp [ofBits, Fin.ext_iff]

theorem ofBits_makeHeader {code : UInt8} (h : code < 32) (c : Channel) :
    ofBits (makeHeader code c.bits) = c := by
  have small := c.isLt
  have low : c.bits.toNat = c.val := by simp only [bits, UInt8.toNat_ofNat']; omega
  rw [ofBits_eq_iff, toNat_makeHeader h, low]
  omega

end Channel

namespace Operands

theorem toNat_pairBits (source destination : Reg) :
    (headerBits (.registerPair source destination)).toNat =
      2 * source.bit.toNat + destination.bit.toNat := by
  cases source <;> cases destination <;> rfl

/-- Operands are read back from the header and the bytes they were written to, whatever follows. -/
theorem read?_trailing {s : Shape} (o : Operands s) {code : UInt8} (h : code < 32)
    (rest : List UInt8) :
    read? s (makeHeader code o.headerBits) (o.trailing ++ rest) = some (o, o.trailing, rest) := by
  cases o with
  | bare => rfl
  | register r =>
    show some (register (Reg.ofBit (makeHeader code r.bit)), [], rest) = _
    rw [Reg.ofBit_makeHeader h]
    rfl
  | registerConstant r value =>
    show some (registerConstant (Reg.ofBit (makeHeader code r.bit))
      (ofLittleEndian (littleEndian 4 value.toNat)).toUInt32, littleEndian 4 value.toNat, rest) = _
    rw [Reg.ofBit_makeHeader h, toUInt32_ofLittleEndian]
    rfl
  | registerPair source destination =>
    -- The pair takes two bits, so neither register is read from the lowest bit of its own number.
    have header := toNat_makeHeader h (headerBits (.registerPair source destination))
    rw [toNat_pairBits] at header
    have high : Reg.ofBit (makeHeader code (headerBits (.registerPair source destination)) >>> 1) =
        source := by
      rw [Reg.ofBit_eq_iff, UInt8.toNat_shiftRight, header, Nat.shiftRight_eq_div_pow]
      cases source <;> cases destination <;> simp [Reg.bit] <;> omega
    have low : Reg.ofBit (makeHeader code (headerBits (.registerPair source destination))) =
        destination := by
      rw [Reg.ofBit_eq_iff, header]
      cases source <;> cases destination <;> simp [Reg.bit] <;> omega
    simp only [read?, high, low]
    rfl
  | target step =>
    show some (target (ofLittleEndian (littleEndian 2 step.toNat)).toUInt16,
      littleEndian 2 step.toNat, rest) = _
    rw [toUInt16_ofLittleEndian]
    rfl
  | channel c =>
    show some (channel (Channel.ofBits (makeHeader code c.bits)), [], rest) = _
    rw [Channel.ofBits_makeHeader h]
    rfl
  | channelPriority c priority =>
    show some (channelPriority (Channel.ofBits (makeHeader code c.bits)) priority.toUInt8.toInt8,
      [priority.toUInt8], rest) = _
    rw [Channel.ofBits_makeHeader h, Int8.toInt8_toUInt8]
    rfl

end Operands

/-- An instruction is read back from its bytes, whatever follows. -/
theorem readInstruction_encode (offset : Nat) (i : Instruction) (rest : List UInt8) :
    readInstruction offset (makeHeader i.op.code i.operands.headerBits)
      (i.operands.trailing ++ rest) = .ok (⟨offset, i, i.encode⟩, rest) := by
  simp only [readInstruction, headerCode_makeHeader i.op.code_lt, Op.ofCode?_code,
    Operands.read?_trailing i.operands i.op.code_lt]
  rfl

theorem decodeFrom_cons_ok {offset : Nat} {header : UInt8} {bytes rest : List UInt8}
    {item : Located} (h : readInstruction offset header bytes = .ok (item, rest)) :
    decodeFrom offset (header :: bytes) =
      ⟨item :: (decodeFrom (offset + item.bytes.length) rest).located,
        (decodeFrom (offset + item.bytes.length) rest).error⟩ := by
  rw [decodeFrom]
  split
  · next found => rw [h] at found; cases found
  · next found => rw [h] at found; cases found; rfl

theorem decodeFrom_nil (offset : Nat) : decodeFrom offset [] = ⟨[], none⟩ := by
  rw [decodeFrom]

/-- The bytes of some instructions are read to their end, and give these instructions. -/
theorem decodeFrom_flatMap_encode (steps : List Instruction) (offset : Nat) :
    (decodeFrom offset (steps.flatMap Instruction.encode)).error = none ∧
      (decodeFrom offset (steps.flatMap Instruction.encode)).located.map Located.instruction =
        steps := by
  induction steps generalizing offset with
  | nil => simp [decodeFrom_nil]
  | cons i steps ih =>
    have first := readInstruction_encode offset i (steps.flatMap Instruction.encode)
    have later := ih (offset + i.encode.length)
    have split : (i :: steps).flatMap Instruction.encode =
        makeHeader i.op.code i.operands.headerBits ::
          (i.operands.trailing ++ steps.flatMap Instruction.encode) := rfl
    rw [split, decodeFrom_cons_ok first]
    exact ⟨later.1, congrArg (i :: ·) later.2⟩

theorem instructions_eq_ok_iff {code : List UInt8} {steps : List Instruction} :
    instructions code = .ok steps ↔
      (decode code).error = none ∧ (decode code).located.map Located.instruction = steps := by
  unfold instructions Decoding.result
  cases (decode code).error <;> simp [Except.map]

theorem compile_eq_ok_iff {m : MachineCode} {steps : List Instruction} :
    m.compile = .ok steps.toArray ↔ instructions m.code = .ok steps := by
  unfold MachineCode.compile
  cases instructions m.code <;> simp [Except.map]

/-- Writing instructions and reading them back gives the same instructions. -/
theorem instructions_flatMap_encode (steps : List Instruction) :
    instructions (steps.flatMap Instruction.encode) = .ok steps :=
  instructions_eq_ok_iff.mpr (decodeFrom_flatMap_encode steps 0)

/-- The operand bits of a header that instructions of a shape use. -/
def Shape.operandBits : Shape → UInt8
  | bare | target => 0
  | register | registerConstant => 0x01
  | registerPair => 0x03
  | channel | channelPriority => 0x07

/-- The bytes of an instruction with the operand bits cleared that its shape does not use. -/
def Located.cleared (item : Located) : List UInt8 :=
  match item.bytes with
  | [] => []
  | header :: taken =>
    (header &&& (0xF8 ||| item.instruction.op.shape.operandBits)) :: taken

theorem Located.length_cleared (item : Located) : item.cleared.length = item.bytes.length := by
  unfold cleared
  split <;> simp_all

/-- A header is put together again from its number and from any of its operand bits. -/
theorem makeHeader_headerCode (header mask : UInt8) (h : mask &&& 0x07 = mask) :
    makeHeader (headerCode header) (header &&& mask) = header &&& (0xF8 ||| mask) := by
  have number : (header >>> 3) <<< 3 = header &&& 0xF8 := by
    have all_bytes : ∀ v : BitVec 8, (v >>> 3) <<< 3 = v &&& 0xF8 := by decide
    exact UInt8.toBitVec_inj.mp (all_bytes header.toBitVec)
  unfold makeHeader headerCode
  rw [number, UInt8.and_assoc, h]
  exact UInt8.toBitVec_inj.mp BitVec.and_or_distrib_left.symm

theorem Reg.bit_ofBit (bits : UInt8) : (ofBit bits).bit = bits &&& 0x01 := by
  have all_bytes : ∀ v : BitVec 8, (ofBit ⟨v⟩).bit = ⟨v &&& 0x01⟩ := by decide
  exact all_bytes bits.toBitVec

theorem Channel.bits_ofBits (b : UInt8) : (ofBits b).bits = b &&& 0x07 := by
  have mask : (b &&& 0x07).toNat = b.toNat % 8 := Nat.and_two_pow_sub_one_eq_mod _ 3
  apply UInt8.toNat_inj.mp
  rw [mask]
  simp [ofBits, bits]
  omega

namespace Operands

theorem pairBits_ofBit (header : UInt8) :
    headerBits (.registerPair (Reg.ofBit (header >>> 1)) (Reg.ofBit header)) = header &&& 0x03 := by
  have all_bytes : ∀ v : BitVec 8,
      headerBits (.registerPair (Reg.ofBit ((⟨v⟩ : UInt8) >>> 1)) (Reg.ofBit ⟨v⟩)) =
        ⟨v &&& 0x03⟩ := by
    decide
  exact all_bytes header.toBitVec

/-- The operand bits that are written are those that were read. -/
theorem headerBits_of_read? {s : Shape} {header : UInt8} {bytes taken rest : List UInt8}
    {o : Operands s} (h : read? s header bytes = some (o, taken, rest)) :
    o.headerBits = header &&& s.operandBits := by
  unfold read? at h
  split at h <;> simp only [Option.some.injEq, Prod.mk.injEq, reduceCtorEq] at h <;>
    obtain ⟨rfl, rfl, rfl⟩ := h
  case h_1 | h_5 => exact (UInt8.and_zero).symm
  case h_2 | h_3 => exact Reg.bit_ofBit header
  case h_4 => exact pairBits_ofBit header
  case h_6 | h_7 => exact Channel.bits_ofBits header

theorem trailing_of_read? {s : Shape} {header : UInt8} {bytes taken rest : List UInt8}
    {o : Operands s} (h : read? s header bytes = some (o, taken, rest)) : o.trailing = taken := by
  unfold read? at h
  split at h <;> simp only [Option.some.injEq, Prod.mk.injEq, reduceCtorEq] at h <;>
    obtain ⟨rfl, rfl, rfl⟩ := h
  case h_3 => exact littleEndian_toUInt32 rfl
  case h_5 => exact littleEndian_toUInt16 rfl
  all_goals simp [trailing]

end Operands

theorem Shape.operandBits_and (s : Shape) : s.operandBits &&& 0x07 = s.operandBits := by
  cases s <;> decide

/-- An instruction that was read is written with the operand bits cleared that it does not use. -/
theorem encode_of_readInstruction {offset : Nat} {header : UInt8} {bytes rest : List UInt8}
    {item : Located} (h : readInstruction offset header bytes = .ok (item, rest)) :
    item.instruction.encode = item.cleared := by
  unfold readInstruction at h
  split at h
  · cases h
  · next op found =>
    split at h
    · cases h
    · next operands taken left read =>
      cases h
      simp only [Instruction.encode, Located.cleared, Op.code_of_ofCode? found,
        Operands.headerBits_of_read? read, Operands.trailing_of_read? read,
        makeHeader_headerCode header _ (Shape.operandBits_and _)]

theorem bytes_decodeFrom {offset : Nat} {code : List UInt8}
    (h : (decodeFrom offset code).error = none) :
    (decodeFrom offset code).located.flatMap Located.bytes = code := by
  fun_induction decodeFrom offset code with
  | case1 => rfl
  | case2 => cases h
  | case3 offset header bytes item rest read later ih =>
    simp only [List.flatMap_cons]
    rw [ih h, append_of_readInstruction read]

theorem encode_of_mem_decodeFrom {offset : Nat} {code : List UInt8} {item : Located}
    (h : item ∈ (decodeFrom offset code).located) : item.instruction.encode = item.cleared := by
  fun_induction decodeFrom offset code with
  | case1 => cases h
  | case2 => cases h
  | case3 offset header bytes first rest read later ih =>
    rcases List.mem_cons.mp h with rfl | h
    · exact encode_of_readInstruction read
    · exact ih h

/-- The bytes of the instructions that machine code was read into: those of the code itself, with
the operand bits cleared that have no use. -/
theorem flatMap_encode_of_instructions {code : List UInt8} {steps : List Instruction}
    (h : instructions code = .ok steps) :
    steps.flatMap Instruction.encode = (decode code).located.flatMap Located.cleared := by
  obtain ⟨-, rfl⟩ := instructions_eq_ok_iff.mp h
  have same : (decode code).located.map (fun item => item.instruction.encode) =
      (decode code).located.map Located.cleared :=
    List.map_congr_left fun _ member => encode_of_mem_decodeFrom member
  rw [List.flatMap_map, List.flatMap_def, List.flatMap_def, same]

theorem flatMap_bytes_of_instructions {code : List UInt8} {steps : List Instruction}
    (h : instructions code = .ok steps) :
    (decode code).located.flatMap Located.bytes = code :=
  bytes_decodeFrom (instructions_eq_ok_iff.mp h).1

end Formicary
