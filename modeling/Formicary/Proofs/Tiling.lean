import Formicary.Proofs.PlainMerge

/-!
# Machine code is tiled by its instructions

Reading splits machine code into instructions that lie side by side, from the first byte up to the
last one or to the place where reading fails. Every instruction has the width of its shape, and what
is read at a place depends on the bytes from there on only. So all that is made of machine code
fails on the same code with the same error, and code that can be read to its end can be followed by
any other.
-/

namespace Formicary

namespace Operands

variable {s : Shape} {header : UInt8} {bytes taken rest : List UInt8} {o : Operands s}

/-- The operands of a shape take the bytes that its width leaves after the header. -/
theorem length_of_read? (read : read? s header bytes = some (o, taken, rest)) :
    taken.length + 1 = s.width := by
  unfold read? at read
  split at read <;> simp only [Option.some.injEq, Prod.mk.injEq, reduceCtorEq] at read <;>
    obtain ⟨-, rfl, -⟩ := read <;> rfl

/-- Operands cannot be read exactly when there are fewer bytes than the width. -/
theorem read?_eq_none_iff : read? s header bytes = none ↔ bytes.length + 1 < s.width := by
  cases s with
  | bare | register | registerPair | channel => simp [read?, Shape.width]
  | registerConstant =>
    rcases bytes with _ | ⟨_, _ | ⟨_, _ | ⟨_, _ | ⟨_, _⟩⟩⟩⟩ <;> simp [read?, Shape.width]
  | target => rcases bytes with _ | ⟨_, _ | ⟨_, _⟩⟩ <;> simp [read?, Shape.width]
  | channelPriority => rcases bytes with _ | ⟨_, _⟩ <;> simp [read?, Shape.width]

/-- Bytes behind the operands make no difference. -/
theorem read?_append (read : read? s header bytes = some (o, taken, rest)) (more : List UInt8) :
    read? s header (bytes ++ more) = some (o, taken, rest ++ more) := by
  unfold read? at read
  split at read <;> simp only [Option.some.injEq, Prod.mk.injEq, reduceCtorEq] at read <;>
    obtain ⟨rfl, rfl, rfl⟩ := read <;> rfl

end Operands

theorem Op.ofCode?_eq_none_iff {code : UInt8} : Op.ofCode? code = none ↔ 23 ≤ code.toNat := by
  unfold Op.ofCode?
  rw [List.getElem?_eq_none_iff]
  rfl

theorem Op.ofCode?_eq_some_iff {code : UInt8} {op : Op} :
    Op.ofCode? code = some op ↔ op.code = code := by
  constructor
  · exact Op.code_of_ofCode?
  · rintro rfl
    exact op.ofCode?_code

/-- Why no instruction can be read at an offset, from the header there and the bytes behind it. -/
inductive CodeError.Ends (offset : Nat) (header : UInt8) (bytes : List UInt8) : CodeError → Prop
  | unknown (above : 23 ≤ (headerCode header).toNat) :
    Ends offset header bytes (.unknownOpcode offset (headerCode header))
  | short (op : Op) (known : op.code = headerCode header)
    (few : bytes.length + 1 < op.shape.width) :
    Ends offset header bytes (.truncated offset op (bytes.length + 1))

namespace CodeError

/-- The same mistake in code that starts some bytes later. -/
def shift (error : CodeError) (count : Nat) : CodeError :=
  match error with
  | .unknownOpcode offset code => .unknownOpcode (offset + count) code
  | .truncated offset op available => .truncated (offset + count) op available
  | .labelOutOfRange name step length => .labelOutOfRange name step length

variable {offset : Nat} {header : UInt8} {bytes : List UInt8} {error : CodeError}

theorem Ends.eq_unknownOpcode_iff (ends : error.Ends offset header bytes) :
    error = .unknownOpcode offset (headerCode header) ↔ 23 ≤ (headerCode header).toNat := by
  cases ends with
  | unknown above => simp [above]
  | short op known few =>
    have found := Op.ofCode?_eq_some_iff.mpr known
    have inside : ¬23 ≤ (headerCode header).toNat := by
      rw [← Op.ofCode?_eq_none_iff, found]
      simp
    simp [inside]

theorem Ends.eq_truncated_iff (ends : error.Ends offset header bytes) (op : Op) :
    error = .truncated offset op (bytes.length + 1) ↔
      op.code = headerCode header ∧ bytes.length + 1 < op.shape.width := by
  cases ends with
  | unknown above =>
    have missing := Op.ofCode?_eq_none_iff.mpr above
    have other : op.code ≠ headerCode header := by
      rw [ne_eq, ← Op.ofCode?_eq_some_iff, missing]
      simp
    simp [other]
  | short op' known few =>
    constructor
    · intro same
      cases same
      exact ⟨known, few⟩
    · rintro ⟨also, -⟩
      have same := (Op.ofCode?_eq_some_iff.mpr known).symm.trans (Op.ofCode?_eq_some_iff.mpr also)
      cases same
      rfl

end CodeError

/-- The same instruction in code that starts some bytes later. -/
def Located.shift (item : Located) (count : Nat) : Located :=
  { item with offset := item.offset + count }

section Reading

variable {offset : Nat} {header : UInt8} {bytes rest : List UInt8} {item : Located}
  {error : CodeError}

theorem readInstruction_eq_ok_iff :
    readInstruction offset header bytes = .ok (item, rest) ↔
      ∃ op operands taken, Op.ofCode? (headerCode header) = some op ∧
        Operands.read? op.shape header bytes = some (operands, taken, rest) ∧
        item = ⟨offset, ⟨op, operands⟩, header :: taken⟩ := by
  unfold readInstruction
  constructor
  · intro reads
    split at reads
    · cases reads
    · next op known =>
      split at reads
      · cases reads
      · next operands taken left read =>
        cases reads
        exact ⟨op, operands, taken, known, read, rfl⟩
  · rintro ⟨op, operands, taken, known, read, rfl⟩
    simp only [known, read]

theorem offset_of_readInstruction
    (reads : readInstruction offset header bytes = .ok (item, rest)) : item.offset = offset := by
  obtain ⟨op, operands, taken, -, -, rfl⟩ := readInstruction_eq_ok_iff.mp reads
  rfl

theorem width_of_readInstruction
    (reads : readInstruction offset header bytes = .ok (item, rest)) :
    item.bytes.length = item.instruction.op.shape.width := by
  obtain ⟨op, operands, taken, -, read, rfl⟩ := readInstruction_eq_ok_iff.mp reads
  exact Operands.length_of_read? read

/-- Reading fails for one of two reasons. -/
theorem ends_of_readInstruction (fails : readInstruction offset header bytes = .error error) :
    error.Ends offset header bytes := by
  unfold readInstruction at fails
  split at fails
  · next unknown =>
    cases fails
    exact .unknown (Op.ofCode?_eq_none_iff.mp unknown)
  · next op known =>
    split at fails
    · next short =>
      cases fails
      exact .short op (Op.ofCode?_eq_some_iff.mp known) (Operands.read?_eq_none_iff.mp short)
    · cases fails

theorem readInstruction_append (reads : readInstruction offset header bytes = .ok (item, rest))
    (more : List UInt8) :
    readInstruction offset header (bytes ++ more) = .ok (item, rest ++ more) := by
  obtain ⟨op, operands, taken, known, read, rfl⟩ := readInstruction_eq_ok_iff.mp reads
  apply readInstruction_eq_ok_iff.mpr
  exact ⟨op, operands, taken, known, Operands.read?_append read more, rfl⟩

/-- Reading in code that starts some bytes later. -/
theorem readInstruction_shift_ok (reads : readInstruction offset header bytes = .ok (item, rest))
    (count : Nat) :
    readInstruction (offset + count) header bytes = .ok (item.shift count, rest) := by
  obtain ⟨op, operands, taken, known, read, rfl⟩ := readInstruction_eq_ok_iff.mp reads
  exact readInstruction_eq_ok_iff.mpr ⟨op, operands, taken, known, read, rfl⟩

theorem readInstruction_shift_error (fails : readInstruction offset header bytes = .error error)
    (count : Nat) :
    readInstruction (offset + count) header bytes = .error (error.shift count) := by
  unfold readInstruction at fails ⊢
  cases known : Op.ofCode? (headerCode header) with
  | none =>
    simp only [known] at fails ⊢
    cases fails
    rfl
  | some op =>
    simp only [known] at fails ⊢
    cases read : Operands.read? op.shape header bytes with
    | none =>
      simp only [read] at fails ⊢
      cases fails
      rfl
    | some found => simp only [read, reduceCtorEq] at fails

theorem decodeFrom_cons_error (fails : readInstruction offset header bytes = .error error) :
    decodeFrom offset (header :: bytes) = ⟨[], some error⟩ := by
  rw [decodeFrom]
  split
  · next found => rw [fails] at found; cases found; rfl
  · next found => rw [fails] at found; cases found

end Reading

namespace Decoding

/-- What is found in code that starts some bytes later. -/
def shift (d : Decoding) (count : Nat) : Decoding :=
  ⟨d.located.map (·.shift count), d.error.map (·.shift count)⟩

/-- All that was found, one after the other: the instructions, and what ended the search. -/
def items (d : Decoding) : List (Except CodeError Located) :=
  d.located.map .ok ++ d.error.toList.map .error

/-- Code from an offset on, split into instructions side by side up to its end or to an error. -/
structure Tiles (d : Decoding) (offset : Nat) (code : List UInt8) : Prop where
  consecutive : ∀ front item back, d.located = front ++ item :: back →
    item.offset = offset + (front.flatMap Located.bytes).length
  width : ∀ item ∈ d.located, item.bytes.length = item.instruction.op.shape.width
  whole : d.error = none → d.located.flatMap Located.bytes = code
  broken : ∀ error, d.error = some error → ∃ header rest,
    d.located.flatMap Located.bytes ++ header :: rest = code ∧
      error.Ends (offset + (d.located.flatMap Located.bytes).length) header rest

end Decoding

theorem tiles_decodeFrom (offset : Nat) (code : List UInt8) :
    (decodeFrom offset code).Tiles offset code := by
  fun_induction decodeFrom offset code with
  | case1 => exact ⟨by simp, by simp, fun _ => rfl, by simp⟩
  | case2 offset header bytes error fails =>
    refine ⟨by simp, by simp, by simp, ?_⟩
    intro error same
    cases same
    exact ⟨header, bytes, rfl, ends_of_readInstruction fails⟩
  | case3 offset header bytes item rest reads later ih =>
    have joined := append_of_readInstruction reads
    constructor
    · intro front found back split
      cases front with
      | nil =>
        cases split
        exact offset_of_readInstruction reads
      | cons first front =>
        obtain ⟨rfl, next⟩ := List.cons.inj split
        rw [ih.consecutive front found back next, List.flatMap_cons, List.length_append,
          Nat.add_assoc]
    · intro found member
      rcases List.mem_cons.mp member with rfl | member
      · exact width_of_readInstruction reads
      · exact ih.width found member
    · intro complete
      rw [List.flatMap_cons, ih.whole complete]
      exact joined
    · intro error ended
      obtain ⟨first, bytes', split, ends⟩ := ih.broken error ended
      refine ⟨first, bytes', ?_, ?_⟩
      · rw [List.flatMap_cons, List.append_assoc, split]
        exact joined
      · rw [List.flatMap_cons, List.length_append, ← Nat.add_assoc]
        exact ends

/-- Where code starts changes nothing but the offsets. -/
theorem decodeFrom_shift (offset count : Nat) (code : List UInt8) :
    decodeFrom (offset + count) code = (decodeFrom offset code).shift count := by
  fun_induction decodeFrom offset code with
  | case1 => exact decodeFrom_nil _
  | case2 offset header bytes error fails =>
    rw [decodeFrom_cons_error (readInstruction_shift_error fails count)]
    rfl
  | case3 offset header bytes item rest reads later ih =>
    rw [decodeFrom_cons_ok (readInstruction_shift_ok reads count)]
    have next : offset + count + (item.shift count).bytes.length =
        offset + item.bytes.length + count := Nat.add_right_comm ..
    rw [next, ih]
    rfl

/-- Code that can be read to its end can be followed by any other. -/
theorem decodeFrom_append {offset : Nat} {code : List UInt8}
    (whole : (decodeFrom offset code).error = none) (more : List UInt8) :
    decodeFrom offset (code ++ more) =
      ⟨(decodeFrom offset code).located ++ (decodeFrom (offset + code.length) more).located,
        (decodeFrom (offset + code.length) more).error⟩ := by
  fun_induction decodeFrom offset code with
  | case1 => rfl
  | case2 => cases whole
  | case3 offset header bytes item rest reads later ih =>
    have length := congrArg List.length (append_of_readInstruction reads)
    rw [List.length_append] at length
    rw [List.cons_append, decodeFrom_cons_ok (readInstruction_append reads more), ih whole,
      ← length, Nat.add_assoc]
    rfl

/-- A reader of machine code, which finds one instruction at a time. -/
structure Reader where
  code : List UInt8
  /-- Where the next instruction starts. -/
  offset : Nat
  /-- An instruction could not be read. -/
  failed : Bool

namespace Reader

/-- A reader before the first byte. -/
def start (code : List UInt8) : Reader := ⟨code, 0, false⟩

/-- The next instruction, or why it cannot be read, and the reader after that. Nothing is found at
the end of the code and after a failure. -/
def next? (r : Reader) : Option (Except CodeError Located × Reader) :=
  if r.failed then none
  else
    match r.code.drop r.offset with
    | [] => none
    | header :: bytes =>
      match readInstruction r.offset header bytes with
      | .error error => some (.error error, { r with failed := true })
      | .ok (item, _) => some (.ok item, { r with offset := r.offset + item.bytes.length })

/-- All that a reader finds before it finds nothing. -/
inductive Yields : Reader → List (Except CodeError Located) → Prop
  | stop {r : Reader} (ended : r.next? = none) : Yields r []
  | next {r r' : Reader} {item : Except CodeError Located} {items : List (Except CodeError Located)}
    (found : r.next? = some (item, r')) (rest : Yields r' items) : Yields r (item :: items)

theorem Yields.unique {r : Reader} {items others : List (Except CodeError Located)}
    (first : r.Yields items) (second : r.Yields others) : items = others := by
  induction first generalizing others with
  | stop ended =>
    cases second with
    | stop => rfl
    | next found => cases ended.symm.trans found
  | next found rest ih =>
    cases second with
    | stop ended => cases ended.symm.trans found
    | next also rest' =>
      cases found.symm.trans also
      rw [ih rest']

/-- A reader finds what is decoded from where it stands. -/
theorem yields_decodeFrom {code : List UInt8} (offset : Nat) {bytes : List UInt8}
    (here : code.drop offset = bytes) :
    Yields ⟨code, offset, false⟩ (decodeFrom offset bytes).items := by
  fun_induction decodeFrom offset bytes with
  | case1 offset =>
    apply Yields.stop
    simp [next?, here]
  | case2 offset header bytes error fails =>
    have found : next? ⟨code, offset, false⟩ = some (.error error, ⟨code, offset, true⟩) := by
      simp [next?, here, fails]
    exact .next found (.stop rfl)
  | case3 offset header bytes item rest reads later ih =>
    have found : next? ⟨code, offset, false⟩ =
        some (.ok item, ⟨code, offset + item.bytes.length, false⟩) := by
      simp [next?, here, reads]
    apply Yields.next found
    apply ih
    rw [← List.drop_drop, here, ← append_of_readInstruction reads, List.drop_left]

end Reader

section Uses

variable {β : Type} (d : Decoding) (m : MachineCode)

theorem mapM_items (f : Located → β) :
    d.items.mapM (fun item => item.map f) = d.result.map (·.map f) := by
  have found (located : List Located) :
      (located.map Except.ok).mapM (fun item : Except CodeError Located => item.map f) =
        .ok (located.map f) := by
    apply mapM_eq_ok_iff.mpr
    rw [List.map_map, List.map_map]
    rfl
  unfold Decoding.items Decoding.result
  rw [List.mapM_append, found]
  cases d.error with
  | none => simp [Except.map, bind, Except.bind, pure, Except.pure]
  | some error => rfl

theorem foldlM_items :
    d.items.foldlM (fun count item => item.map fun _ => count + 1) 0 =
      d.result.map List.length := by
  have found (located : List Located) (count : Nat) :
      (located.map Except.ok).foldlM
        (fun count (item : Except CodeError Located) => item.map fun _ => count + 1) count =
          .ok (count + located.length) := by
    induction located generalizing count with
    | nil => rfl
    | cons item located ih =>
      rw [List.map_cons, List.foldlM_cons, List.length_cons]
      show (located.map Except.ok).foldlM _ (count + 1) = _
      rw [ih, Nat.add_assoc, Nat.add_comm 1]
  unfold Decoding.items Decoding.result
  rw [List.foldlM_append, found, Nat.zero_add]
  cases d.error <;> rfl

namespace MachineCode

/-- The lines of the steps of a program, without those of its labels. -/
def stepLines : Except CodeError (List String) :=
  (decode m.code).items.mapM fun item =>
    item.map fun located => located.instruction.toLine m.labels.nameAt?

theorem stepCount_eq_foldlM :
    m.stepCount =
      (decode m.code).items.foldlM (fun count item => item.map fun _ => count + 1) 0 := by
  rw [foldlM_items, stepCount, instructions]
  cases (decode m.code).result with
  | error error => rfl
  | ok located => exact congrArg Except.ok (List.length_map _)

theorem compile_eq_mapM :
    m.compile = ((decode m.code).items.mapM fun item : Except CodeError Located =>
      item.map Located.instruction).map List.toArray := by
  rw [mapM_items]
  rfl

theorem stepLines_eq :
    m.stepLines = (instructions m.code).map (·.map (·.toLine m.labels.nameAt?)) := by
  rw [stepLines, mapM_items, instructions]
  cases (decode m.code).result with
  | error error => rfl
  | ok located =>
    show Except.ok (located.map _) = .ok ((located.map Located.instruction).map _)
    rw [List.map_map]
    rfl

/-- A listing is made in two stages: the lines of the steps, and then the labels among them. -/
theorem listing_eq_bind :
    m.listing = m.stepLines >>= fun lines =>
      m.labels.spliceAll lines.length m.labels.stepsDescending lines := by
  rw [← splicedListing_eq, stepLines_eq, splicedListing]
  cases instructions m.code with
  | error error => rfl
  | ok steps =>
    show _ = m.labels.spliceAll (steps.map _).length _ _
    rw [List.length_map]

variable {m}

/-- Whatever is made of code that cannot be read fails as reading does. -/
theorem fails_of_error {error : CodeError} (ended : (decode m.code).error = some error) :
    m.stepCount = .error error ∧ m.compile = .error error ∧ m.stepLines = .error error ∧
      m.listing = .error error := by
  have failed : (decode m.code).result = .error error := by
    simp only [Decoding.result, ended]
  have lines : m.stepLines = .error error := by
    rw [stepLines, mapM_items, failed]
    rfl
  refine ⟨?_, ?_, lines, ?_⟩
  · rw [stepCount_eq_foldlM, foldlM_items, failed]
    rfl
  · rw [compile_eq_mapM, mapM_items, failed]
    rfl
  · rw [listing_eq_bind, lines]
    rfl

/-- Code that can be read to its end has the same number of steps for all its uses. -/
theorem exists_steps_of_whole (whole : (decode m.code).error = none) :
    m.stepCount = .ok (decode m.code).located.length ∧
      (∃ program, m.compile = .ok program ∧ program.size = (decode m.code).located.length) ∧
      ∃ lines, m.stepLines = .ok lines ∧ lines.length = (decode m.code).located.length := by
  have read : (decode m.code).result = .ok (decode m.code).located := by
    simp only [Decoding.result, whole]
  refine ⟨?_, ⟨((decode m.code).located.map Located.instruction).toArray, ?_, by simp⟩,
    (decode m.code).located.map (·.instruction.toLine m.labels.nameAt?), ?_, by simp⟩
  · rw [stepCount_eq_foldlM, foldlM_items, read]
    rfl
  · rw [compile_eq_mapM, mapM_items, read]
    rfl
  · rw [stepLines, mapM_items, read]
    rfl

/-- Reading machine code one instruction at a time comes to an end. It finds instructions side by
side from the first byte on, each with as many bytes as its width and with its own bytes, unused
bits apart. Behind them it finds either the end of the code or one error, at the header after the
last of them: that its number names no operation, or that fewer bytes are left than it needs.
Counting the steps, compiling and listing them go through what is found there; they fail exactly
when there is an error, with this error, and else find the same number of steps. Code that can be
read to its end may be followed by other code, which is read as it is by itself, only further on. -/
theorem tiled_by_instructions (m : MachineCode) (more : List UInt8) :
    (∀ found, (Reader.start m.code).Yields found ↔ found = (decode m.code).items) ∧
    (∀ front item back, (decode m.code).located = front ++ item :: back →
      item.offset = (front.flatMap Located.bytes).length ∧
      item.bytes.length = item.instruction.op.shape.width ∧
      item.instruction.encode = item.cleared) ∧
    ((decode m.code).error = none → (decode m.code).located.flatMap Located.bytes = m.code) ∧
    (∀ error, (decode m.code).error = some error → ∃ front header rest,
      front = (decode m.code).located.flatMap Located.bytes ∧ front ++ header :: rest = m.code ∧
      (error = .unknownOpcode front.length (headerCode header) ∨
        ∃ op, error = .truncated front.length op (rest.length + 1)) ∧
      (error = .unknownOpcode front.length (headerCode header) ↔ 23 ≤ (headerCode header).toNat) ∧
      ∀ op, error = .truncated front.length op (rest.length + 1) ↔
        op.code = headerCode header ∧ rest.length + 1 < op.shape.width) ∧
    m.stepCount = (decode m.code).items.foldlM (fun count item => item.map fun _ => count + 1) 0 ∧
    (m.compile = ((decode m.code).items.mapM fun item : Except CodeError Located =>
      item.map Located.instruction).map List.toArray) ∧
    (m.listing = m.stepLines >>= fun lines =>
      m.labels.spliceAll lines.length m.labels.stepsDescending lines) ∧
    (∀ error, (decode m.code).error = some error → m.stepCount = .error error ∧
      m.compile = .error error ∧ m.stepLines = .error error ∧ m.listing = .error error) ∧
    ((decode m.code).error = none → m.stepCount = .ok (decode m.code).located.length ∧
      (∃ program, m.compile = .ok program ∧ program.size = (decode m.code).located.length) ∧
      ∃ lines, m.stepLines = .ok lines ∧ lines.length = (decode m.code).located.length) ∧
    ((decode m.code).error = none → decode (m.code ++ more) =
      ⟨(decode m.code).located ++ (decode more).located.map (·.shift m.code.length),
        (decode more).error.map (·.shift m.code.length)⟩) := by
  have tiles := tiles_decodeFrom 0 m.code
  refine ⟨?_, ?_, tiles.whole, ?_, m.stepCount_eq_foldlM, m.compile_eq_mapM, m.listing_eq_bind,
    fun error => fails_of_error, exists_steps_of_whole, ?_⟩
  · intro found
    have yields : (Reader.start m.code).Yields (decode m.code).items :=
      Reader.yields_decodeFrom 0 rfl
    constructor
    · intro also
      exact also.unique yields
    · rintro rfl
      exact yields
  · intro front item back split
    have place := tiles.consecutive front item back split
    rw [Nat.zero_add] at place
    have member : item ∈ (decode m.code).located := by
      rw [split]
      simp
    exact ⟨place, tiles.width item member, encode_of_mem_decodeFrom member⟩
  · intro error ended
    obtain ⟨header, rest, split, ends⟩ := tiles.broken error ended
    rw [Nat.zero_add] at ends
    refine ⟨_, header, rest, rfl, split, ?_, ends.eq_unknownOpcode_iff, ends.eq_truncated_iff⟩
    cases ends with
    | unknown => exact .inl rfl
    | short op => exact .inr ⟨op, rfl⟩
  · intro whole
    have shifted := decodeFrom_shift 0 m.code.length more
    rw [decode, decodeFrom_append whole more, shifted]
    rfl

/-- An instruction without operands and one that is cut off. -/
def cutOff : MachineCode :=
  ⟨[0x00, 0x10, 0x01, 0x02], LabelTable.empty⟩

theorem tiled_by_instructions_cutOff :
    (Reader.start cutOff.code).Yields
      [.ok ⟨0, ⟨.nop, .bare⟩, [0x00]⟩, .error (.truncated 1 .load 3)] ∧
    cutOff.stepCount = .error (.truncated 1 .load 3) ∧
    cutOff.compile = .error (.truncated 1 .load 3) ∧
    cutOff.listing = .error (.truncated 1 .load 3) ∧
    decode ([0x00] ++ cutOff.code) =
      ⟨[⟨0, ⟨.nop, .bare⟩, [0x00]⟩, ⟨1, ⟨.nop, .bare⟩, [0x00]⟩], some (.truncated 2 .load 3)⟩ := by
  have one : decode [0x00] = ⟨[⟨0, ⟨.nop, .bare⟩, [0x00]⟩], none⟩ := by
    rw [decode, decodeFrom_cons_ok rfl, decodeFrom_nil]
  have both : decode cutOff.code =
      ⟨[⟨0, ⟨.nop, .bare⟩, [0x00]⟩], some (.truncated 1 .load 3)⟩ := by
    rw [decode, cutOff, decodeFrom_cons_ok rfl, decodeFrom_cons_error rfl]
    rfl
  obtain ⟨found, -, -, -, -, -, -, fails, -, -⟩ := cutOff.tiled_by_instructions []
  obtain ⟨-, -, -, -, -, -, -, -, -, joins⟩ :=
    tiled_by_instructions ⟨[0x00], LabelTable.empty⟩ cutOff.code
  obtain ⟨count, compiled, -, listed⟩ := fails _ (congrArg Decoding.error both)
  refine ⟨(found _).mpr ?_, count, compiled, listed, ?_⟩
  · rw [both]
    rfl
  · rw [joins (congrArg Decoding.error one), both, one]
    rfl

end MachineCode

end Uses

end Formicary
