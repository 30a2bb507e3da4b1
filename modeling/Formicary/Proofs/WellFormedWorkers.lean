import Mathlib.Data.List.Forall2
import Formicary.Proofs.TickParts

/-!
# What no worker does

A second account of the steps that use the stack checks each use of the memory and each change of
the stack pointer before it is made. It agrees with the first account, so that a fault is a failed
check. Along every history of edits and whole ticks the workers stay well formed, and with well
formed workers no check fails.
-/

namespace Formicary

namespace Careful

/-- The word at a place, which has to lie in the memory. -/
def word? (ram : Array UInt32) (place : Nat) : Option UInt32 :=
  ram[place]?

/-- Writes a word at a place, which has to lie in the memory. -/
def store? (ram : Array UInt32) (place : Nat) (value : UInt32) : Option (Array UInt32) :=
  if h : place < ram.size then some (ram.set place value h) else none

/-- A pointer moved up, which has to fit sixteen bits. -/
def raise? (pointer words : UInt16) : Option UInt16 :=
  if pointer.toNat + words.toNat < UInt16.size then some (pointer + words) else none

/-- A pointer moved down, which must not get below zero. -/
def lower? (pointer words : UInt16) : Option UInt16 :=
  if words ≤ pointer then some (pointer - words) else none

/-- Puts a word on the stack. -/
def push? (c : Cpu) (value : UInt32) : Option Cpu :=
  if c.sp.toNat < c.ram.size then do
    let ram ← store? c.ram c.sp.toNat value
    let sp ← raise? c.sp 1
    return { c with ram, sp, failed := false }
  else
    return c.fail

/-- Takes the top word off the stack. -/
def pop? (c : Cpu) : Option (Cpu × Option UInt32) :=
  if c.sp = 0 then
    return (c.fail, none)
  else do
    let sp ← lower? c.sp 1
    let value ← word? c.ram sp.toNat
    return ({ c with sp, failed := false }, some value)

/-- Saves the current step and frame, starts a new frame and jumps. -/
def call? (c : Cpu) (target : UInt16) : Option Cpu :=
  if c.canCall then do
    let saved ← push? c c.pc.toUInt32
    let saved ← push? saved c.bp.toUInt32
    return { saved with bp := saved.sp }.jumpTo target
  else
    return c.fail

/-- Drops the current frame and restores what was saved below it. -/
def ret? (c : Cpu) : Option Cpu :=
  if c.canReturn then do
    let top ← lower? c.bp 1
    let bp ← word? c.ram top.toNat
    let sp ← lower? c.bp 2
    let pc ← word? c.ram sp.toNat
    return { c with sp, bp := bp.toUInt16, pc := pc.toUInt16, failed := false }
  else
    return c.fail

/-- What an instruction does to the worker by itself. Only four of them use the stack. -/
def effect? : Instruction → Cpu → Option Cpu
  | ⟨.call, .target step⟩, c => call? c step
  | ⟨.ret, _⟩, c => ret? c
  | ⟨.push, .register r⟩, c => push? c (c.reg r)
  | ⟨.pop, .register r⟩, c =>
    (pop? c).map fun
      | (c, some value) => c.setReg r value
      | (c, none) => c
  | i, c => (i.effect c).toOption

/-- Runs any step, with the surroundings at hand. -/
def run? (i : Instruction) (s : Surroundings) (c : Cpu) : Option Cpu :=
  if i.op.readsWorld then some (c.checkAhead s) else effect? i c

section Agreement

variable (c : Cpu)

theorem push?_eq (value : UInt32) : push? c value = (c.push value).toOption := by
  unfold push? Cpu.push
  by_cases room : c.sp.toNat < c.ram.size
  · by_cases counts : c.sp.toNat + 1 < UInt16.size
    · simp [room, counts, store?, raise?, Except.toOption]
    · simp [room, counts, store?, raise?, Except.toOption]
  · simp [room, Except.toOption]

theorem pop?_eq : pop? c = c.pop.toOption := by
  unfold pop? Cpu.pop
  by_cases empty : c.sp = 0
  · simp [empty, Except.toOption]
  · have positive : (1 : UInt16) ≤ c.sp := by
      rw [UInt16.le_iff_toNat_le, UInt16.toNat_one]
      exact Nat.pos_of_ne_zero fun zero => empty (UInt16.toNat_inj.mp zero)
    rw [if_neg empty, if_neg empty, lower?, if_pos positive]
    cases found : c.ram[(c.sp - 1).toNat]? with
    | none => simp [word?, found, Except.toOption]
    | some value => simp [word?, found, Except.toOption]

theorem call?_eq (target : UInt16) : call? c target = (c.call target).toOption := by
  unfold call? Cpu.call
  cases c.canCall with
  | false => rfl
  | true =>
    simp only [if_true, push?_eq, toOption_bind]
    rfl

/-- Where a frame can be dropped, what was saved below it lies in the memory. -/
theorem ret?_eq : ret? c = some c.ret := by
  unfold ret? Cpu.ret
  cases frame : c.canReturn with
  | false => rfl
  | true =>
    obtain ⟨low, high⟩ : 2 ≤ c.bp.toNat ∧ c.bp.toNat ≤ c.ram.size := by
      simpa [Cpu.canReturn] using frame
    have one : (1 : UInt16) ≤ c.bp := by
      rw [UInt16.le_iff_toNat_le, UInt16.toNat_one]
      omega
    have two : (2 : UInt16) ≤ c.bp := UInt16.le_iff_toNat_le.mpr low
    have top : (c.bp - 1).toNat = c.bp.toNat - 1 := by
      rw [UInt16.toNat_sub_of_le _ _ one, UInt16.toNat_one]
    have bottom : (c.bp - 2).toNat = c.bp.toNat - 2 := UInt16.toNat_sub_of_le _ _ two
    have first : c.bp.toNat - 1 < c.ram.size := by omega
    have second : c.bp.toNat - 2 < c.ram.size := by omega
    simp [lower?, one, two, top, bottom, word?, first, second]

theorem effect?_eq (i : Instruction) : effect? i c = (i.effect c).toOption := by
  obtain ⟨op, operands⟩ := i
  cases op with
  | call =>
    cases operands with
    | target step => exact call?_eq c step
  | ret => exact ret?_eq c
  | push =>
    cases operands with
    | register r => exact push?_eq c (c.reg r)
  | pop =>
    cases operands with
    | register r =>
      show (pop? c).map _ = (c.pop.map _).toOption
      rw [pop?_eq]
      cases c.pop <;> rfl
  | _ => rfl

/-- A step faults exactly where a check fails. -/
theorem run?_eq (i : Instruction) (s : Surroundings) : run? i s c = (i.run s c).toOption := by
  unfold run? Instruction.run
  split
  · rfl
  · exact effect?_eq c i

end Agreement

end Careful

namespace Cpu

/-- The worker lays scent on one of the eight channels, if on any. -/
def Tuned (c : Cpu) : Prop :=
  ∀ bits, c.nose.writeChannel = some bits → bits.toNat < 8

variable {c d : Cpu}

theorem Tuned.of_nose (tuned : c.Tuned) (same : d.nose.writeChannel = c.nose.writeChannel) :
    d.Tuned := by
  intro bits found
  exact tuned bits (same ▸ found)

theorem nose_setReg (c : Cpu) (r : Reg) (value : UInt32) : (c.setReg r value).nose = c.nose := by
  cases r <;> rfl

theorem nose_push {value : UInt32} (pushed : c.push value = .ok d) : d.nose = c.nose := by
  unfold push at pushed
  split at pushed
  · split at pushed
    · cases pushed
      rfl
    · cases pushed
  · cases pushed
    rfl

theorem nose_pop {value : Option UInt32} (popped : c.pop = .ok (d, value)) : d.nose = c.nose := by
  unfold pop at popped
  split at popped
  · cases popped
    rfl
  · split at popped
    · cases popped
      rfl
    · cases popped

theorem nose_call {target : UInt16} (called : c.call target = .ok d) : d.nose = c.nose := by
  unfold call at called
  split at called
  · obtain ⟨first, saved, rest⟩ := bind_eq_ok_iff.mp called
    obtain ⟨second, framed, jumps⟩ := bind_eq_ok_iff.mp rest
    cases jumps
    exact (nose_push framed).trans (nose_push saved)
  · cases called
    rfl

theorem nose_ret (c : Cpu) : c.ret.nose = c.nose := by
  unfold ret
  split <;> rfl

theorem writeChannel_followScent (c : Cpu) :
    c.followScent.nose.writeChannel = c.nose.writeChannel := by
  unfold followScent
  dsimp only
  split <;> rfl

end Cpu

theorem Channel.toNat_bits_lt (channel : Channel) : channel.bits.toNat < 8 := by
  revert channel
  decide

/-- Only three steps change the channel a worker lays scent on, and they name one of the eight. -/
theorem Instruction.tuned_effect {i : Instruction} {c d : Cpu} (tuned : c.Tuned)
    (runs : i.effect c = .ok d) : d.Tuned := by
  obtain ⟨op, operands⟩ := i
  cases op with
  | nop | move | lt | rt | dig | chk =>
    cases runs
    exact tuned
  | load =>
    cases operands with
    | registerConstant r value =>
      cases runs
      exact tuned.of_nose (congrArg _ (c.nose_setReg r _))
  | copy | add | sub =>
    cases operands with
    | registerPair source r =>
      cases runs
      exact tuned.of_nose (congrArg _ (c.nose_setReg r _))
  | inc | dec =>
    cases operands with
    | register r =>
      cases runs
      exact tuned.of_nose (congrArg _ (c.nose_setReg r _))
  | jmp =>
    cases operands with
    | target step =>
      cases runs
      exact tuned
  | jnz | jnf =>
    cases operands with
    | target step =>
      cases runs
      split <;> exact tuned
  | call =>
    cases operands with
    | target step => exact tuned.of_nose (congrArg _ (Cpu.nose_call runs))
  | ret =>
    cases runs
    exact tuned.of_nose (congrArg _ c.nose_ret)
  | push =>
    cases operands with
    | register r => exact tuned.of_nose (congrArg _ (Cpu.nose_push runs))
  | pop =>
    cases operands with
    | register r =>
      obtain ⟨⟨popped, value⟩, pops, same⟩ := map_eq_ok_iff.mp runs
      have nose := Cpu.nose_pop pops
      cases value with
      | none =>
        cases same
        exact tuned.of_nose (congrArg _ nose)
      | some value =>
        cases same
        exact tuned.of_nose (congrArg _ ((popped.nose_setReg r value).trans nose))
  | srt =>
    cases runs
    exact tuned.of_nose c.writeChannel_followScent
  | swp =>
    cases operands with
    | channelPriority channel priority =>
      cases runs
      exact tuned
  | swn =>
    cases operands with
    | channel channel =>
      cases runs
      intro bits found
      cases found
      exact channel.toNat_bits_lt
  | swf =>
    cases runs
    intro bits found
    cases found

namespace Routine

/-- The steps that a worker runs in the local part of a tick, each with the state it is run in. -/
def localTrace (program : Program) : (budget : Nat) → Cpu → List (Instruction × Cpu)
  | 0, _ => []
  | budget + 1, c =>
    match nextLocal? program c with
    | none => []
    | some i =>
      (i, c) :: match i.runLocal c with
        | .error _ => []
        | .ok next => localTrace program budget next.advance

variable {program : Program} {budget : Nat} {c : Cpu}

theorem length_localTrace {last : Cpu} {left : Nat}
    (runs : runSteps program budget c = .ok (last, left)) :
    (localTrace program budget c).length + left = budget := by
  induction budget generalizing c with
  | zero =>
    cases runs
    rfl
  | succ budget ih =>
    unfold runSteps at runs
    unfold localTrace
    cases next : nextLocal? program c with
    | none =>
      rw [next] at runs
      cases runs
      simp
    | some i =>
      simp only [next] at runs
      cases after : i.runLocal c with
      | error fault =>
        rw [after] at runs
        cases runs
      | ok d =>
        simp only [after] at runs
        have rest := ih runs
        simp only [after, List.length_cons]
        omega

/-- Every step of the trace is without a cost and is run with the stack in the memory. -/
theorem fits_of_mem_localTrace (fits : c.Fits) {i : Instruction} {d : Cpu}
    (ran : (i, d) ∈ localTrace program budget c) : i.op.isLocal = true ∧ d.Fits := by
  induction budget generalizing c with
  | zero => cases ran
  | succ budget ih =>
    unfold localTrace at ran
    cases next : nextLocal? program c with
    | none =>
      rw [next] at ran
      cases ran
    | some j =>
      have isLocal := isLocal_of_nextLocal? next
      simp only [next] at ran
      rcases List.mem_cons.mp ran with same | later
      · cases same
        exact ⟨isLocal, fits⟩
      · obtain ⟨after, effect, inside, -⟩ := Instruction.exists_effect isLocal fits
        rw [← Instruction.runLocal_eq isLocal] at effect
        simp only [effect] at later
        exact ih inside.advance later

theorem tuned_runSteps (tuned : c.Tuned) {last : Cpu} {left : Nat}
    (runs : runSteps program budget c = .ok (last, left)) : last.Tuned := by
  induction budget generalizing c with
  | zero =>
    cases runs
    exact tuned
  | succ budget ih =>
    unfold runSteps at runs
    cases next : nextLocal? program c with
    | none =>
      rw [next] at runs
      cases runs
      exact tuned
    | some i =>
      simp only [next, Instruction.runLocal_eq (isLocal_of_nextLocal? next)] at runs
      cases after : i.effect c with
      | error fault =>
        rw [after] at runs
        cases runs
      | ok d =>
        simp only [after] at runs
        have step : d.Tuned := Instruction.tuned_effect tuned after
        exact ih (c := d.advance) step runs

end Routine

namespace Worker

/-- What a worker looks like between ticks. -/
structure WellFormed (w : Worker) : Prop where
  memory : w.cpu.ram.size = 64
  stack : w.cpu.sp.toNat ≤ 64
  channel : ∀ bits, w.cpu.nose.writeChannel = some bits → bits.toNat < 8
  still : w.cpu.movePending = false
  calm : w.cpu.digPending = false
  pace : w.routine.divisor = 1 ∨ w.routine.divisor = 2 ∨ w.routine.divisor = 3

/-- The steps that a worker runs in the local part of a tick, which are none before it is due. -/
def localTrace (w : Worker) (clock budget : Nat) : List (Instruction × Cpu) :=
  if w.routine.isDue clock then Routine.localTrace w.routine.program budget w.cpu else []

variable {w w' : Worker}

/-- The trace has all the steps that are counted. -/
theorem length_localTrace {clock budget ran : Nat}
    (runs : w.runLocal clock budget = .ok (w', ran)) :
    (w.localTrace clock budget).length = ran := by
  obtain ⟨r, c, routine, -⟩ := runLocal_eq_ok_iff.mp runs
  unfold localTrace
  rcases Routine.runLocal_eq_ok_iff.mp routine with ⟨early, -, -, rfl⟩ | ⟨due, left, steps, rfl, -⟩
  · simp [early]
  · have all := Routine.length_localTrace steps
    rw [if_pos due]
    omega

theorem fits_of_mem_localTrace (fits : w.cpu.Fits) {clock budget : Nat} {i : Instruction} {d : Cpu}
    (ran : (i, d) ∈ w.localTrace clock budget) : i.op.isLocal = true ∧ d.Fits := by
  unfold localTrace at ran
  split at ran
  · exact Routine.fits_of_mem_localTrace fits ran
  · cases ran

theorem WellFormed.fits (h : w.WellFormed) : w.cpu.Fits :=
  ⟨h.memory ▸ h.stack, h.memory ▸ by decide⟩

theorem wellFormed_new (id : WorkerId) (code : MachineCode) (program : Program) :
    (Worker.new id code program).WellFormed :=
  ⟨rfl, Nat.zero_le _, nofun, rfl, rfl, .inl rfl⟩

theorem wellFormed_load (w : Worker) (code : MachineCode) (program : Program)
    (h : w.WellFormed) : (w.load code program).WellFormed :=
  ⟨h.memory, Nat.zero_le _, h.channel, rfl, rfl, .inl rfl⟩

theorem WellFormed.reset (h : w.WellFormed) : w.reset.WellFormed :=
  ⟨h.memory, h.stack, h.channel, h.still, h.calm, h.pace⟩

theorem WellFormed.runLocal (h : w.WellFormed) {clock budget ran : Nat}
    (runs : w.runLocal clock budget = .ok (w', ran)) : w'.WellFormed := by
  obtain ⟨v, n, same, locally⟩ := exists_runLocal h.fits clock budget
  cases runs.symm.trans same
  have memory : w'.cpu.ram.size = 64 := locally.keeps.memory.trans h.memory
  obtain ⟨r, c, routine, rfl⟩ := runLocal_eq_ok_iff.mp runs
  refine ⟨memory, memory ▸ locally.fits.stack, ?_, locally.keeps.movePending.trans h.still,
    locally.keeps.digPending.trans h.calm, ?_⟩
  · rcases Routine.runLocal_cases routine with ⟨-, rfl⟩ | ⟨-, -, left, steps⟩
    · exact h.channel
    · exact Routine.tuned_runSteps h.channel steps
  · rcases Routine.runLocal_cases routine with ⟨rfl, -⟩ | ⟨progress, rfl, -⟩
    · exact h.pace
    · exact .inl rfl

theorem writeChannel_acted (w : Worker) (s : Surroundings) :
    (w.acted s).cpu.nose.writeChannel = w.cpu.nose.writeChannel := by
  unfold acted
  cases w.worldOp? with
  | none => rfl
  | some op => cases op <;> rfl

/-- A step with a cost of `n` ticks sets the pace to `n + 1`. -/
theorem pace_acted (w : Worker) (s : Surroundings) :
    (w.acted s).routine.divisor = w.routine.divisor ∨ (w.acted s).routine.divisor = 2 ∨
      (w.acted s).routine.divisor = 3 := by
  unfold acted
  cases runs : w.worldOp? with
  | none =>
    obtain ⟨worldDone, progress, rested⟩ := w.routine.rested_eq
    exact .inl (by rw [rested])
  | some op =>
    have costs := Routine.isLocal_of_worldOp? runs
    cases op with
    | move | chk => exact .inr (.inl rfl)
    | dig => exact .inr (.inr rfl)
    | _ => cases costs

theorem WellFormed.takeTurn (h : w.WellFormed) {g g' : Grid} {amount : UInt8} {cost : Option Nat}
    (turn : w.takeTurn g amount = .ok (w', g', cost)) : w'.WellFormed := by
  obtain ⟨kept, quiet⟩ := keptBy_takeTurn turn
  obtain ⟨-, failed, s, s', rfl⟩ := takeTurn_cases turn
  refine ⟨kept.ram ▸ h.memory, kept.sp ▸ h.stack, ?_, quiet.move, quiet.dig, ?_⟩
  · intro bits found
    exact h.channel bits ((w.writeChannel_acted s).symm.trans found)
  · have pace := h.pace
    rcases w.pace_acted s with same | two | three
    · rw [same]
      exact pace
    · exact .inr (.inl two)
    · exact .inr (.inr three)

theorem bp_takeTurn {g g' : Grid} {amount : UInt8} {cost : Option Nat}
    (turn : w.takeTurn g amount = .ok (w', g', cost)) : w'.cpu.bp = w.cpu.bp := by
  obtain ⟨-, failed, s, s', rfl⟩ := takeTurn_cases turn
  show (w.acted s).cpu.bp = w.cpu.bp
  unfold acted
  cases w.worldOp? with
  | none => rfl
  | some op => cases op <;> rfl

end Worker

namespace Colony

/-- The colonies that a host gets to by edits and whole ticks, whatever it does to the grid. -/
inductive Tended : Colony → Prop where
  | new {grid : Grid} {settings : Settings} {c : Colony} (made : new grid settings = .ok c) :
    Tended c
  | edit {c c' : Colony} (before : Tended c) (edit : Edit c c') : Tended c'
  | regrid {c : Colony} (before : Tended c) (grid : Grid) : Tended { c with grid }
  | tick {c c' : Colony} {stats : TickStats} (before : Tended c)
    (ticks : c.tick = .ok (c', stats)) : Tended c'

theorem wellFormed_ready {c : Colony} (all : ∀ w ∈ c.workers, w.WellFormed) {ready : List Worker}
    {ran : Nat} (runs : runLocalAll c.clock c.settings.maxStepsPerTick
      (c.workers.map Worker.reset) = .ok (ready, ran)) : ∀ w ∈ ready, w.WellFormed := by
  have fresh : ∀ w ∈ c.workers.map Worker.reset, w.WellFormed := by
    intro w member
    obtain ⟨v, old, rfl⟩ := List.mem_map.mp member
    exact (all v old).reset
  refine Worker.forall_of_forall₂ (forall₂_of_runLocalAll runs) fresh ?_
  rintro w w' ⟨n, first⟩ h
  exact h.runLocal first

theorem Tended.wellFormed {c : Colony} (tended : c.Tended) : ∀ w ∈ c.workers, w.WellFormed := by
  induction tended with
  | new made =>
    obtain ⟨settings, -, rfl⟩ := map_eq_ok_iff.mp made
    simp
  | edit before edit ih => exact edit.forall_workers Worker.wellFormed_new Worker.wellFormed_load ih
  | regrid before grid ih => exact ih
  | tick before ticks ih =>
    obtain ⟨ready, ran, g, ws, worldSteps, runs, turns, same⟩ := tick_eq_ok_iff.mp ticks
    cases same
    refine Worker.forall_of_forall₂ (forall₂_of_takeTurns turns) (wellFormed_ready ih runs) ?_
    rintro w w' ⟨before, after, cost, turn⟩ h
    exact h.takeTurn turn

/-- A program that calls, puts another word in the place of the saved frame, and returns. -/
def reframing (bp : UInt16) : List Instruction :=
  [⟨.call, .target 1⟩, ⟨.pop, .register .a⟩, ⟨.load, .registerConstant .a bp.toUInt32⟩,
    ⟨.push, .register .a⟩, ⟨.ret, .bare⟩]

theorem exists_tended_bp (bp : UInt16) :
    ∃ c : Colony, c.Tended ∧ ∃ w ∈ c.workers, w.cpu.bp = bp := by
  have made : Colony.new (Grid.clear 1 1) ⟨5, 1, 0⟩ = .ok _ := rfl
  have tended := (Tended.new made).edit (.joinedBy _ (reframing bp))
  obtain ⟨ready, ran, g, ws, worldSteps, runs, -, turns, -, ticks⟩ :=
    exists_tick fun w member => (tended.wellFormed w member).fits
  -- There is one worker, and one after each part of the tick.
  obtain ⟨w, none, ⟨n, first⟩, rest, rfl⟩ :=
    List.forall₂_cons_left_iff.mp (forall₂_of_runLocalAll runs)
  obtain rfl := List.forall₂_nil_left_iff.mp rest
  obtain ⟨w', others, ⟨before, after, cost, turn⟩, -, rfl⟩ :=
    List.forall₂_cons_left_iff.mp (forall₂_of_takeTurns turns)
  refine ⟨_, tended.tick ticks, w', List.mem_cons_self, ?_⟩
  obtain ⟨r, c, routine, rfl⟩ := Worker.runLocal_eq_ok_iff.mp first
  have steps : (Routine.start (reframing bp).toArray).reset.runLocal Cpu.initial 0 5 =
      .ok (r, c, n) := routine
  have framed : ((Routine.start (reframing bp).toArray).reset.runLocal Cpu.initial 0 5).toOption.map
      (fun last => last.2.1.bp) = some bp.toUInt32.toUInt16 := rfl
  rw [steps] at framed
  rw [Worker.bp_takeTurn turn]
  exact (Option.some.inj framed).trans (UInt16.toUInt16_toUInt32 bp)

/-- Along every history of edits and whole ticks each worker has its 64 words of memory, its stack
in them, one of the eight channels or none, no request, and a pace of one to three ticks. The next
tick does not fault: no worker divides the clock by zero, all its local steps are without a cost,
and each step, local or not, passes every check of its use of the memory and the stack pointer. Only
the frame pointer is not bounded: a program can set it to anything. -/
theorem wellFormed_of_tended :
    (∀ c : Colony, c.Tended → (∃ r, c.tick = .ok r) ∧
      ∀ w ∈ c.workers, w.WellFormed ∧ w.routine.divisor ≠ 0 ∧
        (∀ i d, (i, d) ∈ w.localTrace c.clock c.settings.maxStepsPerTick →
          i.op.ticks = 0 ∧ ∃ next, i.runLocal d = .ok next ∧ Careful.effect? i d = some next) ∧
        ∃ w', w.reset.runLocal c.clock c.settings.maxStepsPerTick =
            .ok (w', (w.localTrace c.clock c.settings.maxStepsPerTick).length) ∧
          ∀ i, Routine.current? w'.routine.program w'.cpu = some i → i.op.isLocal = false →
            ∀ s, ∃ next, i.run s w'.cpu = .ok next ∧ Careful.run? i s w'.cpu = some next) ∧
      ∀ bp : UInt16, ∃ c : Colony, c.Tended ∧ ∃ w ∈ c.workers, w.cpu.bp = bp := by
  refine ⟨?_, exists_tended_bp⟩
  intro c tended
  have all := tended.wellFormed
  obtain ⟨ready, ran, g, ws, worldSteps, -, -, -, -, ticks⟩ :=
    exists_tick fun w member => (all w member).fits
  refine ⟨⟨_, ticks⟩, ?_⟩
  intro w member
  have h := all w member
  have pace := h.pace
  refine ⟨h, by omega, ?_, ?_⟩
  · intro i d traced
    obtain ⟨isLocal, fits⟩ := Worker.fits_of_mem_localTrace h.fits traced
    obtain ⟨next, effect, -⟩ := Instruction.exists_effect isLocal fits
    refine ⟨by simpa [Op.isLocal] using isLocal, next, ?_, ?_⟩
    · rw [Instruction.runLocal_eq isLocal, effect]
    · rw [Careful.effect?_eq, effect]
      rfl
  · obtain ⟨w', ran, runs, -⟩ :=
      Worker.exists_runLocal h.reset.fits c.clock c.settings.maxStepsPerTick
    -- Making a worker ready changes neither its pace nor its program, so the trace is the same.
    have counted := Worker.length_localTrace runs
    refine ⟨w', counted ▸ runs, ?_⟩
    intro i current costs s
    refine ⟨i.op.outcome s w'.cpu, Instruction.run_eq_ok costs s w'.cpu, ?_⟩
    rw [Careful.run?_eq, Instruction.run_eq_ok costs]
    rfl

/-- A colony of one worker with that program. -/
def reframer : Colony :=
  (Colony.mk (Grid.clear 1 1) [] 0 0 ⟨5, 1, 0⟩ .idle 0).joinedBy (reframing 7)

theorem wellFormed_of_tended_reframer :
    reframer.Tended ∧ (∃ r, reframer.tick = .ok r) ∧ ∀ w ∈ reframer.workers, w.WellFormed ∧
      (w.localTrace 0 5).length = 5 ∧
        ∀ i d, (i, d) ∈ w.localTrace 0 5 → ∃ next, Careful.effect? i d = some next := by
  have made : Colony.new (Grid.clear 1 1) ⟨5, 1, 0⟩ = .ok _ := rfl
  have tended : reframer.Tended := (Tended.new made).edit (.joinedBy _ _)
  have long : ∀ w ∈ reframer.workers, (w.localTrace 0 5).length = 5 := by decide +kernel
  obtain ⟨ticks, each⟩ := wellFormed_of_tended.1 reframer tended
  refine ⟨tended, ticks, ?_⟩
  intro w member
  obtain ⟨h, -, locals, -⟩ := each w member
  refine ⟨h, long w member, ?_⟩
  intro i d ran
  obtain ⟨-, next, -, careful⟩ := locals i d ran
  exact ⟨next, careful⟩

end Colony

end Formicary
