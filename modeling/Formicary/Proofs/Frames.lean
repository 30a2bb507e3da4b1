import Formicary.Proofs.LocalSteps
import Formicary.Proofs.Turns

/-!
# Calls and returns

A call saves the step and the frame of the caller on the stack and starts a frame above them. As
long as the callee takes nothing off the stack that it did not put there, and returns from the calls
it makes, all that lies below its frame stays as it is: its return then finds what the call saved.
-/

namespace Formicary

namespace Cpu

/-- An operation that leaves a worker in its frame: it is no return, takes nothing off the stack
that lies below the frame, and is no call that the stack has room for. -/
def StaysInFrame (c : Cpu) : Op → Prop
  | .ret => False
  | .call => c.canCall = false
  | .pop => c.bp < c.sp
  | _ => True

/-- What becomes of a worker while it is in one frame. -/
inductive WithinFrame : Cpu → Cpu → Prop where
  | refl (c : Cpu) : WithinFrame c c
  /-- A step with or without a cost. -/
  | step {c d e : Cpu} {i : Instruction} {s : Surroundings} (before : WithinFrame c d)
    (stays : d.StaysInFrame i.op) (runs : i.run s d = .ok e) : WithinFrame c e
  /-- On to the next step. -/
  | advance {c d : Cpu} (before : WithinFrame c d) : WithinFrame c d.advance
  /-- The end of a turn, on any grid. -/
  | resolve {c : Cpu} {w : Worker} (g : Grid) (deposit : UInt8) (before : WithinFrame c w.cpu) :
    WithinFrame c (w.resolve g deposit).1.cpu
  /-- A call, all that happens in its frame, and the return from it. -/
  | call {c d e f : Cpu} (before : WithinFrame c d) (target : UInt16) (room : d.canCall = true)
    (called : d.call target = .ok e) (body : WithinFrame e f) : WithinFrame c f.ret

/-- The stack of a worker lies in its memory, and its frame in its stack. -/
structure Framed (c : Cpu) : Prop extends c.Fits where
  frame : c.bp.toNat ≤ c.sp.toNat

/-- What lies below the frame of a worker is kept. -/
structure KeepsBelow (c d : Cpu) : Prop where
  bp : d.bp = c.bp
  memory : d.ram.size = c.ram.size
  below : ∀ k < c.bp.toNat, d.ram[k]? = c.ram[k]?

/-- What a call makes of a worker. -/
structure EnteredFrom (d c : Cpu) : Prop where
  framed : d.Framed
  base : d.bp.toNat = c.sp.toNat + 2
  memory : d.ram.size = c.ram.size
  below : ∀ k < c.sp.toNat, d.ram[k]? = c.ram[k]?
  step : d.ram[c.sp.toNat]? = some c.pc.toUInt32
  caller : d.ram[c.sp.toNat + 1]? = some c.bp.toUInt32

/-- The stack is untouched. -/
structure SameStack (c d : Cpu) : Prop where
  sp : d.sp = c.sp
  bp : d.bp = c.bp
  ram : d.ram = c.ram

variable {c d e : Cpu}

theorem KeepsBelow.trans (first : c.KeepsBelow d) (second : d.KeepsBelow e) : c.KeepsBelow e where
  bp := second.bp.trans first.bp
  memory := second.memory.trans first.memory
  below k low := (second.below k (first.bp ▸ low)).trans (first.below k low)

theorem SameStack.framed (same : c.SameStack d) (framed : c.Framed) :
    d.Framed ∧ c.KeepsBelow d := by
  obtain ⟨sp, bp, ram⟩ := same
  refine ⟨⟨⟨?_, ?_⟩, ?_⟩, bp, congrArg Array.size ram, fun k _ => by rw [ram]⟩
  · rw [sp, ram]
    exact framed.stack
  · rw [ram]
    exact framed.memory
  · rw [sp, bp]
    exact framed.frame

section Steps

theorem sameStack_setReg (c : Cpu) (r : Reg) (value : UInt32) : c.SameStack (c.setReg r value) := by
  cases r <;> exact ⟨rfl, rfl, rfl⟩

theorem sameStack_followScent (c : Cpu) : c.SameStack c.followScent := by
  unfold followScent
  dsimp only
  split <;> exact ⟨rfl, rfl, rfl⟩

theorem sameStack_resolve (w : Worker) (g : Grid) (deposit : UInt8) :
    w.cpu.SameStack (w.resolve g deposit).1.cpu := by
  obtain ⟨failed, g', settled⟩ := w.exists_resolve g deposit
  rw [settled]
  exact ⟨rfl, rfl, rfl⟩

/-- A word is put above the frame, or nowhere. -/
theorem framed_push (framed : c.Framed) {value : UInt32} (pushed : c.push value = .ok d) :
    d.Framed ∧ c.KeepsBelow d := by
  have frame := framed.frame
  have memory := framed.memory
  obtain ⟨same, fits⟩ := Source.push_eq framed.toFits value
  cases pushed.symm.trans same
  unfold Source.push at fits ⊢
  split at fits
  · next room =>
    rw [if_pos room]
    refine ⟨⟨fits, ?_⟩, rfl, Array.size_setIfInBounds, fun k low => ?_⟩
    · rw [Source.toNat_succ (by omega)]
      exact Nat.le_succ_of_le frame
    · rw [Array.getElem?_setIfInBounds_ne (by omega)]
  · next full =>
    rw [if_neg full]
    exact ⟨⟨fits, frame⟩, rfl, rfl, fun k _ => rfl⟩

/-- A word above the frame is taken off. -/
theorem framed_pop (framed : c.Framed) (own : c.bp < c.sp) (r : Reg) :
    (Source.pop c r).Framed ∧ c.KeepsBelow (Source.pop c r) := by
  have own : c.bp.toNat < c.sp.toNat := UInt16.lt_iff_toNat_lt.mp own
  have some : c.sp ≠ 0 := by
    intro none
    rw [none, UInt16.toNat_zero] at own
    omega
  have top : (c.sp - 1).toNat = c.sp.toNat - 1 := by
    rw [UInt16.toNat_sub_of_le _ _ (UInt16.le_iff_toNat_le.mpr (by rw [UInt16.toNat_one]; omega)),
      UInt16.toNat_one]
  have fits := (Source.pop_eq framed.toFits r).2
  unfold Source.pop at fits ⊢
  rw [if_neg some] at fits ⊢
  refine ⟨⟨fits, ?_⟩, ?_⟩
  · cases r <;> exact top ▸ Nat.le_sub_one_of_lt own
  · cases r <;> exact ⟨rfl, rfl, fun k _ => rfl⟩

/-- Every step of a worker that stays in its frame keeps what lies below it. -/
theorem framed_run {i : Instruction} {s : Surroundings} (framed : c.Framed)
    (stays : c.StaysInFrame i.op) (runs : i.run s c = .ok d) : d.Framed ∧ c.KeepsBelow d := by
  obtain ⟨op, operands⟩ := i
  cases op with
  | ret => exact stays.elim
  | nop | move | lt | rt | dig | chk | swf =>
    cases runs
    exact SameStack.framed ⟨rfl, rfl, rfl⟩ framed
  | srt =>
    cases runs
    exact c.sameStack_followScent.framed framed
  | load =>
    cases operands with
    | registerConstant r value =>
      cases runs
      exact (c.sameStack_setReg r _).framed framed
  | copy | add | sub =>
    cases operands with
    | registerPair source r =>
      cases runs
      exact (c.sameStack_setReg r _).framed framed
  | inc | dec =>
    cases operands with
    | register r =>
      cases runs
      exact (c.sameStack_setReg r _).framed framed
  | jmp =>
    cases operands with
    | target step =>
      cases runs
      exact SameStack.framed ⟨rfl, rfl, rfl⟩ framed
  | jnz | jnf =>
    cases operands with
    | target step =>
      cases runs
      refine SameStack.framed ?_ framed
      split <;> exact ⟨rfl, rfl, rfl⟩
  | call =>
    cases operands with
    | target step =>
      have stays : c.canCall = false := stays
      have full : c.call step = .ok c.fail := if_neg (by simp [stays])
      cases full.symm.trans runs
      exact SameStack.framed ⟨rfl, rfl, rfl⟩ framed
  | push =>
    cases operands with
    | register r => exact framed_push framed runs
  | pop =>
    cases operands with
    | register r =>
      cases (Source.pop_eq framed.toFits r).1.symm.trans runs
      exact framed_pop framed stays r
  | swp =>
    cases operands with
    | channelPriority channel priority =>
      cases runs
      exact SameStack.framed ⟨rfl, rfl, rfl⟩ framed
  | swn =>
    cases operands with
    | channel channel =>
      cases runs
      exact SameStack.framed ⟨rfl, rfl, rfl⟩ framed

end Steps

section Calls

/-- A call that has room puts two words on the stack and starts a frame above them. -/
theorem exists_call (fits : c.Fits) (room : c.canCall = true) (target : UInt16) :
    ∃ d, c.call target = .ok d ∧ d.EnteredFrom c ∧ d.failed = false ∧ d.advance.pc = target := by
  have space : c.sp.toNat + 2 ≤ c.ram.size := by simpa [canCall] using room
  have memory := fits.memory
  obtain ⟨first, fits₁⟩ := Source.push_eq fits c.pc.toUInt32
  obtain ⟨second, fits₂⟩ := Source.push_eq fits₁ c.bp.toUInt32
  have once : (c.sp + 1).toNat = c.sp.toNat + 1 := Source.toNat_succ (by omega)
  have twice : (c.sp + 1 + 1).toNat = c.sp.toNat + 2 := by
    rw [Source.toNat_succ (by omega), once]
  have pushed : Source.push (Source.push c c.pc.toUInt32) c.bp.toUInt32 = { c with
      ram := (c.ram.setIfInBounds c.sp.toNat c.pc.toUInt32).setIfInBounds (c.sp.toNat + 1)
        c.bp.toUInt32
      sp := c.sp + 1 + 1
      failed := false } := by
    have here : c.sp.toNat < c.ram.size := by omega
    have next : c.sp.toNat + 1 < (c.ram.setIfInBounds c.sp.toNat c.pc.toUInt32).size := by
      rw [Array.size_setIfInBounds]
      omega
    simp only [Source.push, if_pos here, if_pos next, once]
  have called : c.call target = .ok ({ Source.push (Source.push c c.pc.toUInt32) c.bp.toUInt32 with
      bp := (Source.push (Source.push c c.pc.toUInt32) c.bp.toUInt32).sp }.jumpTo target) := by
    rw [call, if_pos room, first]
    exact bind_eq_ok_iff.mpr ⟨_, rfl, bind_eq_ok_iff.mpr ⟨_, second, rfl⟩⟩
  rw [pushed] at called fits₂
  refine ⟨_, called, ⟨⟨⟨fits₂.stack, fits₂.memory⟩, Nat.le_refl _⟩, twice, ?_, fun k low => ?_, ?_,
    ?_⟩, rfl, UInt16.sub_add_cancel target 1⟩
  · simp only [jumpTo, Array.size_setIfInBounds]
  · simp only [jumpTo]
    rw [Array.getElem?_setIfInBounds_ne (by omega), Array.getElem?_setIfInBounds_ne (by omega)]
  · simp only [jumpTo]
    rw [Array.getElem?_setIfInBounds_ne (by omega),
      Array.getElem?_setIfInBounds_self_of_lt (by omega)]
  · simp only [jumpTo]
    rw [Array.getElem?_setIfInBounds_self_of_lt (by rw [Array.size_setIfInBounds]; omega)]

/-- A return finds what the call saved, if that is still there: each saved word was widened from
sixteen bits, so it fits them again. -/
theorem ret_of_entered (entered : d.EnteredFrom c) (kept : d.KeepsBelow e) :
    e.canReturn = true ∧
      e.ret = { e with sp := c.sp, bp := c.bp, pc := c.pc, failed := false } := by
  have base : e.bp.toNat = c.sp.toNat + 2 := kept.bp ▸ entered.base
  have inside : e.bp.toNat ≤ e.ram.size := by
    rw [kept.bp, kept.memory]
    exact entered.framed.frame.trans entered.framed.stack
  have returns : e.canReturn = true := by
    simp only [canReturn, Bool.and_eq_true, decide_eq_true_eq]
    omega
  have sp : e.bp - 2 = c.sp := by
    have two : (2 : UInt16) ≤ e.bp := by
      rw [UInt16.le_iff_toNat_le, base]
      exact Nat.le_add_left 2 _
    apply UInt16.toNat_inj.mp
    rw [UInt16.toNat_sub_of_le _ _ two, base]
    rfl
  have step : e.ram[c.sp.toNat]? = some c.pc.toUInt32 :=
    (kept.below _ (by rw [entered.base]; omega)).trans entered.step
  have caller : e.ram[c.sp.toNat + 1]? = some c.bp.toUInt32 :=
    (kept.below _ (by rw [entered.base]; omega)).trans entered.caller
  refine ⟨returns, ?_⟩
  rw [ret, if_pos returns, sp, base, Array.getD_eq_getD_getElem?, Array.getD_eq_getD_getElem?,
    Nat.add_sub_cancel, show c.sp.toNat + 2 - 1 = c.sp.toNat + 1 from rfl, step, caller,
    Option.getD_some, Option.getD_some, UInt16.toUInt16_toUInt32, UInt16.toUInt16_toUInt32]

/-- Whatever happens within one frame keeps what lies below it. -/
theorem WithinFrame.framed (within : c.WithinFrame d) (framed : c.Framed) :
    d.Framed ∧ c.KeepsBelow d := by
  induction within with
  | refl c => exact SameStack.framed ⟨rfl, rfl, rfl⟩ framed
  | step before stays runs ih =>
    obtain ⟨between, first⟩ := ih framed
    obtain ⟨after, second⟩ := framed_run between stays runs
    exact ⟨after, first.trans second⟩
  | @advance c d before ih =>
    obtain ⟨between, first⟩ := ih framed
    have same : d.SameStack d.advance := ⟨rfl, rfl, rfl⟩
    obtain ⟨after, second⟩ := same.framed between
    exact ⟨after, first.trans second⟩
  | @resolve c w g deposit before ih =>
    obtain ⟨between, first⟩ := ih framed
    obtain ⟨after, second⟩ := (sameStack_resolve w g deposit).framed between
    exact ⟨after, first.trans second⟩
  | @call c d e f before target room called body ihBefore ihBody =>
    obtain ⟨between, first⟩ := ihBefore framed
    obtain ⟨e', same, entered, -⟩ := exists_call between.toFits room target
    cases same.symm.trans called
    obtain ⟨inner, kept⟩ := ihBody entered.framed
    -- The frame of the inner call starts above the outer one, so that what it keeps is more.
    have low := between.frame
    have returned : d.KeepsBelow f.ret := by
      rw [(ret_of_entered entered kept).2]
      refine ⟨rfl, kept.memory.trans entered.memory, fun k below => ?_⟩
      rw [← entered.below k (by omega)]
      exact kept.below k (by rw [entered.base]; omega)
    refine ⟨⟨⟨?_, returned.memory ▸ between.memory⟩, ?_⟩, first.trans returned⟩
    · rw [returned.memory, (ret_of_entered entered kept).2]
      exact between.stack
    · rw [(ret_of_entered entered kept).2]
      exact low

end Calls

end Cpu

/-- Where the stack lies in the memory no step faults, with or without a cost. -/
theorem Instruction.exists_run (i : Instruction) (s : Surroundings) {c : Cpu} (fits : c.Fits) :
    ∃ d, i.run s c = .ok d := by
  cases isLocal : i.op.isLocal with
  | false => exact ⟨_, run_eq_ok isLocal s c⟩
  | true =>
    obtain ⟨d, effect, -⟩ := exists_effect isLocal fits
    have blind : i.op.readsWorld = false := by
      obtain ⟨op, operands⟩ := i
      cases op with
      | chk => cases isLocal
      | _ => rfl
    exact ⟨d, by rw [run, blind, if_neg Bool.false_ne_true, effect]⟩

namespace Cpu

/-- A call that the stack has room for succeeds, and the callee never faults. Whenever it returns,
it leaves the stack pointer, the frame and the step as they were at the call, and every word of the
caller's stack: the worker goes on at the step after the call. -/
theorem ret_restores_caller {c : Cpu} (room : c.sp.toNat + 2 ≤ c.ram.size)
    (memory : c.ram.size ≤ 65535) (target : UInt16) :
    ∃ d, c.call target = .ok d ∧ d.failed = false ∧ d.advance.pc = target ∧
      ∀ e, d.WithinFrame e →
        (∀ (i : Instruction) s, ∃ f, i.run s e = .ok f) ∧
        e.canReturn = true ∧ e.ret.failed = false ∧
        e.ret.sp = c.sp ∧ e.ret.bp = c.bp ∧ e.ret.pc = c.pc ∧
        e.ret.advance.pc.toNat = (c.pc.toNat + 1) % 65536 ∧
        ∀ k < c.sp.toNat, e.ret.ram[k]? = c.ram[k]? := by
  have fits : c.Fits := ⟨by omega, memory⟩
  obtain ⟨d, called, entered, succeeds, leads⟩ :=
    exists_call fits (by simpa [canCall] using room) target
  refine ⟨d, called, succeeds, leads, fun e within => ?_⟩
  obtain ⟨framed, kept⟩ := within.framed entered.framed
  obtain ⟨returns, restored⟩ := ret_of_entered entered kept
  refine ⟨fun i s => i.exists_run s framed.toFits, returns, ?_⟩
  rw [restored]
  refine ⟨rfl, rfl, rfl, rfl, UInt16.toNat_add c.pc 1, fun k low => ?_⟩
  rw [← entered.below k low]
  exact kept.below k (by rw [entered.base]; omega)

/-- A worker with six words of memory, one of them in use, at the last step a program can have. -/
def cramped : Cpu :=
  { initial with ram := #[9, 0, 0, 0, 0, 0], sp := 1, bp := 1, pc := 65535 }

/-- That worker in the frame of a call. -/
def crampedCallee : Cpu :=
  { cramped with ram := #[9, 65535, 1, 0, 0, 0], sp := 3, bp := 3, pc := 3 }

/-- That worker in the frame of a second call, which fills its memory. -/
def crampedInner : Cpu :=
  { cramped with ram := #[9, 65535, 1, 0, 4, 3], sp := 6, bp := 6, pc := 7 }

/-- The callee puts a word on the stack and calls once more; there it has no room to push or to
call. Back again it drops its word, asks for a move and has it settled. -/
theorem ret_restores_caller_cramped :
    ∃ e, cramped.call 4 = .ok crampedCallee ∧ crampedCallee.WithinFrame e ∧ e.ret.sp = 1 ∧
      e.ret.bp = 1 ∧ e.ret.pc = 65535 ∧ e.ret.advance.pc.toNat = 0 ∧ e.ret.ram[0]? = some 9 := by
  obtain ⟨d, called, -, -, restores⟩ :=
    ret_restores_caller (c := cramped) (by decide) (by decide) 4
  have entered : cramped.call 4 = .ok crampedCallee := rfl
  cases entered.symm.trans called
  have pushed := WithinFrame.step (i := ⟨.push, .register .a⟩) (s := .none)
    (WithinFrame.refl crampedCallee).advance trivial rfl
  have full := WithinFrame.step (i := ⟨.push, .register .a⟩) (s := .none)
    (WithinFrame.refl crampedInner).advance trivial rfl
  have fuller := WithinFrame.step (i := ⟨.call, .target 2⟩) (s := .none) full.advance rfl rfl
  have back := (pushed.call 8 rfl rfl fuller).advance
  have dropped := WithinFrame.step (i := ⟨.pop, .register .b⟩) (s := .none) back
    (show (3 : UInt16) < 4 by decide) rfl
  have asks := WithinFrame.step (i := ⟨.move, .bare⟩) (s := .none) dropped.advance trivial rfl
  have settled := asks.advance.resolve (w := ⟨0, _, .empty, ⟨[], .empty⟩⟩) (Grid.clear 1 1) 0
  obtain ⟨-, -, -, sp, bp, pc, next, words⟩ := restores _ settled
  exact ⟨_, entered, settled, sp, bp, pc, next, words 0 (by decide)⟩

end Cpu

end Formicary
