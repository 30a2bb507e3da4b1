import Formicary.Colony.Basic
import Formicary.Proofs.Execution

/-!
# What local steps leave alone

A worker whose stack lies in its memory can run every step without a cost, and its stack lies in its
memory again after it. No such step makes a request, looks at the world or changes the amount of
memory. This holds of one step, hence of the local part of a tick, for one worker and for all.
-/

namespace Formicary

namespace Cpu

/-- What a worker has kept of an earlier state: its requests, its senses and its memory's size. -/
structure Keeps (c next : Cpu) : Prop where
  movePending : next.movePending = c.movePending
  digPending : next.digPending = c.digPending
  isOpen : next.isOpen = c.isOpen
  neighbors : next.nose.neighbors = c.nose.neighbors
  memory : next.ram.size = c.ram.size

variable {c d e : Cpu}

theorem Keeps.refl (c : Cpu) : c.Keeps c :=
  ⟨rfl, rfl, rfl, rfl, rfl⟩

theorem Keeps.trans (first : c.Keeps d) (second : d.Keeps e) : c.Keeps e :=
  ⟨second.movePending.trans first.movePending, second.digPending.trans first.digPending,
    second.isOpen.trans first.isOpen, second.neighbors.trans first.neighbors,
    second.memory.trans first.memory⟩

theorem Keeps.advance (keeps : c.Keeps d) : c.Keeps d.advance :=
  ⟨keeps.movePending, keeps.digPending, keeps.isOpen, keeps.neighbors, keeps.memory⟩

theorem Fits.advance (fits : c.Fits) : c.advance.Fits :=
  ⟨fits.stack, fits.memory⟩

theorem keeps_setReg (r : Reg) (word : UInt32) : c.Keeps (c.setReg r word) := by
  cases r <;> exact ⟨rfl, rfl, rfl, rfl, rfl⟩

theorem fits_setReg (fits : c.Fits) (r : Reg) (word : UInt32) : (c.setReg r word).Fits :=
  Source.setReg_eq c r word ▸ Source.fits_write fits r word

theorem keeps_push (c : Cpu) (word : UInt32) : c.Keeps (Source.push c word) := by
  unfold Source.push
  split
  · exact ⟨rfl, rfl, rfl, rfl, Array.size_setIfInBounds⟩
  · exact ⟨rfl, rfl, rfl, rfl, rfl⟩

theorem keeps_pop (c : Cpu) (r : Reg) : c.Keeps (Source.pop c r) := by
  unfold Source.pop
  split
  · exact ⟨rfl, rfl, rfl, rfl, rfl⟩
  · cases r <;> exact ⟨rfl, rfl, rfl, rfl, rfl⟩

theorem keeps_call (c : Cpu) (line : Nat) : c.Keeps (Source.call c line) := by
  unfold Source.call
  split
  · have pushed := (c.keeps_push c.pc.toUInt32).trans (keeps_push _ c.bp.toUInt32)
    exact ⟨pushed.movePending, pushed.digPending, pushed.isOpen, pushed.neighbors, pushed.memory⟩
  · exact ⟨rfl, rfl, rfl, rfl, rfl⟩

theorem keeps_ret (c : Cpu) : c.Keeps c.ret := by
  unfold ret
  split <;> exact ⟨rfl, rfl, rfl, rfl, rfl⟩

theorem keeps_followScent (c : Cpu) : c.Keeps c.followScent := by
  unfold followScent
  dsimp only
  split <;> exact ⟨rfl, rfl, rfl, rfl, rfl⟩

end Cpu

/-- A step without a cost runs where the stack lies in the memory, and keeps it there. -/
theorem Instruction.exists_effect {i : Instruction} {c : Cpu} (isLocal : i.op.isLocal = true)
    (fits : c.Fits) : ∃ next, i.effect c = .ok next ∧ next.Fits ∧ c.Keeps next := by
  obtain ⟨op, operands⟩ := i
  cases op with
  | move | dig | chk => cases isLocal
  | nop | lt | rt | swf => exact ⟨_, rfl, ⟨fits.stack, fits.memory⟩, rfl, rfl, rfl, rfl, rfl⟩
  | srt => exact ⟨_, rfl, Source.fits_followScent fits, c.keeps_followScent⟩
  | ret =>
    obtain ⟨lands, inside⟩ := Source.ret_eq fits
    rw [← lands] at inside
    exact ⟨_, rfl, ⟨inside.stack, inside.memory⟩, c.keeps_ret⟩
  | load =>
    cases operands with
    | registerConstant r k => exact ⟨_, rfl, Cpu.fits_setReg fits r _, Cpu.keeps_setReg r _⟩
  | copy | add | sub =>
    cases operands with
    | registerPair source r => exact ⟨_, rfl, Cpu.fits_setReg fits r _, Cpu.keeps_setReg r _⟩
  | inc | dec =>
    cases operands with
    | register r => exact ⟨_, rfl, Cpu.fits_setReg fits r _, Cpu.keeps_setReg r _⟩
  | push =>
    cases operands with
    | register r =>
      obtain ⟨pushed, inside⟩ := Source.push_eq fits (c.reg r)
      exact ⟨_, pushed, inside, c.keeps_push _⟩
  | pop =>
    cases operands with
    | register r =>
      obtain ⟨popped, inside⟩ := Source.pop_eq fits r
      exact ⟨_, popped, inside, c.keeps_pop r⟩
  | jmp =>
    cases operands with
    | target step => exact ⟨_, rfl, ⟨fits.stack, fits.memory⟩, rfl, rfl, rfl, rfl, rfl⟩
  | jnz | jnf =>
    cases operands with
    | target step =>
      refine ⟨_, rfl, ?_⟩
      split <;> exact ⟨⟨fits.stack, fits.memory⟩, rfl, rfl, rfl, rfl, rfl⟩
  | call =>
    cases operands with
    | target step =>
      obtain ⟨next, called, lands, inside⟩ :=
        Source.call_eq fits (UInt16.ofNat_toNat : step.toNat.toUInt16 = step)
      have keeps := c.keeps_call step.toNat
      rw [← lands] at inside keeps
      exact ⟨next, called, ⟨inside.stack, inside.memory⟩, keeps.movePending, keeps.digPending,
        keeps.isOpen, keeps.neighbors, keeps.memory⟩
  | swp =>
    cases operands with
    | channelPriority channel priority =>
      exact ⟨_, rfl, ⟨fits.stack, fits.memory⟩, rfl, rfl, rfl, rfl, rfl⟩
  | swn =>
    cases operands with
    | channel channel => exact ⟨_, rfl, ⟨fits.stack, fits.memory⟩, rfl, rfl, rfl, rfl, rfl⟩

theorem Instruction.runLocal_eq {i : Instruction} (isLocal : i.op.isLocal = true) (c : Cpu) :
    i.runLocal c = i.effect c :=
  if_pos isLocal

namespace Routine

theorem isLocal_of_nextLocal? {program : Program} {c : Cpu} {i : Instruction}
    (next : nextLocal? program c = some i) : i.op.isLocal = true :=
  (Option.filter_eq_some_iff.mp next).2

/-- Any number of local steps, up to the budget. -/
theorem exists_runSteps (program : Program) (budget : Nat) {c : Cpu} (fits : c.Fits) :
    ∃ next left, runSteps program budget c = .ok (next, left) ∧ left ≤ budget ∧ next.Fits ∧
      c.Keeps next := by
  induction budget generalizing c with
  | zero => exact ⟨c, 0, rfl, Nat.le_refl 0, fits, .refl c⟩
  | succ budget ih =>
    unfold runSteps
    cases next : nextLocal? program c with
    | none => exact ⟨c, budget + 1, rfl, Nat.le_refl _, fits, .refl c⟩
    | some i =>
      have isLocal := isLocal_of_nextLocal? next
      obtain ⟨after, effect, inside, keeps⟩ := Instruction.exists_effect isLocal fits
      obtain ⟨last, left, runs, few, fits, kept⟩ := ih inside.advance
      rw [← Instruction.runLocal_eq isLocal] at effect
      simp only [effect]
      exact ⟨last, left, runs, Nat.le_succ_of_le few, fits, keeps.advance.trans kept⟩

/-- The local part of a tick does not fault and leaves alone what local steps do. -/
theorem exists_runLocal (r : Routine) {c : Cpu} (fits : c.Fits) (clock budget : Nat) :
    ∃ r' next ran, r.runLocal c clock budget = .ok (r', next, ran) ∧ next.Fits ∧ c.Keeps next := by
  unfold runLocal
  split
  · obtain ⟨next, left, runs, -, inside, keeps⟩ := exists_runSteps r.program budget fits
    simp only [runs]
    exact ⟨_, next, _, rfl, inside, keeps⟩
  · exact ⟨r, c, 0, rfl, fits, .refl c⟩

end Routine

namespace Worker

/-- What the local part of a tick makes of a worker. -/
structure LocallyFrom (w w' : Worker) : Prop where
  id : w'.id = w.id
  fits : w'.cpu.Fits
  keeps : w.cpu.Keeps w'.cpu

theorem exists_runLocal {w : Worker} (fits : w.cpu.Fits) (clock budget : Nat) :
    ∃ w' ran, w.runLocal clock budget = .ok (w', ran) ∧ w.LocallyFrom w' := by
  obtain ⟨r, c, ran, runs, inside, keeps⟩ := w.routine.exists_runLocal fits clock budget
  unfold runLocal
  rw [runs]
  exact ⟨_, _, rfl, rfl, inside, keeps⟩

end Worker

namespace Colony

theorem exists_runLocalAll {ws : List Worker} (fits : ∀ w ∈ ws, w.cpu.Fits) (clock budget : Nat) :
    ∃ ws' ran, runLocalAll clock budget ws = .ok (ws', ran) ∧
      List.Forall₂ Worker.LocallyFrom ws ws' := by
  induction ws with
  | nil => exact ⟨[], 0, rfl, .nil⟩
  | cons w ws ih =>
    obtain ⟨w', ran, runs, first⟩ := Worker.exists_runLocal (fits w List.mem_cons_self) clock budget
    obtain ⟨ws', others, rest, later⟩ := ih fun v member => fits v (List.mem_cons_of_mem w member)
    refine ⟨w' :: ws', ran + others, ?_, .cons first later⟩
    simp only [runLocalAll, runs, rest]

end Colony

end Formicary
