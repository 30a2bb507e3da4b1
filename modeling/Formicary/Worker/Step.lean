import Formicary.Instruction.Op
import Formicary.Worker.Cpu

/-!
# What a step does

Steps without a cost change only the worker that runs them. Moving and digging are requests that the
worker's turn settles later. Looking ahead is the one step that needs the surroundings.
-/

namespace Formicary

namespace Instruction

/-- What an instruction does to the worker by itself. -/
def effect : Instruction → Cpu → Except Fault Cpu
  | ⟨.nop, _⟩, c => .ok c
  | ⟨.move, _⟩, c => .ok { c with movePending := true }
  | ⟨.load, .registerConstant r value⟩, c => .ok (c.setReg r value)
  | ⟨.copy, .registerPair source destination⟩, c => .ok (c.setReg destination (c.reg source))
  | ⟨.add, .registerPair source destination⟩, c =>
    .ok (c.setReg destination (c.reg destination + c.reg source))
  | ⟨.sub, .registerPair source destination⟩, c =>
    .ok (c.setReg destination (c.reg destination - c.reg source))
  | ⟨.inc, .register r⟩, c => .ok (c.setReg r (c.reg r + 1))
  | ⟨.dec, .register r⟩, c => .ok (c.setReg r (c.reg r - 1))
  | ⟨.jmp, .target step⟩, c => .ok (c.jumpTo step)
  | ⟨.jnz, .target step⟩, c => .ok (if c.zero then c else c.jumpTo step)
  | ⟨.jnf, .target step⟩, c => .ok (if c.failed then c else c.jumpTo step)
  | ⟨.call, .target step⟩, c => c.call step
  | ⟨.ret, _⟩, c => .ok c.ret
  | ⟨.push, .register r⟩, c => c.push (c.reg r)
  | ⟨.pop, .register r⟩, c =>
    c.pop.map fun
      | (c, some value) => c.setReg r value
      | (c, none) => c
  | ⟨.lt, _⟩, c => .ok { c with heading := c.heading.turnLeft }
  | ⟨.rt, _⟩, c => .ok { c with heading := c.heading.turnRight }
  | ⟨.dig, _⟩, c => .ok { c with digPending := true }
  | ⟨.chk, _⟩, c => .ok c
  | ⟨.srt, _⟩, c => .ok c.followScent
  | ⟨.swp, .channelPriority channel priority⟩, c =>
    .ok { c with nose := c.nose.setPriority channel priority }
  | ⟨.swn, .channel channel⟩, c => .ok { c with nose := c.nose.setWriteChannel (some channel) }
  | ⟨.swf, _⟩, c => .ok { c with nose := c.nose.setWriteChannel none }

/-- Runs a step in the local part of a tick, where no step may have a cost. -/
def runLocal (i : Instruction) (c : Cpu) : Except Fault Cpu :=
  if i.op.isLocal then i.effect c else .error .worldStepInLocalPart

/-- Runs any step, with the surroundings at hand. -/
def run (i : Instruction) (s : Surroundings) (c : Cpu) : Except Fault Cpu :=
  if i.op.readsWorld then .ok (c.checkAhead s) else i.effect c

end Instruction

end Formicary
