import Formicary.Code.MachineCode
import Formicary.Worker.Step

/-!
# The routine of a worker

A routine is the program a worker follows and its pace. In the local part of a tick a worker runs
steps without a cost until it meets one with a cost, leaves its program or spends its budget. In the
world part it runs at most one step with a cost, and then rests: after a step that costs `n` ticks
it goes on only when the clock is a multiple of `n + 1`.
-/

namespace Formicary

/-- Where a worker is with its program. -/
inductive Progress where
  /-- It has no program. -/
  | idle
  /-- It has not started yet. -/
  | compiled
  /-- It ran local steps in this tick. -/
  | executing
  /-- It waits for a tick when it is due. -/
  | halted
  deriving DecidableEq, Repr

/-- The program of a worker and its pace. -/
structure Routine where
  program : Program
  /-- The worker is due when the clock is a multiple of this. -/
  divisor : Nat
  /-- The local part of this tick is done. -/
  localDone : Bool
  /-- The world part of this tick is done. -/
  worldDone : Bool
  progress : Progress

namespace Routine

/-- No program. -/
def empty : Routine := ⟨#[], 1, false, false, .idle⟩

/-- A new program, to be run from its first step on. -/
def start (program : Program) : Routine :=
  ⟨program, 1, false, false, if program.isEmpty then .idle else .compiled⟩

/-- Whether the worker goes on in the tick at this clock. -/
def isDue (r : Routine) (clock : Nat) : Bool :=
  clock % r.divisor = 0

/-- Opens a new tick. -/
def reset (r : Routine) : Routine :=
  { r with localDone := false, worldDone := false }

/-- The step that the program counter names. -/
def current? (program : Program) (c : Cpu) : Option Instruction :=
  program[c.pc.toNat]?

/-- The step that runs next in the local part: the current one, if it has no cost. -/
def nextLocal? (program : Program) (c : Cpu) : Option Instruction :=
  (current? program c).filter (·.op.isLocal)

/-- Runs local steps, at most as many as the budget allows. Gives the worker and what is left of the
budget. -/
def runSteps (program : Program) : (budget : Nat) → Cpu → Except Fault (Cpu × Nat)
  | 0, c => .ok (c, 0)
  | budget + 1, c =>
    match nextLocal? program c with
    | none => .ok (c, budget + 1)
    | some step =>
      match step.runLocal c with
      | .error fault => .error fault
      | .ok c => runSteps program budget c.advance

/-- Notes progress, unless there is no program. -/
def note (r : Routine) (progress : Progress) : Routine :=
  if r.program.isEmpty then r else { r with progress }

/-- The local part of a tick. Gives the routine, the worker and how many steps ran. -/
def runLocal (r : Routine) (c : Cpu) (clock budget : Nat) :
    Except Fault (Routine × Cpu × Nat) :=
  if r.isDue clock then
    match runSteps r.program budget c with
    | .error fault => .error fault
    | .ok (c, left) =>
      let ran := budget - left
      let r := { r with localDone := true, divisor := 1 }
      .ok (r.note (if 0 < ran then .executing else .halted), c, ran)
  else
    .ok (r, c, 0)

/-- The world part of a tick, with the surroundings of the worker. Gives the routine, the worker and
the cost of the step that ran. -/
def runWorld (r : Routine) (c : Cpu) (s : Surroundings) :
    Except Fault (Routine × Cpu × Option Nat) :=
  if r.localDone && !r.worldDone then
    let r := { r with worldDone := true }.note .halted
    match (current? r.program c).filter (!·.op.isLocal) with
    | none => .ok (r, c, none)
    | some step =>
      match step.run s c with
      | .error fault => .error fault
      | .ok c => .ok ({ r with divisor := step.op.ticks + 1 }, c.advance, some step.op.ticks)
  else
    .ok (r, c, none)

end Routine

end Formicary
