import Formicary.Colony.Routine
import Formicary.World.Grid

/-!
# Workers

A worker has a number, a state, a routine and the machine code its program came from. At the end of
its turn it settles what it asked for, a move before a dig, and looks around.
-/

namespace Formicary

/-- How the number of a worker is written. -/
def WorkerId.show (w : WorkerId) : String :=
  s!"#{w.toNat}"

/-- One worker of a colony. -/
structure Worker where
  id : WorkerId
  cpu : Cpu
  routine : Routine
  code : MachineCode

namespace Worker

/-- A new worker with a program. -/
def new (id : WorkerId) (code : MachineCode) (program : Program) : Worker :=
  ⟨id, Cpu.initial, Routine.start program, code⟩

/-- Gives a worker another program: its stack and its requests are dropped, the rest of its state is
kept. -/
def load (w : Worker) (code : MachineCode) (program : Program) : Worker :=
  { w with
    cpu := { w.cpu.rewind with bp := 0, sp := 0, movePending := false, digPending := false }
    routine := Routine.start program
    code }

/-- Opens a new tick. -/
def reset (w : Worker) : Worker :=
  { w with routine := w.routine.reset }

/-- The local part of a tick. Gives the worker and how many steps it ran. -/
def runLocal (w : Worker) (clock budget : Nat) : Except Fault (Worker × Nat) :=
  (w.routine.runLocal w.cpu clock budget).map fun (routine, cpu, ran) =>
    ({ w with cpu, routine }, ran)

/-- The step of the world part of a tick. Gives the worker and the cost of its step. -/
def runWorld (w : Worker) (g : Grid) : Except Fault (Worker × Option Nat) :=
  (w.routine.runWorld w.cpu (g.surroundings w.id)).map fun (routine, cpu, cost) =>
    ({ w with cpu, routine }, cost)

/-- Lays scent after a move, if the worker lays any. -/
def layScent (w : Worker) (g : Grid) (amount : UInt8) : Grid :=
  match w.cpu.nose.writeChannel with
  | some bits => g.deposit w.id (Channel.ofBits bits) amount
  | none => g

/-- Settles a request to move. -/
def settleMove (w : Worker) (g : Grid) (deposit : UInt8) : Worker × Grid :=
  if w.cpu.movePending then
    match g.destination? w.id w.cpu.heading with
    | some p =>
      ({ w with cpu := { w.cpu with movePending := false, failed := false } },
        w.layScent (g.put w.id p) deposit)
    | none => ({ w with cpu := { w.cpu with movePending := false, failed := true } }, g)
  else (w, g)

/-- Settles a request to dig. -/
def settleDig (w : Worker) (g : Grid) : Worker × Grid :=
  if w.cpu.digPending then
    match g.dirtAhead? w.id w.cpu.heading with
    | some p =>
      ({ w with cpu := { w.cpu with digPending := false, failed := false } }, g.setTile p .clear)
    | none => ({ w with cpu := { w.cpu with digPending := false, failed := true } }, g)
  else (w, g)

/-- Settles all requests and looks around. -/
def resolve (w : Worker) (g : Grid) (deposit : UInt8) : Worker × Grid :=
  let (w, g) := w.settleMove g deposit
  let (w, g) := w.settleDig g
  ({ w with cpu := w.cpu.observe (g.surroundings w.id) }, g)

/-- A worker's turn in the world part of a tick. Gives the worker, the grid and the cost of the step
it ran. -/
def takeTurn (w : Worker) (g : Grid) (deposit : UInt8) :
    Except Fault (Worker × Grid × Option Nat) :=
  (w.runWorld g).map fun (w, cost) =>
    let (w, g) := w.resolve g deposit
    (w, g, cost)

end Worker

end Formicary
