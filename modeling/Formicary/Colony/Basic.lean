import Formicary.Colony.Settings
import Formicary.Colony.Worker

/-!
# Colonies

A colony is a grid and its workers. A tick has four parts: all workers are made ready, each runs its
local steps, all wait for each other, and then they take their turns in the world in the order of
their numbers. Local steps see only their own worker, so only the order of the turns matters.
-/

namespace Formicary

/-- Where a colony is within a tick. -/
inductive Phase where
  | idle
  | ready
  | localDone
  | awaited
  deriving DecidableEq, Repr

/-- What a tick did. -/
structure TickStats where
  clock : Nat
  localSteps : Nat
  worldSteps : Nat
  deriving DecidableEq, Repr

/-- A grid and the workers on it. -/
structure Colony where
  grid : Grid
  workers : List Worker
  clock : Nat
  nextId : WorkerId
  settings : Settings
  phase : Phase
  /-- The local steps run in this tick. -/
  localSteps : Nat

/-- Why a worker does not get a program. -/
inductive ColonyError where
  | code (error : CodeError)
  | unknownWorker (id : WorkerId)
  deriving DecidableEq

/-- What went wrong. -/
def ColonyError.message : ColonyError → String
  | code error => s!"Code error: {error.message}"
  | unknownWorker id => s!"Unknown actor: {id.toNat}"

namespace Colony

/-- A colony without workers. -/
def new (grid : Grid) (settings : Settings) : Except SettingsError Colony :=
  settings.validate.map fun settings => ⟨grid, [], 0, 0, settings, .idle, 0⟩

/-- The worker with a number. -/
def worker? (c : Colony) (id : WorkerId) : Option Worker :=
  c.workers.find? (·.id = id)

/-- Changes the worker with a number, the first one if there are several. -/
def modifyWorker (c : Colony) (id : WorkerId) (f : Worker → Worker) : Colony :=
  { c with workers := c.workers.modify (c.workers.findIdx (·.id = id)) f }

/-- Adds a worker with a program. It stands nowhere yet. -/
def spawn (c : Colony) (code : MachineCode) : Except ColonyError (Colony × WorkerId) :=
  match code.compile with
  | .error error => .error (.code error)
  | .ok program =>
    .ok ({ c with
      workers := c.workers ++ [Worker.new c.nextId code program]
      nextId := c.nextId + 1 }, c.nextId)

/-- Removes a worker from the colony and from the grid. -/
def despawn (c : Colony) (id : WorkerId) : Option (Colony × Worker) :=
  (c.worker? id).map fun w =>
    ({ c with grid := c.grid.remove id, workers := c.workers.eraseP (·.id = id) }, w)

/-- Gives a worker another program. -/
def assign (c : Colony) (id : WorkerId) (code : MachineCode) : Except ColonyError Colony :=
  match code.compile with
  | .error error => .error (.code error)
  | .ok program =>
    if (c.worker? id).isSome then .ok (c.modifyWorker id (·.load code program))
    else .error (.unknownWorker id)

/-- Gives every worker the same new program. Without workers nothing can go wrong. -/
def reloadAll (c : Colony) (code : MachineCode) : Except ColonyError Colony :=
  if c.workers.isEmpty then .ok c
  else
    match code.compile with
    | .error error => .error (.code error)
    | .ok program => .ok { c with workers := c.workers.map (·.load code program) }

/-- Starts a tick: makes all workers ready. -/
def reset (c : Colony) : Colony :=
  { c with workers := c.workers.map Worker.reset, phase := .ready, localSteps := 0 }

/-- Lets workers run their local steps, one after the other. Gives them and how many steps ran. -/
def runLocalAll (clock budget : Nat) : List Worker → Except Fault (List Worker × Nat)
  | [] => .ok ([], 0)
  | w :: ws =>
    match w.runLocal clock budget with
    | .error fault => .error fault
    | .ok (w, ran) =>
      match runLocalAll clock budget ws with
      | .error fault => .error fault
      | .ok (ws, others) => .ok (w :: ws, ran + others)

/-- The local part of a tick. -/
def runLocal (c : Colony) : Except Fault Colony :=
  if c.phase = .ready then
    (runLocalAll c.clock c.settings.maxStepsPerTick c.workers).map fun (workers, ran) =>
      { c with workers, phase := .localDone, localSteps := ran }
  else .error .partsOutOfOrder

/-- Waits until all workers are done with their local steps. -/
def await (c : Colony) : Except Fault Colony :=
  if c.phase = .localDone then .ok { c with phase := .awaited } else .error .partsOutOfOrder

/-- Lets workers take their turns, one after the other. Gives them, the grid and how many of them
ran a step. -/
def takeTurns (deposit : UInt8) : Grid → List Worker → Except Fault (Grid × List Worker × Nat)
  | g, [] => .ok (g, [], 0)
  | g, w :: ws =>
    match w.takeTurn g deposit with
    | .error fault => .error fault
    | .ok (w, g, cost) =>
      match takeTurns deposit g ws with
      | .error fault => .error fault
      | .ok (g, ws, others) => .ok (g, w :: ws, (if cost.isSome then 1 else 0) + others)

/-- The world part of a tick, which ends it. -/
def runWorld (c : Colony) : Except Fault (Colony × TickStats) :=
  if c.phase = .awaited then
    (takeTurns c.settings.scentDeposit c.grid c.workers).map fun (grid, workers, worldSteps) =>
      ({ c with grid, workers, clock := c.clock + 1, phase := .idle },
        ⟨c.clock, c.localSteps, worldSteps⟩)
  else .error .partsOutOfOrder

/-- One whole tick. -/
def tick (c : Colony) : Except Fault (Colony × TickStats) := do
  let c ← c.reset.runLocal
  let c ← c.await
  c.runWorld

/-- Adds ticks to a colony and what they did to a total. -/
def runTicks : (ticks : Nat) → Colony → TickStats → Except Fault (Colony × TickStats)
  | 0, c, total => .ok (c, total)
  | ticks + 1, c, total =>
    match c.tick with
    | .error fault => .error fault
    | .ok (c, stats) =>
      runTicks ticks c { total with
        localSteps := total.localSteps + stats.localSteps
        worldSteps := total.worldSteps + stats.worldSteps }

/-- Runs some ticks and adds up what they did. -/
def run (c : Colony) (ticks : Nat) : Except Fault (Colony × TickStats) :=
  runTicks ticks c ⟨c.clock, 0, 0⟩

end Colony

end Formicary
