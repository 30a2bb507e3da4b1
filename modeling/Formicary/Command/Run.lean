import Formicary.Code.Storage
import Formicary.Code.Watch
import Formicary.Colony.Basic
import Formicary.Colony.SettingsFile
import Formicary.Command.Outcome
import Formicary.Review.Check
import Formicary.Shelf.Snapshot
import Formicary.World.Terrain

/-!
# The command that runs a program

It generates a grid, gives the same program to a number of workers on it, runs some ticks and prints
a table of the workers. The program may be replaced between ticks when its file is watched.
-/

namespace Formicary

open Text

/-- What to run, and how. -/
structure RunOptions where
  /-- The file of the program; empty until it is given. -/
  program : Path
  workers : Nat
  ticks : Nat
  width : Nat
  height : Nat
  seed : Nat
  density : Binary64
  settings : Option Path
  threads : Option Nat
  watch : Bool
  /-- How long to pause after each tick, in milliseconds. -/
  tickPause : Nat
  /-- Where to write the snapshot of the shelf at the end. -/
  shelf : Option Path

namespace RunOptions

/-- The options when none are given. -/
def standard : RunOptions where
  program := ""
  workers := 8
  ticks := 100
  width := 32
  height := 32
  seed := 1
  density := .finite false 1 (-2)
  settings := none
  threads := none
  watch := false
  tickPause := 0
  shelf := none

/-- A count of 32 bits; zero may have any sign. -/
def readCount? (text : String) : Option Nat :=
  (readBetween? 0 0xFFFFFFFF text.toList).map Int.toNat

/-- A count of 64 bits. -/
def readLongCount? (text : String) : Option Nat :=
  readBelow? UInt64.size text.toList

/-- A path; it must not be empty. -/
def readPath? (text : String) : Option Path :=
  if text = "" then none else some text

/-- How the options are given. -/
def reader : ArgumentReader RunOptions where
  forms :=
    (["workers", "ticks", "width", "height", "seed", "density", "config", "threads", "tick-ms",
      "save-library"].map fun name => ⟨name, none, true⟩) ++ [⟨"watch", none, false⟩]
  accept o
    | .value "workers" text => (readCount? text).map fun n => { o with workers := n }
    | .value "ticks" text => (readLongCount? text).map fun n => { o with ticks := n }
    | .value "width" text => (readCount? text).map fun n => { o with width := n }
    | .value "height" text => (readCount? text).map fun n => { o with height := n }
    | .value "seed" text => (readLongCount? text).map fun n => { o with seed := n }
    | .value "density" text => (Binary64.read? text.toList).map fun x => { o with density := x }
    | .value "config" text => (readPath? text).map fun p => { o with settings := some p }
    | .value "threads" text => (readLongCount? text).map fun n => { o with threads := some n }
    | .value "tick-ms" text => (readLongCount? text).map fun n => { o with tickPause := n }
    | .value "save-library" text => (readPath? text).map fun p => { o with shelf := some p }
    | .flag "watch" => some { o with watch := true }
    | .operand text =>
      if o.program = "" then (readPath? text).map fun p => { o with program := p } else none
    | _ => none

/-- Reads the arguments; the program has to be given. -/
def ofArguments (args : List String) : Except Refusal RunOptions := do
  let o ← reader.read standard args
  if o.program = "" then throw .misuse
  return o

end RunOptions

/-- Why a run ends early. -/
inductive RunError where
  | settingsFile (error : SettingsFileError)
  | storage (error : StorageError)
  | code (error : CodeError)
  | cannotRead (path : Path) (error : FileError)
  | cannotAssemble (path : Path) (error : AssemblyError)
  | noInstructions (path : Path)
  | densityNotFinite
  | settings (error : SettingsError)
  | colony (error : ColonyError)
  | noFreeTile (id : WorkerId)
  | shelf (error : ShelfError)
  | watch (error : WatchError)
  | assembly (error : AssemblyError)
  | snapshot (error : SnapshotError)
  | fault (cause : Fault)

namespace RunError

/-- What is wrong, followed by what caused it. -/
def trail : RunError → List String
  | settingsFile error => error.trail
  | storage error => error.trail
  | code error => [error.message]
  | cannotRead path error => [s!"Failed to read {path}", error.message]
  | cannotAssemble path error => [s!"Failed to assemble {path}", error.message]
  | noInstructions path => [s!"{path} has no instructions"]
  | densityNotFinite => ["--density must be a number between 0 and 1"]
  | settings error => error.trail
  | colony error => [error.message]
  | noFreeTile id => [s!"No free tile left for worker {id.show}"]
  | shelf error => [error.message]
  | watch error => error.trail
  | assembly error => [error.message]
  | snapshot error => error.trail
  | fault cause => [cause.message]

end RunError

/-- The lines of a program file: those of its text, or the listing of stored machine code. -/
def programLines (files : FileTree) (path : Path) : Except RunError (List String) :=
  if path.extension? = some blobExtension then do
    let m ← (MachineCode.load files path).mapError .storage
    m.listing.mapError .code
  else
    match files.readText path with
    | .error error => .error (.cannotRead path error)
    | .ok text => .ok (lines text)

/-- A run that is under way. -/
structure Run where
  colony : Colony
  shelf : Shelf
  watch : Option Watch
  localSteps : Nat
  worldSteps : Nat

namespace Run

/-- The settings of a run. -/
def settingsOf (o : RunOptions) (files : FileTree) : Except SettingsFileError Settings := do
  let settings ←
    match o.settings with
    | some path => Settings.load files path
    | none => pure Settings.standard
  return { settings with workerThreads := o.threads.getD settings.workerThreads }

/-- The shelf with the program of a run as its draft. -/
def shelfOf (o : RunOptions) (files : FileTree) : Except RunError Shelf := do
  let lines ← programLines files o.program
  match Shelf.empty.edit lines with
  | (_, some error) => throw (.cannotAssemble o.program error)
  | (shelf, none) =>
    if shelf.hasCode then return shelf else throw (.noInstructions o.program)

/-- Adds workers with the draft as their program, each on the first free tile. -/
def populate : (count : Nat) → Colony → Shelf → Except RunError (Colony × Shelf)
  | 0, colony, shelf => .ok (colony, shelf)
  | count + 1, colony, shelf =>
    match colony.spawn shelf.draft with
    | .error error => .error (.colony error)
    | .ok (colony, id) =>
      match colony.grid.placeAnywhere? id with
      | none => .error (.noFreeTile id)
      | some (grid, _) =>
        match shelf.assign id with
        | .error error => .error (.shelf error)
        | .ok shelf => populate count { colony with grid } shelf

/-- Gets everything ready for the first tick. -/
def start (o : RunOptions) (files : FileTree) : Except RunError Run := do
  let settings ← (settingsOf o files).mapError .settingsFile
  let shelf ← shelfOf o files
  if !o.density.isFinite then throw .densityNotFinite
  let grid := Grid.generate o.width.toUInt32 o.height.toUInt32 o.seed.toUInt64
    (Density.ofBinary64 o.density)
  let colony ← (Colony.new grid settings).mapError .settings
  let (colony, shelf) ← populate o.workers colony shelf
  let watch ←
    if o.watch then (Watch.start files o.program Watch.usualDebounce).map some |>.mapError .watch
    else pure none
  return ⟨colony, shelf, watch, 0, 0⟩

/-- Gives a new program to all workers. A program without instructions is ignored. -/
def replaceProgram (r : Run) (m : MachineCode) : Except RunError Run :=
  if m.isEmpty then .ok r
  else do
    let lines ← m.listing.mapError .code
    match r.shelf.edit lines with
    | (_, some error) => throw (.assembly error)
    | (shelf, none) =>
      let colony ← (r.colony.reloadAll shelf.draft).mapError .colony
      let shelf ←
        (colony.workers.foldlM (fun (shelf : Shelf) w => shelf.assign w.id) shelf).mapError .shelf
      return { r with colony, shelf }

/-- Takes in a change of the program, if its file is watched and was changed. -/
def refresh (r : Run) (files : FileTree) (now : Nat) : Except RunError Run :=
  match r.watch with
  | none => .ok r
  | some watch =>
    match watch.poll files now with
    | (_, .error error) => .error (.watch error)
    | (watch, .ok none) => .ok { r with watch := some watch }
    | (watch, .ok (some program)) => { r with watch := some watch }.replaceProgram program

/-- Runs one tick. -/
def tick (r : Run) : Except RunError Run :=
  match r.colony.tick with
  | .error fault => .error (.fault fault)
  | .ok (colony, stats) =>
    .ok { r with
      colony
      localSteps := r.localSteps + stats.localSteps
      worldSteps := r.worldSteps + stats.worldSteps }

/-- Runs ticks while no file changes. -/
def ticks : (count : Nat) → Run → Except RunError Run
  | 0, r => .ok r
  | count + 1, r =>
    match r.tick with
    | .error error => .error error
    | .ok r => ticks count r

/-- One line of the table of workers. -/
def tableLine (id position heading a b pc flags : String) : String :=
  " ".intercalate [alignRight 5 id, alignRight 9 position, alignRight 6 heading, alignRight 10 a,
    alignRight 10 b, alignRight 5 pc, flags]

/-- The line of the table about a worker. -/
def workerLine (g : Grid) (w : Worker) : String :=
  let position :=
    match g.position? w.id with
    | some p => s!"{p.x},{p.y}"
    | none => "-"
  let flags := (if w.cpu.zero then "Z" else "-") ++ (if w.cpu.failed then "F" else "-")
  tableLine w.id.show position w.cpu.heading.name (toString w.cpu.a.toNat)
    (toString w.cpu.b.toNat) (toString w.cpu.pc.toNat) flags

/-- What is printed at the end of a run. -/
def report (r : Run) : List String :=
  s!"{r.colony.clock} ticks: {r.localSteps} local steps, {r.worldSteps} world steps" ::
    tableLine "actor" "position" "facing" "A" "B" "pc" "flags" ::
      r.colony.workers.map (workerLine r.colony.grid)

/-- Ends a run: prints the report and writes the snapshot of the shelf. -/
def finish (r : Run) (o : RunOptions) (files : FileTree) : Outcome :=
  let prints := r.report.map Print.out
  match o.shelf with
  | none => ⟨0, prints, files⟩
  | some path =>
    match r.shelf.save files path with
    | .ok files => ⟨0, prints, files⟩
    | .error error => .failure prints (RunError.snapshot error).trail files

end Run

/-- Runs the command while no file changes. -/
def RunOptions.perform (o : RunOptions) (files : FileTree) : Outcome :=
  match (Run.start o files).bind (Run.ticks o.ticks) with
  | .ok run => run.finish o files
  | .error error => .failure [] error.trail files

/-- The command that runs a program. -/
def runCommand (args : List String) (files : FileTree) : Outcome :=
  match RunOptions.ofArguments args with
  | .ok o => o.perform files
  | .error refusal => .refused refusal files

end Formicary
