import Formicary.Command.Run
import Formicary.Command.Validate

/-!
# The program

The first argument names a command, the others are its arguments. Everything here only moves files
and lines between the system and the commands.
-/

namespace Formicary.Program

/-- Adds what the system has at a path, and everything below it. -/
partial def fetch (files : FileTree) (path : Path) : IO FileTree := do
  match ← (IO.FS.realPath path).toBaseIO with
  | .error _ => return files
  | .ok place =>
    if ← place.isDir then
      let mut files := files.add path .folder
      for entry in ← place.readDir do
        files ← fetch files (path.join entry.fileName)
      return files
    else
      return files.add path (.file (← IO.FS.readBinFile path).data.toList)

/-- Adds the folder that a file is to be written to. -/
def fetchFolder (files : FileTree) (path : Path) : IO FileTree := do
  match ← (IO.FS.realPath (Watch.folderOf path)).toBaseIO with
  | .error _ => return files
  | .ok place =>
    if ← place.isDir then return files.add (Watch.folderOf path) .folder else return files

/-- No files yet but the current folder of the process, where paths start. -/
def noFiles : IO FileTree := do
  let here := FileTree.empty.locate (← IO.currentDir).toString
  return { FileTree.empty with here }.add "." .folder

/-- Prints what a command printed and gives its code. -/
def conclude (o : Outcome) : IO UInt32 := do
  for print in o.prints do
    match print with
    | .out line => IO.println line
    | .err line => IO.eprintln line
  return o.code.toUInt32

/-- Runs the command that checks programs. -/
def validate (args : List String) : IO UInt32 := do
  match ValidateOptions.ofArguments args with
  | .error refusal => conclude (.refused refusal (← noFiles))
  | .ok o =>
    let files ← o.paths.foldlM fetch (← noFiles)
    conclude (o.perform files)

/-- Runs ticks one by one, with the pauses between them, and looks for changes of the program. -/
partial def ticks (o : RunOptions) (files : FileTree) (count : Nat) (r : Run) :
    IO (Except RunError Run) := do
  if count = 0 then
    return .ok r
  let fresh ← if o.watch then fetch files o.program else pure files
  let now ← IO.monoMsNow
  let changed := (fresh.read o.program).toOption != (files.read o.program).toOption
  let r := if changed then { r with watch := r.watch.map (·.touch now) } else r
  match (r.refresh fresh now).bind Run.tick with
  | .error error => return .error error
  | .ok r =>
    IO.sleep o.tickPause.toUInt32
    ticks o fresh (count - 1) r

/-- Runs the command that runs a program. -/
def run (args : List String) : IO UInt32 := do
  match RunOptions.ofArguments args with
  | .error refusal => conclude (.refused refusal (← noFiles))
  | .ok o =>
    let files ← (o.program :: o.settings.toList ++ o.shelf.toList).foldlM fetch (← noFiles)
    let files ← o.shelf.toList.foldlM fetchFolder files
    let done ←
      match Run.start o files with
      | .error error => pure (.error error)
      | .ok r => ticks o files o.ticks r
    match done with
    | .error error => conclude (.failure [] error.trail files)
    | .ok r =>
      let outcome := r.finish o files
      if outcome.code = 0 then
        for path in o.shelf do
          for content in (outcome.files.read path).toOption do
            IO.FS.writeBinFile path ⟨content.toArray⟩
      conclude outcome

end Formicary.Program

/-- The program: a command and its arguments. -/
def main (args : List String) : IO UInt32 :=
  match args with
  | "run" :: args => Formicary.Program.run args
  | "validate" :: args => Formicary.Program.validate args
  | _ => return 2
