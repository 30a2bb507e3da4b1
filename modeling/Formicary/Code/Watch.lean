import Formicary.Code.Assembly
import Formicary.Files.Tree

/-!
# Watched programs

A watch follows one program file. Once the file has been left alone for some time after a change, it
is assembled again; a program with a mistake is reported and the last good one kept.
-/

namespace Formicary

/-- An attempt to assemble a watched file. -/
structure ReloadEvent where
  /-- The steps of the new program; none if it was rejected. -/
  stepCount : Nat
  error : Option AssemblyError

/-- A program file that is watched. Times are in milliseconds. -/
structure Watch where
  path : Path
  /-- How long the file has to be left alone. -/
  debounce : Nat
  /-- The last change that was not looked at yet. -/
  changed : Option Nat
  /-- The last good program. -/
  current : Option MachineCode
  lastEvent : Option ReloadEvent

/-- Why a file cannot be watched or read. -/
inductive WatchError where
  | cannotWatch (folder : Path)
  | cannotRead (path : Path) (error : FileError)

/-- What is wrong, followed by what caused it. -/
def WatchError.trail : WatchError → List String
  | cannotWatch folder => [s!"Failed to watch {folder}"]
  | cannotRead path error => [s!"Failed to read {path}", error.message]

namespace Watch

/-- How long a file has to be left alone usually. -/
def usualDebounce : Nat := 100

/-- The folder that is watched for a file. -/
def folderOf (path : Path) : Path :=
  if path.parent = "" then "." else path.parent

/-- Starts to watch a file; its folder has to be there. -/
def start (files : FileTree) (path : Path) (debounce : Nat) : Except WatchError Watch :=
  if (files.at? (folderOf path)).isSome then .ok ⟨path, debounce, none, none, none⟩
  else .error (.cannotWatch (folderOf path))

/-- Notes a change of the file. -/
def touch (w : Watch) (now : Nat) : Watch :=
  { w with changed := some now }

/-- Assembles the file. Gives the new program if there is no mistake in it. A file that cannot be
read changes nothing. -/
def loadNow (w : Watch) (files : FileTree) : Watch × Except WatchError (Option MachineCode) :=
  match files.readText w.path with
  | .error error => (w, .error (.cannotRead w.path error))
  | .ok text =>
    match assembleText text with
    | .ok program =>
      let steps := program.stepCount.toOption.getD 0
      ({ w with current := some program, lastEvent := some ⟨steps, none⟩ }, .ok (some program))
    | .error error => ({ w with lastEvent := some ⟨0, some error⟩ }, .ok none)

/-- Assembles the file if it changed and has been left alone long enough since. Each change is
looked at once. -/
def poll (w : Watch) (files : FileTree) (now : Nat) :
    Watch × Except WatchError (Option MachineCode) :=
  match w.changed with
  | some time =>
    if time + w.debounce ≤ now then { w with changed := none }.loadNow files else (w, .ok none)
  | none => (w, .ok none)

end Watch

end Formicary
