import Formicary.Colony.Settings
import Formicary.Files.Tree

/-!
# Settings in files

A file of settings holds them in JSON.
-/

namespace Formicary

/-- Why a file gives no settings. -/
inductive SettingsFileError where
  | cannotRead (path : Path) (error : FileError)
  | invalid (path : Path) (error : SettingsError)

/-- What is wrong, followed by what caused it. -/
def SettingsFileError.trail : SettingsFileError → List String
  | cannotRead path error => [s!"Failed to read config {path}", error.message]
  | invalid path error => s!"Invalid config {path}" :: error.trail

/-- The settings in a file. -/
def Settings.load (files : FileTree) (path : Path) : Except SettingsFileError Settings :=
  match files.readText path with
  | .error error => .error (.cannotRead path error)
  | .ok text => (ofText text).mapError (.invalid path)

end Formicary
