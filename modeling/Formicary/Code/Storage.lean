import Formicary.Blob.Basic
import Formicary.Files.Tree

/-!
# Machine code in files

A program is stored in a file as its blob.
-/

namespace Formicary

/-- Why a program cannot be stored in a file or fetched from it. -/
inductive StorageError where
  | blob (error : BlobError)
  | cannotCreate (path : Path) (error : FileError)
  | cannotOpen (path : Path) (error : FileError)
  | cannotRead (error : FileError)
  | cannotLoad (path : Path) (error : BlobError)

/-- What is wrong, followed by what caused it. -/
def StorageError.trail : StorageError → List String
  | blob error => error.trail
  | cannotCreate path error => [s!"Failed to create {path}", error.message]
  | cannotOpen path error => [s!"Failed to open {path}", error.message]
  | cannotRead error => [error.message]
  | cannotLoad path error => s!"Failed to load {path}" :: error.trail

namespace MachineCode

/-- Stores a program in a file. -/
def save (m : MachineCode) (files : FileTree) (path : Path) : Except StorageError FileTree :=
  match m.toBlob with
  | .error error => .error (.blob error)
  | .ok blob => (files.write path blob).mapError (.cannotCreate path)

/-- Fetches a program from a file. A folder can be opened, but not read. -/
def load (files : FileTree) (path : Path) : Except StorageError MachineCode :=
  match files.read path with
  | .error .isFolder => .error (.cannotRead .isFolder)
  | .error error => .error (.cannotOpen path error)
  | .ok blob => (ofBlob blob).mapError (.cannotLoad path)

end MachineCode

end Formicary
