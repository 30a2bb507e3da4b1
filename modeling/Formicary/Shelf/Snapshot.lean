import Formicary.Blob.Basic
import Formicary.Files.Tree
import Formicary.Json.Reader
import Formicary.Shelf.Basic

/-!
# Snapshots of a shelf

A snapshot holds every program of a shelf as a blob. It is kept in JSON.
-/

namespace Formicary

/-- A shelf with its programs as blobs. -/
structure Snapshot where
  draft : List UInt8
  pinned : Bool
  archive : List (List UInt8)
  assignments : List (WorkerId × Nat)
  deriving DecidableEq

/-- Why a shelf cannot be stored or restored. -/
inductive SnapshotError where
  | blob (error : BlobError)
  | invalidDraft (error : BlobError)
  | invalidArchived (place : Nat) (error : BlobError)
  | cannotWrite (path : Path) (error : FileError)
  | cannotRead (path : Path) (error : FileError)
  /-- The file is not JSON, or not a snapshot. -/
  | malformed (path : Path)

/-- What is wrong, followed by what caused it. -/
def SnapshotError.trail : SnapshotError → List String
  | blob error => error.trail
  | invalidDraft error => "Invalid draft program" :: error.trail
  | invalidArchived place error => s!"Invalid archived program {place}" :: error.trail
  | cannotWrite path error => [s!"Failed to write {path}", error.message]
  | cannotRead path error => [s!"Failed to read {path}", error.message]
  | malformed path => [s!"Invalid library snapshot {path}"]

namespace Snapshot

/-- A byte string in JSON. -/
def bytesToJson (bytes : List UInt8) : Json :=
  .ofList (fun b => .nat b.toNat) bytes

/-- Reads a byte string. -/
def bytesOfJson? (j : Json) : Option (List UInt8) :=
  j.list? fun b => (b.nat? UInt8.size).map Nat.toUInt8

/-- A snapshot in JSON. -/
def toJson (s : Snapshot) : Json :=
  .record [("draft", bytesToJson s.draft), ("draft_assigned", .bool s.pinned),
    ("archive", .ofList bytesToJson s.archive),
    ("assignments", .ofList (fun (id, place) =>
      .record [("actor", .nat id.toNat), ("program", .nat place)]) s.assignments)]

/-- Reads what one worker was given. -/
def assignmentOfJson? (j : Json) : Option (WorkerId × Nat) := do
  match ← j.fields? ["actor", "program"] false with
  | [some id, some place] => return ((← id.nat? UInt32.size).toUInt32, ← place.nat? UInt64.size)
  | _ => none

/-- Reads a snapshot. -/
def ofJson? (j : Json) : Option Snapshot := do
  match ← j.fields? ["draft", "draft_assigned", "archive", "assignments"] false with
  | [some draft, some pinned, some archive, some assignments] =>
    return ⟨← bytesOfJson? draft, ← pinned.bool?, ← archive.list? bytesOfJson?,
      ← assignments.list? assignmentOfJson?⟩
  | _ => none

/-- A snapshot from a JSON text. -/
def ofText? (text : String) : Option Snapshot :=
  (Json.parse? text).bind ofJson?

end Snapshot

/-- The programs of some blobs, which have the places from `place` on in the archive. -/
def archiveOfBlobs (place : Nat) : List (List UInt8) → Except SnapshotError (List MachineCode)
  | [] => .ok []
  | blob :: blobs => do
    let program ← (MachineCode.ofBlob blob).mapError (.invalidArchived place)
    let others ← archiveOfBlobs (place + 1) blobs
    return program :: others

namespace Shelf

/-- The snapshot of a shelf. -/
def snapshot (s : Shelf) : Except SnapshotError Snapshot := do
  let archive ← (s.archive.toList.mapM MachineCode.toBlob).mapError .blob
  let draft ← s.draft.toBlob.mapError .blob
  return ⟨draft, s.pinned, archive, s.assignments.toList⟩

/-- The shelf that a snapshot was made of. -/
def ofSnapshot (s : Snapshot) : Except SnapshotError Shelf := do
  let draft ← (MachineCode.ofBlob s.draft).mapError .invalidDraft
  let archive ← archiveOfBlobs 0 s.archive
  return ⟨draft, s.pinned, archive.toArray, Std.ExtTreeMap.ofList s.assignments⟩

/-- Writes the snapshot of a shelf to a file. -/
def save (s : Shelf) (files : FileTree) (path : Path) : Except SnapshotError FileTree := do
  let snapshot ← s.snapshot
  (files.write path (Text.toBytes snapshot.toJson.pretty)).mapError (.cannotWrite path)

/-- Restores a shelf from a file. -/
def load (files : FileTree) (path : Path) : Except SnapshotError Shelf := do
  let text ← (files.readText path).mapError (.cannotRead path)
  match Snapshot.ofText? text with
  | some snapshot => ofSnapshot snapshot
  | none => throw (.malformed path)

end Shelf

end Formicary
