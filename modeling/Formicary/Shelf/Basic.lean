import Std.Data.ExtTreeMap
import Formicary.Code.Assembly
import Formicary.Code.Listing
import Formicary.World.Grid

/-!
# The shelf of programs

The shelf holds one draft and every program that was ever given to a worker. A draft that was given
away is archived when the next one replaces it, so workers keep what they were given; a draft that
nobody got is discarded.
-/

namespace Formicary

/-- The draft, the archive, and who was given what. -/
structure Shelf where
  draft : MachineCode
  /-- Some worker was given the draft. -/
  pinned : Bool
  archive : Array MachineCode
  /-- For each worker the place of its program in the archive. The draft has the next place that
  will be taken. -/
  assignments : Std.ExtTreeMap WorkerId Nat

/-- Why a worker has no program. -/
inductive ShelfError where
  | unknownWorker (id : WorkerId)
  | emptyDraft
  deriving DecidableEq

/-- What is wrong. -/
def ShelfError.message : ShelfError → String
  | unknownWorker id => s!"Unknown actor: {id.toNat}"
  | emptyDraft => "Program library has no program to assign"

namespace Shelf

/-- An empty shelf. -/
def empty : Shelf := ⟨MachineCode.empty, false, #[], ∅⟩

/-- Whether the draft has any instructions. -/
def hasCode (s : Shelf) : Bool :=
  !s.draft.isEmpty

/-- Makes room for another draft. -/
def retireDraft (s : Shelf) : Shelf :=
  if s.pinned then
    { s with draft := MachineCode.empty, pinned := false, archive := s.archive.push s.draft }
  else
    { s with draft := MachineCode.empty }

/-- Replaces the draft by the program of some lines. If they do not assemble, the draft stays
empty. -/
def edit (s : Shelf) (lines : List String) : Shelf × Option AssemblyError :=
  let s := s.retireDraft
  match assemble lines with
  | .ok draft => ({ s with draft }, none)
  | .error error => (s, some error)

/-- Gives the draft to a worker. An empty draft is not given away. -/
def assign (s : Shelf) (id : WorkerId) : Except ShelfError Shelf :=
  if s.hasCode then
    .ok { s with pinned := true, assignments := s.assignments.insert id s.archive.size }
  else
    .error .emptyDraft

/-- The program that a worker was given. -/
def programFor (s : Shelf) (id : WorkerId) : Except ShelfError MachineCode :=
  match s.assignments[id]? with
  | some place => .ok (s.archive.getD place s.draft)
  | none => .error (.unknownWorker id)

/-- Forgets what a worker was given, and tells whether there was anything to forget. -/
def unassign (s : Shelf) (id : WorkerId) : Shelf × Bool :=
  ({ s with assignments := s.assignments.erase id }, s.assignments.contains id)

end Shelf

end Formicary
