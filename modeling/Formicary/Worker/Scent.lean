import Formicary.Instruction.Operand
import Formicary.Worker.Heading

/-!
# Scent

Each tile has a level for each of eight scent channels, and each worker a signed priority for each.
The weight of a tile is the sum of its levels times the priorities. A worker that follows scents
turns to the heaviest neighbouring tile it can enter, and prefers to go on as it does.
-/

namespace Formicary

/-- Changes what is kept for one channel. -/
def Channel.set {α : Type} (c : Channel) (values : Vector α 8) (value : α) : Vector α 8 :=
  values.set c.val value c.isLt

/-- The scent levels of a tile. -/
abbrev Levels := Vector UInt8 8

/-- No scent at all. -/
def noScent : Levels :=
  Vector.replicate 8 0

/-- What a worker senses from its tile. -/
structure Surroundings where
  /-- Which neighbouring tiles can be entered. -/
  isOpen : Around Bool
  /-- The scents of the neighbouring tiles. -/
  scents : Around Levels
  deriving DecidableEq

namespace Surroundings

/-- Nothing to enter and nothing to smell. -/
def none : Surroundings :=
  ⟨Around.const false, Around.const noScent⟩

end Surroundings

/-- How a worker reacts to scents. -/
structure Nose where
  priorities : Vector Int8 8
  /-- The channel laid down after each move; only its remainder modulo eight matters. -/
  writeChannel : Option UInt8
  /-- The scents around the worker when it last looked. -/
  neighbors : Around Levels
  /-- The outcome of the last choice. -/
  preferred : Option Heading
  deriving DecidableEq

namespace Nose

/-- A worker that does not care about scents. -/
def initial : Nose :=
  ⟨Vector.replicate 8 0, none, Around.const noScent, none⟩

/-- Sets the priority of a channel. -/
def setPriority (n : Nose) (c : Channel) (priority : Int8) : Nose :=
  { n with priorities := c.set n.priorities priority }

/-- Starts laying scent on a channel, or stops. -/
def setWriteChannel (n : Nose) (c : Option Channel) : Nose :=
  { n with writeChannel := c.map Channel.bits }

/-- How attractive the neighbouring tile along a heading is. -/
def weight (n : Nose) (h : Heading) : Int :=
  (Vector.zipWith (fun level priority => (level.toNat : Int) * priority.toInt)
    (n.neighbors.get h) n.priorities).toList.foldr (· + ·) 0

/-- The better of the best heading so far and another one: that other one only if it is open and
strictly heavier. -/
def better (n : Nose) (isOpen : Around Bool) (best : Option Heading) (h : Heading) :
    Option Heading :=
  if isOpen.get h then
    match best with
    | some b => if n.weight h ≤ n.weight b then some b else some h
    | none => some h
  else best

/-- The best open heading, if there is one: among equals the current one, then the first. -/
def bestHeading? (n : Nose) (isOpen : Around Bool) (current : Heading) : Option Heading :=
  (current :: Heading.all).foldl (n.better isOpen) none

/-- Chooses the best open heading and remembers it. -/
def choose (n : Nose) (isOpen : Around Bool) (current : Heading) : Nose :=
  { n with preferred := n.bestHeading? isOpen current }

end Nose

end Formicary
