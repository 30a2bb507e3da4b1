import Std.Data.ExtTreeMap
import Formicary.Worker.Scent

/-!
# The grid

The world is a rectangle of tiles in rows. A tile is open, or filled with dirt that can be dug away,
or with rock. Workers stand on tiles, one on each at most; the grid knows the place of every worker
and the worker of every tile.
-/

namespace Formicary

/-- What a tile is made of. -/
inductive Tile where
  /-- Can be entered. -/
  | clear
  /-- Blocks the way and can be dug. -/
  | dirt
  /-- Blocks the way for good. -/
  | rock
  deriving DecidableEq, Repr

/-- The number of a worker. -/
abbrev WorkerId := UInt32

/-- One tile: its material, its scents and the worker on it. -/
structure Cell where
  tile : Tile
  scent : Levels
  occupant : Option WorkerId
  deriving DecidableEq

namespace Cell

/-- An open tile with nothing on it. -/
def blank : Cell := ⟨.clear, noScent, none⟩

/-- Whether a worker can be put on the tile. -/
def isFree (c : Cell) : Bool :=
  c.tile = .clear && c.occupant.isNone

end Cell

/-- A rectangle of tiles, row by row, with the places of the workers on it. -/
structure Grid where
  width : UInt32
  height : UInt32
  cells : Array Cell
  positions : Std.ExtTreeMap WorkerId Point
  size_cells : cells.size = width.toNat * height.toNat

namespace Grid

/-- A grid of open tiles. -/
def clear (width height : UInt32) : Grid where
  width := width
  height := height
  cells := Array.replicate (width.toNat * height.toNat) Cell.blank
  positions := ∅
  size_cells := Array.size_replicate

/-- A side of the grid as a coordinate bound. Coordinates have 32 bits and a sign, so a longer side
than they can count bounds nothing. -/
def bound (side : UInt32) : Int :=
  side.toInt32.toInt

/-- Whether a place is on the grid. -/
def contains (g : Grid) (p : Point) : Bool :=
  0 ≤ p.x && 0 ≤ p.y && p.x < bound g.width && p.y < bound g.height

/-- How many tiles come before a place on the grid, row by row. -/
def offset (g : Grid) (p : Point) : Int :=
  p.y * bound g.width + p.x

/-- Where the tile at a place is stored, if the place is on the grid. -/
def index? (g : Grid) (p : Point) : Option Nat :=
  if g.contains p then some (g.offset p).toNat else none

/-- The tile at a place. -/
def cell? (g : Grid) (p : Point) : Option Cell :=
  (g.index? p).bind fun i => g.cells[i]?

/-- Changes the tile at a place; places off the grid have none to change. -/
def modify (g : Grid) (p : Point) (f : Cell → Cell) : Grid :=
  match g.index? p with
  | some i => { g with
      cells := g.cells.modify i f
      size_cells := by rw [Array.size_modify]; exact g.size_cells }
  | none => g

/-- What the tile at a place is made of. -/
def tile? (g : Grid) (p : Point) : Option Tile :=
  (g.cell? p).map Cell.tile

/-- The scents of the tile at a place. -/
def scent? (g : Grid) (p : Point) : Option Levels :=
  (g.cell? p).map Cell.scent

/-- Makes a tile of a material; whoever stands there stays. -/
def setTile (g : Grid) (p : Point) (tile : Tile) : Grid :=
  g.modify p fun c => { c with tile }

/-- Where a worker stands. -/
def position? (g : Grid) (w : WorkerId) : Option Point :=
  g.positions[w]?

/-- How many workers stand on the grid. -/
def workerCount (g : Grid) : Nat :=
  g.positions.size

/-- Whether a worker can be put at a place. -/
def isFree (g : Grid) (p : Point) : Bool :=
  (g.cell? p).any Cell.isFree

/-- Takes a worker off the grid. -/
def remove (g : Grid) (w : WorkerId) : Grid :=
  match g.position? w with
  | some p =>
    let positions := g.positions.erase w
    { g.modify p fun c => { c with occupant := none } with positions }
  | none => g

/-- Puts a worker on a tile, from wherever it was before. -/
def put (g : Grid) (w : WorkerId) (p : Point) : Grid :=
  let vacated := g.remove w
  let positions := vacated.positions.insert w p
  { vacated.modify p fun c => { c with occupant := some w } with positions }

/-- Puts a worker on a tile, if that tile is free. -/
def place? (g : Grid) (w : WorkerId) (p : Point) : Option Grid :=
  if g.isFree p then some (g.put w p) else none

/-- The place of the tile stored at an index. -/
def pointAt (g : Grid) (i : Nat) : Point :=
  ⟨i % g.width.toNat, i / g.width.toNat⟩

/-- The first free tile, row by row. -/
def firstFree? (g : Grid) : Option Point :=
  (g.cells.findIdx? Cell.isFree).map g.pointAt

/-- Puts a worker on the first free tile and tells where that is. -/
def placeAnywhere? (g : Grid) (w : WorkerId) : Option (Grid × Point) := do
  let p ← g.firstFree?
  let placed ← g.place? w p
  return (placed, p)

/-- The place ahead of a worker that stands on the grid. -/
def ahead? (g : Grid) (w : WorkerId) (h : Heading) : Option Point :=
  (g.position? w).map (·.ahead h)

/-- Where a worker gets to by one step ahead: to the tile ahead, if that tile is free. -/
def destination? (g : Grid) (w : WorkerId) (h : Heading) : Option Point :=
  (g.ahead? w h).filter g.isFree

/-- Moves a worker one tile ahead, if that tile is free. -/
def move? (g : Grid) (w : WorkerId) (h : Heading) : Option Grid :=
  (g.destination? w h).map (g.put w)

/-- The place of the dirt ahead of a worker, if there is dirt. -/
def dirtAhead? (g : Grid) (w : WorkerId) (h : Heading) : Option Point :=
  (g.ahead? w h).filter fun p => g.tile? p = some .dirt

/-- Digs away the dirt ahead of a worker, if there is dirt. -/
def dig? (g : Grid) (w : WorkerId) (h : Heading) : Option Grid :=
  (g.dirtAhead? w h).map fun p => g.setTile p .clear

/-- What a worker senses; one that is not on the grid senses nothing. -/
def surroundings (g : Grid) (w : WorkerId) : Surroundings :=
  match g.position? w with
  | some p =>
    ⟨Around.ofFn fun h => g.isFree (p.ahead h),
      Around.ofFn fun h => (g.scent? (p.ahead h)).getD noScent⟩
  | none => Surroundings.none

/-- The sum of two levels, or the highest level if the sum is higher. -/
def addLevels (a b : UInt8) : UInt8 :=
  (min (a.toNat + b.toNat) 255).toUInt8

/-- Raises the level of one channel. -/
def raiseLevel (levels : Levels) (c : Channel) (amount : UInt8) : Levels :=
  c.set levels (addLevels (levels.get c) amount)

/-- Lays scent on the tile of a worker. -/
def deposit (g : Grid) (w : WorkerId) (c : Channel) (amount : UInt8) : Grid :=
  match g.position? w with
  | some p =>
    g.modify p fun cell => { cell with scent := raiseLevel cell.scent c amount }
  | none => g

end Grid

end Formicary
