import Formicary.Number.Binary64
import Formicary.World.Grid
import Formicary.World.Stream

/-!
# Generated terrain

A generated grid has dirt and rock scattered over it. Each tile is filled with the same probability,
and every eighth filled tile is rock on average. The seed decides which tiles those are.
-/

namespace Formicary

/-- How likely a tile is filled. -/
inductive Density where
  /-- Certain, without a draw. -/
  | full
  /-- When a number drawn from 64 bits is below a bound. -/
  | below (threshold : UInt64)
  deriving DecidableEq

namespace Density

/-- The density nearest to a number: numbers below zero count as zero, numbers above one as one, and
what is not finite as zero. -/
def ofBinary64 : Binary64 → Density
  | .finite false mantissa exponent =>
    if 0 ≤ exponent then
      if mantissa = 0 then .below 0 else .full
    else
      let scaled := mantissa * UInt64.size / Nat.pow 2 (-exponent).toNat
      if UInt64.size ≤ scaled then .full else .below scaled.toUInt64
  | _ => .below 0

/-- Decides whether a tile is filled. -/
def fills (d : Density) (s : RandomStream) : Bool × RandomStream :=
  match d with
  | .full => (true, s)
  | .below threshold => let (n, s) := s.draw; (n < threshold, s)

end Density

/-- Decides what a tile is made of. -/
def drawTile (d : Density) (s : RandomStream) : Tile × RandomStream :=
  match d.fills s with
  | (false, s) => (.clear, s)
  | (true, s) =>
    let (n, s) := s.draw
    (if n < 0x2000000000000000 then .rock else .dirt, s)

/-- The materials of `count` tiles, drawn one after the other. -/
def drawTiles (d : Density) : (count : Nat) → RandomStream → Array Tile → Array Tile
  | 0, _, tiles => tiles
  | count + 1, s, tiles =>
    let (tile, s) := drawTile d s
    drawTiles d count s (tiles.push tile)

/-- Every tile drawn is one tile more. -/
theorem size_drawTiles (d : Density) (count : Nat) (s : RandomStream) (tiles : Array Tile) :
    (drawTiles d count s tiles).size = tiles.size + count := by
  induction count generalizing s tiles with
  | zero => rfl
  | succ count ih =>
    rw [drawTiles, ih, Array.size_push]
    omega

namespace Grid

/-- A grid with dirt and rock scattered by a seed. -/
def generate (width height : UInt32) (seed : UInt64) (density : Density) : Grid where
  width := width
  height := height
  cells :=
    (drawTiles density (width.toNat * height.toNat) (RandomStream.ofSeed seed) #[]).map
      fun tile => { Cell.blank with tile }
  positions := ∅
  size_cells := by
    rw [Array.size_map, size_drawTiles, Array.size_empty, Nat.zero_add]

end Grid

end Formicary
