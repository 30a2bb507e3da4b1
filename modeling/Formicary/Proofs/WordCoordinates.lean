import Mathlib.Data.Set.Function
import Formicary.Proofs.FirstFree
import Formicary.Proofs.ScentChoice

/-!
# Coordinates in words

Coordinates may be kept in words of 32 bits with a sign, and where a tile is stored may be computed
in such words. The last tile has the largest index, so no step of this leaves the range of the words
exactly when there are at most 2³¹ tiles. Then each tile has an index of its own, and every index
below the number of tiles belongs to one. The places next to one on the grid are always in range.
-/

namespace Formicary

theorem word32?_eq_some_iff {value : Int} {word : Int32} :
    word32? value = some word ↔ word.toInt = value := by
  unfold word32?
  by_cases range : Int32.minValue.toInt ≤ value ∧ value ≤ Int32.maxValue.toInt
  · rw [if_pos range, Option.some.injEq]
    constructor
    · intro same
      subst same
      exact Int32.toInt_ofInt_of_le range.1 (Int.lt_add_one_of_le range.2)
    · intro same
      subst same
      exact Int32.ofInt_toInt word
  · rw [if_neg range]
    constructor
    · intro impossible
      cases impossible
    · intro same
      subst same
      exact absurd ⟨word.minValue_le_toInt, word.toInt_le⟩ range

/-- A place whose coordinates are words of 32 bits. -/
structure Point32 where
  x : Int32
  y : Int32

namespace Point32

/-- The place itself. -/
def toPoint (p : Point32) : Point :=
  ⟨p.x.toInt, p.y.toInt⟩

theorem toPoint_inj {p q : Point32} (same : p.toPoint = q.toPoint) : p = q := by
  obtain ⟨x, y⟩ := p
  obtain ⟨x', y'⟩ := q
  obtain ⟨across, down⟩ := Point.mk.inj same
  exact congrArg₂ mk (Int32.toInt_inj.mp across) (Int32.toInt_inj.mp down)

/-- Coordinates in the range of words make a place. -/
theorem exists_toPoint_eq (x y : Int) (left : -2147483648 ≤ x) (right : x ≤ 2147483647)
    (top : -2147483648 ≤ y) (bottom : y ≤ 2147483647) : ∃ p : Point32, p.toPoint = ⟨x, y⟩ := by
  obtain ⟨across, -, rfl⟩ := exists_word32? x left right
  obtain ⟨down, -, rfl⟩ := exists_word32? y top bottom
  exact ⟨⟨across, down⟩, rfl⟩

/-- The place one step ahead. Gives nothing when a coordinate is out of range. -/
def ahead? (p : Point32) (h : Heading) : Option Point32 := do
  let x ← word32? (p.x.toInt + h.offset.1)
  let y ← word32? (p.y.toInt + h.offset.2)
  return ⟨x, y⟩

theorem ahead?_eq_some_iff {p q : Point32} {h : Heading} :
    p.ahead? h = some q ↔ q.toPoint = p.toPoint.ahead h := by
  obtain ⟨x, y⟩ := q
  simp only [ahead?, Option.bind_eq_bind, Option.bind_eq_some_iff, word32?_eq_some_iff,
    Option.pure_def, Option.some.injEq, mk.injEq, toPoint, Point.ahead, Point.mk.injEq]
  constructor
  · intro computed
    obtain ⟨x', across, y', down, rfl, rfl⟩ := computed
    exact ⟨across, down⟩
  · intro same
    exact ⟨x, same.1, y, same.2, rfl, rfl⟩

end Point32

namespace Grid

/-- How many tiles come before a place on the grid, computed in words of 32 bits. Gives nothing when
the product or the sum is out of range. -/
def offset32? (g : Grid) (p : Point32) : Option Int32 := do
  let rows ← word32? (p.y.toInt * bound g.width)
  word32? (rows.toInt + p.x.toInt)

/-- Where the tile at a place is stored, if the place is on the grid, computed in words of 32 bits.
Gives nothing at all when a step of this is out of range. -/
def index32? (g : Grid) (p : Point32) : Option (Option Nat) :=
  if g.contains p.toPoint then (g.offset32? p).map fun offset => some offset.toInt.toNat
  else some none

/-- The coordinates are within the sides. -/
def Inside (g : Grid) (p : Point32) : Prop :=
  0 ≤ p.x.toInt ∧ p.x.toInt < g.width.toNat ∧ 0 ≤ p.y.toInt ∧ p.y.toInt < g.height.toNat

section Words

variable {g : Grid} {p : Point32} {q : Point}

theorem bound_of_le {side : UInt32} (small : side.toNat ≤ 2147483647) :
    bound side = side.toNat := by
  rw [bound_eq, if_pos small]

theorem bound_le (side : UInt32) : bound side ≤ 2147483647 :=
  Int32.toInt_le _

/-- Places on the grid have coordinates that are words. -/
theorem exists_toPoint (inside : g.contains q = true) : ∃ p : Point32, p.toPoint = q := by
  obtain ⟨left, top, right, bottom⟩ := contains_iff.mp inside
  have wide := bound_le g.width
  have high := bound_le g.height
  exact Point32.exists_toPoint_eq q.x q.y (by omega) (by omega) (by omega) (by omega)

/-- No step from a place on the grid leads out of the range of words. -/
theorem exists_ahead? (inside : g.contains p.toPoint = true) (h : Heading) :
    ∃ r, p.ahead? h = some r := by
  obtain ⟨left, top, right, bottom⟩ := contains_iff.mp inside
  have wide := bound_le g.width
  have high := bound_le g.height
  have short : -1 ≤ h.offset.1 ∧ h.offset.1 ≤ 1 ∧ -1 ≤ h.offset.2 ∧ h.offset.2 ≤ 1 := by
    cases h <;> decide
  obtain ⟨r, place⟩ := Point32.exists_toPoint_eq (p.toPoint.x + h.offset.1)
    (p.toPoint.y + h.offset.2) (by omega) (by omega) (by omega) (by omega)
  exact ⟨r, Point32.ahead?_eq_some_iff.mpr place⟩

theorem rows_nonneg (inside : g.contains q = true) : 0 ≤ q.y * bound g.width := by
  obtain ⟨left, top, right, -⟩ := contains_iff.mp inside
  exact Int.mul_nonneg top (by omega)

theorem offset_nonneg (inside : g.contains q = true) : 0 ≤ g.offset q :=
  Int.add_nonneg (rows_nonneg inside) (contains_iff.mp inside).1

theorem offset_lt (inside : g.contains q = true) :
    g.offset q < ↑(g.width.toNat * g.height.toNat) := by
  have stored := index?_lt (index?_eq_some_iff.mpr ⟨inside, rfl⟩)
  have nonneg := offset_nonneg inside
  rw [g.size_cells] at stored
  omega

/-- The rows above a place have no more tiles than there are before it, so the product is in range
whenever the sum is. -/
theorem offset32?_eq_some_iff (inside : g.contains p.toPoint = true) {word : Int32} :
    g.offset32? p = some word ↔ word.toInt = g.offset p.toPoint := by
  simp only [offset32?, Option.bind_eq_bind, Option.bind_eq_some_iff, word32?_eq_some_iff]
  constructor
  · intro computed
    obtain ⟨rows, product, sum⟩ := computed
    rw [sum, product]
    rfl
  · intro exact
    have nonneg := rows_nonneg inside
    have left := (contains_iff.mp inside).1
    have small : word.toInt ≤ 2147483647 := word.toInt_le
    rw [exact, offset] at small
    obtain ⟨rows, -, product⟩ :=
      exists_word32? (p.toPoint.y * bound g.width) (by omega) (by omega)
    refine ⟨rows, product, ?_⟩
    rw [exact, product]
    rfl

theorem offset32?_ne_none_iff (inside : g.contains p.toPoint = true) :
    g.offset32? p ≠ none ↔ g.offset p.toPoint ≤ 2147483647 := by
  rw [Option.ne_none_iff_exists']
  constructor
  · intro computed
    obtain ⟨word, found⟩ := computed
    rw [← (offset32?_eq_some_iff inside).mp found]
    exact word.toInt_le
  · intro small
    have nonneg := offset_nonneg inside
    obtain ⟨word, -, exact⟩ := exists_word32? (g.offset p.toPoint) (by omega) small
    exact ⟨word, (offset32?_eq_some_iff inside).mpr exact⟩

theorem exists_cell {i : Nat} (index : g.index? q = some i) :
    ∃ cell, g.cells[i]? = some cell ∧ g.cell? q = some cell := by
  have stored := Array.getElem?_eq_getElem (index?_lt index)
  refine ⟨_, stored, ?_⟩
  rw [cell?, index, Option.bind_some, stored]

/-- With at most 2³¹ tiles, an index that is computed in words is the exact one. -/
theorem index32?_eq (few : g.width.toNat * g.height.toNat ≤ 2147483648) (p : Point32) :
    g.index32? p = some (g.index? p.toPoint) := by
  unfold index32?
  by_cases inside : g.contains p.toPoint = true
  · have less := offset_lt inside
    have computed := (offset32?_ne_none_iff inside).mpr (by omega)
    obtain ⟨word, found⟩ := Option.ne_none_iff_exists'.mp computed
    rw [if_pos inside, found, index?, if_pos inside, Option.map_some,
      (offset32?_eq_some_iff inside).mp found]
  · rw [if_neg inside, index?, if_neg inside]

end Words

section Sides

variable {g : Grid} {p : Point32} (wide : 1 ≤ g.width.toNat ∧ g.width.toNat ≤ 2147483647)
  (high : 1 ≤ g.height.toNat ∧ g.height.toNat ≤ 2147483647)
include wide high

theorem contains_iff_inside : g.contains p.toPoint = true ↔ g.Inside p := by
  rw [contains_iff, bound_of_le wide.2, bound_of_le high.2]
  unfold Inside Point32.toPoint
  dsimp only
  constructor <;> intro inside <;> omega

/-- The last tile comes after all others. -/
theorem exists_last : ∃ p : Point32, g.contains p.toPoint = true ∧
    g.offset p.toPoint = ↑(g.width.toNat * g.height.toNat) - 1 := by
  obtain ⟨last, place⟩ := Point32.exists_toPoint_eq (g.width.toNat - 1) (g.height.toNat - 1)
    (by omega) (by omega) (by omega) (by omega)
  refine ⟨last, ?_, ?_⟩
  · rw [contains_iff, place, bound_of_le wide.2, bound_of_le high.2]
    dsimp only
    omega
  · rw [place, offset, bound_of_le wide.2]
    dsimp only
    rw [Int.sub_mul, Int.one_mul, Int.mul_comm, Int.natCast_mul]
    omega

theorem index32?_ne_none_iff :
    (∀ p, g.Inside p → g.index32? p ≠ none) ↔ g.width.toNat * g.height.toNat ≤ 2147483648 := by
  constructor
  · intro computed
    -- It is enough to look at the last tile, whose index is the largest.
    obtain ⟨last, inside, offset⟩ := exists_last wide high
    have index := computed last ((contains_iff_inside wide high).mp inside)
    rw [index32?, if_pos inside, ne_eq, Option.map_eq_none_iff] at index
    have small := (offset32?_ne_none_iff inside).mp index
    omega
  · intro few p _
    rw [index32?_eq few p]
    exact Option.some_ne_none _

/-- With at most 2³¹ tiles, the tiles are stored one by one at all indices. -/
theorem bijOn_index32? (few : g.width.toNat * g.height.toNat ≤ 2147483648) :
    Set.BijOn g.index32? {p | g.Inside p}
      ((fun i => some (some i)) '' Set.Iio (g.width.toNat * g.height.toNat)) := by
  refine ⟨?_, ?_, ?_⟩
  · intro p inside
    obtain ⟨i, index⟩ := exists_index? ((contains_iff_inside wide high).mpr inside)
    have stored := index?_lt index
    rw [g.size_cells] at stored
    rw [index32?_eq few, index]
    exact ⟨i, stored, rfl⟩
  · intro p inside q also same
    obtain ⟨i, index⟩ := exists_index? ((contains_iff_inside wide high).mpr inside)
    rw [index32?_eq few, index32?_eq few, index] at same
    exact Point32.toPoint_inj (index?_inj index (Option.some.inj same).symm)
  · intro target member
    obtain ⟨i, stored, rfl⟩ := member
    obtain ⟨last, inside, -⟩ := exists_last wide high
    have index := index?_pointAt inside (Nat.lt_of_lt_of_eq stored g.size_cells.symm)
    obtain ⟨p, place⟩ := exists_toPoint (contains_of_index? index)
    rw [← place] at index
    refine ⟨p, (contains_iff_inside wide high).mp (contains_of_index? index), ?_⟩
    rw [index32?_eq few, index]

end Sides

/-- On a grid with sides from 1 to 2³¹ - 1, computing the indices of all tiles in words of 32 bits
leaves their range nowhere exactly when there are at most 2³¹ tiles. Then the index in words is the
exact one; the places on the grid and the indices below the number of tiles correspond one to one;
places off the grid have no index; and every index leads to a stored tile, whose material, scents
and occupant are those of the place. Where a worker stands, the places around it are in range. -/
theorem index_in_words (g : Grid) (wide : 1 ≤ g.width.toNat ∧ g.width.toNat ≤ 2147483647)
    (high : 1 ≤ g.height.toNat ∧ g.height.toNat ≤ 2147483647) :
    ((∀ p, g.Inside p → g.index32? p ≠ none) ↔
      g.width.toNat * g.height.toNat ≤ 2147483648) ∧
    (g.width.toNat * g.height.toNat ≤ 2147483648 →
      (∀ p, g.index32? p = some (g.index? p.toPoint)) ∧
      Set.BijOn g.index32? {p | g.Inside p}
        ((fun i => some (some i)) '' Set.Iio (g.width.toNat * g.height.toNat)) ∧
      (∀ p, ¬g.Inside p → g.index32? p = some none) ∧
      ∀ p i, g.index32? p = some (some i) → ∃ cell, g.cells[i]? = some cell ∧
        g.tile? p.toPoint = some cell.tile ∧ g.scent? p.toPoint = some cell.scent ∧
        g.occupantAt? p.toPoint = cell.occupant) ∧
    (g.Built → ∀ w place, g.position? w = some place → ∃ p : Point32, p.toPoint = place ∧
      ∀ h, ∃ r, p.ahead? h = some r ∧ g.ahead? w h = some r.toPoint ∧
        (g.surroundings w).isOpen.get h = g.isFree r.toPoint ∧
        (g.surroundings w).scents.get h = (g.scent? r.toPoint).getD noScent) := by
  refine ⟨index32?_ne_none_iff wide high, ?_, ?_⟩
  · intro few
    refine ⟨index32?_eq few, bijOn_index32? wide high few, ?_, ?_⟩
    · intro p outside
      rw [index32?, if_neg (mt (contains_iff_inside wide high).mp outside)]
    · intro p i found
      rw [index32?_eq few, Option.some.injEq] at found
      obtain ⟨cell, stored, here⟩ := exists_cell found
      refine ⟨cell, stored, ?_, ?_, ?_⟩
      · rw [tile?, here, Option.map_some]
      · rw [scent?, here, Option.map_some]
      · rw [occupantAt?, here, Option.bind_some]
  · intro built w place stands
    have inside := built.consistent.inside stands
    obtain ⟨p, rfl⟩ := exists_toPoint inside
    refine ⟨p, rfl, ?_⟩
    intro h
    obtain ⟨r, ahead⟩ := exists_ahead? inside h
    have same := Point32.ahead?_eq_some_iff.mp ahead
    refine ⟨r, ahead, ?_, ?_, ?_⟩
    · rw [Grid.ahead?, stands, Option.map_some, same]
    · rw [surroundings, stands, same]
      exact Around.get_ofFn ..
    · rw [surroundings, stands, same]
      exact Around.get_ofFn ..

theorem index_in_words_boundary :
    (∀ p, (clear 65536 32768).Inside p → (clear 65536 32768).index32? p ≠ none) ∧
    (∃ p, (clear 65536 32769).Inside p ∧ (clear 65536 32769).index32? p = none) ∧
    ∃ p : Point32, p.toPoint = ⟨1, 0⟩ ∧
      ∀ h, ∃ r, p.ahead? h = some r ∧ passing.ahead? 7 h = some r.toPoint := by
  obtain ⟨largest, -⟩ := index_in_words (clear 65536 32768) (by decide) (by decide)
  obtain ⟨tooLarge, -⟩ := index_in_words (clear 65536 32769) (by decide) (by decide)
  obtain ⟨-, -, around⟩ := index_in_words passing (by decide +kernel) (by decide +kernel)
  refine ⟨largest.mpr (by decide), ?_, ?_⟩
  · have leaves := mt tooLarge.mp (by decide)
    simpa using leaves
  · have built : passing.Built := (((Built.clear 3 2).perform _).perform _).perform _
    obtain ⟨p, place, ahead⟩ := around built 7 ⟨1, 0⟩ (by decide +kernel)
    refine ⟨p, place, ?_⟩
    intro h
    obtain ⟨r, found, leads, -⟩ := ahead h
    exact ⟨r, found, leads⟩

end Grid

end Formicary
