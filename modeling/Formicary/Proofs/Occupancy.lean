import Formicary.Proofs.GridAccess
import Formicary.World.Terrain

/-!
# Who stands where

A grid stores the places of its workers twice: by worker, and by tile. Whatever is done to a grid
the two agree, so no two workers share a tile and no tile keeps a worker that is gone.

Placing, moving and digging are also written as changes of a grid in place, one write after the
other, where a failure leaves whatever has been written before it. They turn out to be the plain
functions: nothing is written before the last test.
-/

namespace Formicary

namespace Grid

/-- What can be done to a grid. -/
inductive Action where
  | setTile (p : Point) (tile : Tile)
  | place (w : WorkerId) (p : Point)
  | placeAnywhere (w : WorkerId)
  | remove (w : WorkerId)
  | move (w : WorkerId) (h : Heading)
  | dig (w : WorkerId) (h : Heading)
  | deposit (w : WorkerId) (channel amount : UInt8)

/-- The grid after an attempt, and whether it succeeded. A failed attempt leaves it as it was. -/
def attempt (g : Grid) (outcome? : Option Grid) : Grid × Bool :=
  (outcome?.getD g, outcome?.isSome)

/-- The grid after an action, and whether the action succeeded. -/
def perform (g : Grid) : Action → Grid × Bool
  | .setTile p tile => (g.setTile p tile, true)
  | .place w p => g.attempt (g.place? w p)
  | .placeAnywhere w => g.attempt ((g.placeAnywhere? w).map Prod.fst)
  | .remove w => (g.remove w, true)
  | .move w h => g.attempt (g.move? w h)
  | .dig w h => g.attempt (g.dig? w h)
  | .deposit w channel amount => (g.deposit w (Channel.ofBits channel) amount, true)

/-- A change of a grid in place. -/
abbrev Change (α : Type) : Type :=
  StateM Grid α

namespace Change

/-- One write. -/
def write (f : Grid → Grid) : Change Unit := fun g =>
  ((), f g)

/-- Takes a worker off the grid: its place is forgotten first, its tile is cleared then. -/
def remove (w : WorkerId) : Change Unit := do
  match (← get).position? w with
  | none => return
  | some p =>
    write fun g => { g with positions := g.positions.erase w }
    write fun g => g.modify p fun c => { c with occupant := none }

/-- Puts a worker on a tile and tells whether it could. The worker is taken from where it was before
it is written to either record. -/
def place (w : WorkerId) (p : Point) : Change Bool := do
  match (← get).cell? p with
  | none => return false
  | some cell =>
    if cell.tile = .clear ∧ cell.occupant = none then
      remove w
      write fun g => g.modify p fun c => { c with occupant := some w }
      write fun g => { g with positions := g.positions.insert w p }
      return true
    else
      return false

/-- Moves a worker one tile ahead and tells whether it could. That the tile is free is tested here
and once more by placing. -/
def move (w : WorkerId) (h : Heading) : Change Bool := do
  match (← get).ahead? w h with
  | none => return false
  | some p => if (← get).isFree p then place w p else return false

/-- Digs away the dirt ahead of a worker and tells whether there was any. -/
def dig (w : WorkerId) (h : Heading) : Change Bool := do
  match (← get).ahead? w h with
  | none => return false
  | some p =>
    if (← get).tile? p = some .dirt then
      write fun g => g.setTile p .clear
      return true
    else
      return false

section Runs

variable {g : Grid}

theorem run_bind {α β : Type} (x : Change α) (f : α → Change β) :
    (x >>= f).run g = (f (x.run g).1).run (x.run g).2 :=
  rfl

theorem run_get : (get : Change Grid).run g = (g, g) :=
  rfl

theorem run_remove (g : Grid) (w : WorkerId) : (remove w).run g = ((), g.remove w) := by
  unfold remove Grid.remove
  rw [run_bind, run_get]
  dsimp only
  cases g.position? w with
  | none => rfl
  | some p => exact congrArg (Prod.mk ()) (modify_with_positions g p _ _)

theorem run_place (g : Grid) (w : WorkerId) (p : Point) :
    (place w p).run g = (g.perform (.place w p)).swap := by
  unfold place Grid.perform Grid.place?
  rw [run_bind, run_get]
  dsimp only
  cases found : g.cell? p with
  | none =>
    rw [if_neg (by simp [Grid.isFree, found])]
    rfl
  | some cell =>
    have tested : g.isFree p = true ↔ cell.tile = .clear ∧ cell.occupant = none := by
      simp [Grid.isFree, found, Cell.isFree]
    dsimp only
    by_cases free : cell.tile = .clear ∧ cell.occupant = none
    · rw [if_pos free, if_pos (tested.mpr free), run_bind, run_remove]
      rw [put_eq]
      rfl
    · rw [if_neg free, if_neg (mt tested.mp free)]
      rfl

/-- What is placed was found to be free before, so the second test never fails. -/
theorem run_move (g : Grid) (w : WorkerId) (h : Heading) :
    (move w h).run g = (g.perform (.move w h)).swap := by
  unfold move
  rw [run_bind, run_get]
  simp only [Grid.perform, Grid.move?, Grid.destination?]
  cases g.ahead? w h with
  | none => rfl
  | some p =>
    dsimp only
    rw [run_bind, run_get]
    by_cases free : g.isFree p = true
    · rw [if_pos free, run_place, Option.filter_some, if_pos free]
      simp [Grid.perform, Grid.place?, free]
    · rw [if_neg free, Option.filter_some, if_neg free]
      rfl

theorem run_dig (g : Grid) (w : WorkerId) (h : Heading) :
    (dig w h).run g = (g.perform (.dig w h)).swap := by
  unfold dig
  rw [run_bind, run_get]
  simp only [Grid.perform, Grid.dig?, Grid.dirtAhead?]
  cases g.ahead? w h with
  | none => rfl
  | some p =>
    dsimp only
    rw [run_bind, run_get]
    by_cases dirt : g.tile? p = some .dirt
    · rw [if_pos dirt, Option.filter_some, if_pos (by simpa using dirt)]
      rfl
    · rw [if_neg dirt, Option.filter_some, if_neg (by simpa using dirt)]
      rfl

end Runs

end Change

/-- The grids that can be made: clear or generated ones and all that actions make of them. -/
inductive Built : Grid → Prop where
  | clear (width height : UInt32) : Built (clear width height)
  | generate (width height : UInt32) (seed : UInt64) (density : Density) :
    Built (generate width height seed density)
  | perform {g : Grid} (built : Built g) (a : Action) : Built (g.perform a).1

/-- The worker on the tile stored at an index. -/
def occupant? (g : Grid) (i : Nat) : Option WorkerId :=
  g.cells[i]?.bind Cell.occupant

/-- The two records of who stands where agree, and everyone stands on the grid. -/
structure Consistent (g : Grid) : Prop where
  inside : ∀ {w : WorkerId} {p : Point}, g.position? w = some p → g.contains p = true
  occupant : ∀ {i : Nat} {w : WorkerId},
    g.occupant? i = some w ↔ ∃ p, g.position? w = some p ∧ g.index? p = some i

section Occupants

variable (g : Grid) (w : WorkerId) (p : Point) (i : Nat)

theorem occupant?_modify {f : Cell → Cell} (same : ∀ c, (f c).occupant = c.occupant) :
    (g.modify p f).occupant? i = g.occupant? i := by
  unfold occupant?
  rw [getElem?_modify]
  split
  · rw [Option.bind_map]
    congr 1
    exact funext same
  · rfl

theorem occupant?_remove :
    (g.remove w).occupant? i =
      if (g.position? w).bind g.index? = some i then none else g.occupant? i := by
  unfold occupant?
  rw [getElem?_remove]
  split
  · cases g.cells[i]? <;> rfl
  · rfl

theorem occupant?_put :
    (g.put w p).occupant? i =
      if g.index? p = some i then some w else (g.remove w).occupant? i := by
  unfold occupant?
  rw [getElem?_put]
  split
  · next found =>
    have stored : i < (g.remove w).cells.size := index?_lt ((index?_remove g w p).trans found)
    rw [Array.getElem?_eq_getElem stored]
    rfl
  · rfl

theorem isFree_iff {g : Grid} {p : Point} :
    g.isFree p = true ↔ ∃ i, g.index? p = some i ∧
      g.cells[i]?.map Cell.tile = some .clear ∧ g.occupant? i = none := by
  unfold isFree cell? occupant?
  cases found : g.index? p with
  | none => simp
  | some i =>
    have stored := index?_lt found
    simp [Array.getElem?_eq_getElem stored, Cell.isFree]

end Occupants

namespace Consistent

variable {g : Grid} {w : WorkerId}

/-- A grid without workers, in either record, is consistent. -/
theorem of_empty (nowhere : ∀ w, g.position? w = none) (nobody : ∀ i, g.occupant? i = none) :
    g.Consistent where
  inside := by
    intro w p found
    rw [nowhere w] at found
    cases found
  occupant := by
    intro i w
    simp [nobody i, nowhere w]

theorem clear (width height : UInt32) : (Grid.clear width height).Consistent := by
  apply of_empty
  · intro w
    exact Std.ExtTreeMap.getElem?_empty
  · intro i
    by_cases stored : i < width.toNat * height.toNat
    · simp [occupant?, Grid.clear, stored, Cell.blank]
    · simp [occupant?, Grid.clear, stored]

theorem generate (width height : UInt32) (seed : UInt64) (density : Density) :
    (Grid.generate width height seed density).Consistent := by
  apply of_empty
  · intro w
    exact Std.ExtTreeMap.getElem?_empty
  · intro i
    simp only [occupant?, Grid.generate, Array.getElem?_map]
    cases (drawTiles density (width.toNat * height.toNat) (RandomStream.ofSeed seed) #[])[i]? with
    | none => rfl
    | some tile => rfl

/-- Changing anything but the occupant of a tile keeps both records. -/
theorem modify (h : g.Consistent) {p : Point} {f : Cell → Cell}
    (same : ∀ c, (f c).occupant = c.occupant) : (g.modify p f).Consistent where
  inside := by
    intro w q found
    rw [position?_modify] at found
    obtain ⟨i, index⟩ := exists_index? (h.inside found)
    exact contains_of_index? ((index?_modify g p f q).trans index)
  occupant := by
    intro i w
    simp only [occupant?_modify g p i same, position?_modify, index?_modify]
    exact h.occupant

/-- Where a worker stands no other worker stands. -/
theorem position?_inj (h : g.Consistent) {a b : WorkerId} {p : Point}
    (ha : g.position? a = some p) (hb : g.position? b = some p) : a = b := by
  obtain ⟨i, index⟩ := exists_index? (h.inside ha)
  have first := h.occupant.mpr ⟨p, ha, index⟩
  have second := h.occupant.mpr ⟨p, hb, index⟩
  exact Option.some.inj (first.symm.trans second)

theorem remove (h : g.Consistent) (w : WorkerId) : (g.remove w).Consistent where
  inside := by
    intro a p found
    rw [position?_remove] at found
    split at found
    · cases found
    · obtain ⟨i, index⟩ := exists_index? (h.inside found)
      exact contains_of_index? ((index?_remove g w p).trans index)
  occupant := by
    intro i a
    simp only [occupant?_remove, position?_remove, index?_remove]
    by_cases same : a = w
    · subst same
      -- The tile a worker leaves is the only one that named it.
      have left : (if (g.position? a).bind g.index? = some i then none else g.occupant? i) ≠
          some a := by
        split
        · nofun
        · next elsewhere =>
          intro stays
          obtain ⟨p, found, index⟩ := h.occupant.mp stays
          rw [found] at elsewhere
          exact elsewhere index
      simp [left]
    · rw [if_neg same]
      split
      · next here =>
        obtain ⟨q, found, index⟩ := Option.bind_eq_some_iff.mp here
        constructor
        · nofun
        · rintro ⟨p, other, also⟩
          rw [index?_inj also index] at other
          exact absurd (h.position?_inj other found) same
      · exact h.occupant

/-- Putting a worker on a free tile keeps both records, wherever it was before. -/
theorem put (h : g.Consistent) {p : Point} (free : g.isFree p = true) :
    (g.put w p).Consistent := by
  obtain ⟨k, index, -, vacant⟩ := isFree_iff.mp free
  have removed := h.remove w
  constructor
  · intro a q found
    have inside : g.contains q = true := by
      rw [position?_put] at found
      split at found
      · cases found
        exact contains_of_index? index
      · exact h.inside found
    obtain ⟨i, index⟩ := exists_index? inside
    exact contains_of_index? ((index?_put g w p q).trans index)
  · intro i a
    have before := removed.occupant (i := i) (w := a)
    simp only [position?_remove, index?_remove] at before
    simp only [occupant?_put, position?_put, index?_put]
    by_cases same : a = w
    · subst same
      by_cases here : g.index? p = some i
      · simp [here]
      · simp only [if_neg here, before]
        simp [here]
    · simp only [if_neg same] at before ⊢
      by_cases here : g.index? p = some i
      · rw [if_pos here, ← h.occupant]
        have : g.occupant? i = none := by
          rw [index] at here
          cases here
          exact vacant
        simp [this, Ne.symm same]
      · rw [if_neg here]
        exact before

theorem attempt (h : g.Consistent) {outcome? : Option Grid}
    (each : ∀ g', outcome? = some g' → g'.Consistent) : (g.attempt outcome?).1.Consistent := by
  cases outcome? with
  | none => exact h
  | some g' => exact each g' rfl

theorem place? (h : g.Consistent) {p : Point} {g' : Grid} (placed : g.place? w p = some g') :
    g'.Consistent := by
  unfold Grid.place? at placed
  split at placed
  · next free =>
    cases placed
    exact h.put free
  · cases placed

/-- Every action keeps both records. -/
theorem perform (h : g.Consistent) (a : Action) : (g.perform a).1.Consistent := by
  cases a with
  | setTile p tile => exact h.modify fun _ => rfl
  | place w p => exact h.attempt fun g' placed => h.place? placed
  | placeAnywhere w =>
    apply h.attempt
    intro g' placed
    obtain ⟨⟨g', p⟩, found, rfl⟩ := Option.map_eq_some_iff.mp placed
    simp only [placeAnywhere?, Option.bind_eq_bind, Option.bind_eq_some_iff] at found
    obtain ⟨q, -, g'', placed, same⟩ := found
    cases same
    exact h.place? placed
  | remove w => exact h.remove w
  | move w heading =>
    apply h.attempt
    intro g' moved
    obtain ⟨p, ahead, rfl⟩ := Option.map_eq_some_iff.mp moved
    exact h.put (Option.filter_eq_some_iff.mp ahead).2
  | dig w heading =>
    apply h.attempt
    intro g' dug
    obtain ⟨p, -, rfl⟩ := Option.map_eq_some_iff.mp dug
    exact h.modify fun _ => rfl
  | deposit w channel amount =>
    show (g.deposit w (Channel.ofBits channel) amount).Consistent
    unfold deposit
    split
    · exact h.modify fun _ => rfl
    · exact h

end Consistent

theorem Built.consistent {g : Grid} (built : g.Built) : g.Consistent := by
  induction built with
  | clear width height => exact .clear width height
  | generate width height seed density => exact .generate width height seed density
  | perform _ a ih => exact ih.perform a

theorem perform_eq_of_failed {g : Grid} {a : Action} (failed : (g.perform a).2 = false) :
    (g.perform a).1 = g := by
  have unchanged {outcome? : Option Grid} (failed : (g.attempt outcome?).2 = false) :
      (g.attempt outcome?).1 = g := by
    cases outcome? with
    | none => rfl
    | some g' => cases failed
  cases a with
  | setTile | remove | deposit => cases failed
  | place | placeAnywhere | move | dig => exact unchanged failed

/-- On every grid that can be made, each worker stands within the sides; the tile at `(x, y)`, which
is stored at `y * width + x`, has a worker exactly when that worker's place is `(x, y)`; so no two
workers share a tile, and no tile keeps a worker that is not there. Placing, moving and digging in
place do what the actions say, and an action that fails leaves the grid as it was. -/
theorem occupancy_of_built {g : Grid} (built : g.Built) :
    (∀ w p, g.position? w = some p →
      0 ≤ p.x ∧ p.x < g.width.toNat ∧ 0 ≤ p.y ∧ p.y < g.height.toNat) ∧
    (∀ (x y : Nat) (w : WorkerId), x < g.width.toNat → y < g.height.toNat →
      (g.cells[y * g.width.toNat + x]?.bind Cell.occupant = some w ↔
        g.position? w = some ⟨x, y⟩)) ∧
    (∀ a b p, g.position? a = some p → g.position? b = some p → a = b) ∧
    (∀ (i : Nat) (w : WorkerId), g.cells[i]?.bind Cell.occupant = some w →
      ∃ p, g.position? w = some p ∧ g.index? p = some i) ∧
    (∀ w p, (Change.place w p).run g = (g.perform (.place w p)).swap) ∧
    (∀ w h, (Change.move w h).run g = (g.perform (.move w h)).swap) ∧
    (∀ w h, (Change.dig w h).run g = (g.perform (.dig w h)).swap) ∧
    ∀ a : Action, (g.perform a).2 = false → (g.perform a).1 = g := by
  have h := built.consistent
  refine ⟨?_, ?_, fun a b p => h.position?_inj, fun i w => h.occupant.mp, Change.run_place g,
    Change.run_move g, Change.run_dig g, fun a => perform_eq_of_failed⟩
  · intro w p found
    obtain ⟨x, y, rfl, right, bottom, -⟩ := exists_coordinates (h.inside found)
    exact ⟨Int.natCast_nonneg x, Int.ofNat_lt.mpr right, Int.natCast_nonneg y,
      Int.ofNat_lt.mpr bottom⟩
  · intro x y w right bottom
    constructor
    · intro stands
      obtain ⟨p, found, index⟩ := h.occupant.mp stands
      rw [← pointAt_of_index? index, pointAt_mul_add right] at found
      exact found
    · intro found
      have inside := h.inside found
      obtain ⟨x', y', same, -, -, stored⟩ := exists_coordinates inside
      obtain ⟨across, down⟩ := Point.mk.inj same
      obtain rfl := Int.ofNat_inj.mp across
      obtain rfl := Int.ofNat_inj.mp down
      exact h.occupant.mpr ⟨⟨x, y⟩, found, index?_eq_some_iff.mpr ⟨inside, stored⟩⟩

/-- A grid where one worker moves out of another's way. -/
def passing : Grid :=
  ((((clear 3 2).perform (.place 7 ⟨0, 0⟩)).1.perform (.move 7 .right)).1.perform
    (.placeAnywhere 8)).1

theorem occupancy_of_built_passing :
    passing.position? 7 = some ⟨1, 0⟩ ∧ passing.position? 8 = some ⟨0, 0⟩ ∧
      passing.cells[0 * 3 + 1]?.bind Cell.occupant = some 7 ∧
      passing.cells[0 * 3 + 0]?.bind Cell.occupant = some 8 ∧
      (passing.perform (.move 8 .right)).2 = false ∧
      (passing.perform (.move 8 .right)).1 = passing ∧
      (Change.move 8 .right).run passing = (false, passing) := by
  have built : passing.Built := (((Built.clear 3 2).perform _).perform _).perform _
  obtain ⟨-, stored, -, -, -, inPlace, -, unchanged⟩ := occupancy_of_built built
  have wide : passing.width.toNat = 3 := by decide +kernel
  have high : passing.height.toNat = 2 := by decide +kernel
  rw [wide, high] at stored
  have seven : passing.position? 7 = some ⟨1, 0⟩ := by decide +kernel
  have eight : passing.position? 8 = some ⟨0, 0⟩ := by decide +kernel
  have blocked : (passing.perform (.move 8 .right)).2 = false := by decide +kernel
  have still := unchanged _ blocked
  have failed : (Change.move 8 .right).run passing = (false, passing) := by
    rw [inPlace 8 .right]
    exact Prod.ext blocked still
  exact ⟨seven, eight, (stored 1 0 7 (by decide) (by decide)).mpr seven,
    (stored 0 0 8 (by decide) (by decide)).mpr eight, blocked, still, failed⟩

end Grid

end Formicary
