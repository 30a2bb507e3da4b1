import Formicary.Proofs.Occupancy

/-!
# The first free tile

A worker that may stand anywhere is put on the first free tile, row by row. That is what comes of
trying one place after the other: an attempt that fails leaves the grid as it was, the worker
included, so every later attempt meets the grid of the first.
-/

namespace Formicary

/-- A place comes before another one, row by row. -/
def Point.Before (p q : Point) : Prop :=
  p.y < q.y ∨ p.y = q.y ∧ p.x < q.x

theorem Point.Before.asymm {p q : Point} (h : p.Before q) : ¬q.Before p := by
  unfold Before at *
  omega

namespace Grid

variable {g g' : Grid} {w : WorkerId} {p q : Point}

/-- The worker on the tile at a place. -/
def occupantAt? (g : Grid) (p : Point) : Option WorkerId :=
  (g.cell? p).bind Cell.occupant

/-- A tile that is open and has nobody on it. -/
def Vacant (g : Grid) (p : Point) : Prop :=
  g.tile? p = some .clear ∧ g.occupantAt? p = none

/-- A vacant tile that comes before all others, row by row. -/
def FirstVacant (g : Grid) (p : Point) : Prop :=
  g.Vacant p ∧ ∀ q, g.Vacant q → q ≠ p → p.Before q

theorem isFree_iff_vacant : g.isFree p = true ↔ g.Vacant p := by
  unfold isFree Vacant tile? occupantAt?
  cases g.cell? p with
  | none => simp
  | some cell => simp [Cell.isFree]

theorem FirstVacant.unique (hp : g.FirstVacant p) (hq : g.FirstVacant q) : p = q := by
  by_cases same : p = q
  · exact same
  · exact absurd (hq.2 p hp.1 same) (hp.2 q hq.1 (Ne.symm same)).asymm

section Stored

variable {i j : Nat}

theorem pointAt_before (less : i < j) : (g.pointAt i).Before (g.pointAt j) := by
  have rows : i / g.width.toNat ≤ j / g.width.toNat := Nat.div_le_div_right (Nat.le_of_lt less)
  have first := Nat.div_add_mod i g.width.toNat
  have second := Nat.div_add_mod j g.width.toNat
  unfold pointAt Point.Before
  dsimp only
  norm_cast
  -- The quotients are the rows; within one row the remainders decide.
  rcases Nat.lt_or_eq_of_le rows with above | same
  · exact .inl above
  · rw [same] at first
    exact .inr ⟨same, by omega⟩

/-- The sides of a grid with a place on it can be counted, so every tile has its place. -/
theorem index?_pointAt (inside : g.contains p = true) (stored : i < g.cells.size) :
    g.index? (g.pointAt i) = some i := by
  obtain ⟨wide, high⟩ := bounds_of_contains inside
  rw [g.size_cells] at stored
  have across : i % g.width.toNat < g.width.toNat :=
    Nat.mod_lt i (Nat.pos_of_lt_mul_right stored)
  have down : i / g.width.toNat < g.height.toNat := Nat.div_lt_of_lt_mul stored
  rw [index?_eq_some_iff, contains_iff, offset, wide, high, pointAt]
  dsimp only
  rw [← Int.natCast_emod, ← Int.natCast_ediv, ← Int.natCast_mul, ← Int.natCast_add,
    Int.toNat_natCast, Nat.div_add_mod']
  exact ⟨⟨Int.natCast_nonneg _, Int.natCast_nonneg _, Int.ofNat_lt.mpr across,
    Int.ofNat_lt.mpr down⟩, rfl⟩

theorem vacant_pointAt_iff (inside : g.contains p = true) (stored : i < g.cells.size) :
    g.Vacant (g.pointAt i) ↔ g.cells[i].isFree = true := by
  rw [← isFree_iff_vacant, isFree, cell?, index?_pointAt inside stored, Option.bind_some,
    Array.getElem?_eq_getElem stored, Option.any_some]

theorem Vacant.contains (vacant : g.Vacant p) : g.contains p = true := by
  obtain ⟨i, index, -⟩ := isFree_iff.mp (isFree_iff_vacant.mpr vacant)
  exact contains_of_index? index

/-- On a grid with a place on it, the tiles are stored in the order of their places. -/
theorem firstVacant_of_firstFree? (inside : g.contains p = true) (found : g.firstFree? = some q) :
    g.FirstVacant q := by
  obtain ⟨i, first, rfl⟩ := Option.map_eq_some_iff.mp found
  obtain ⟨stored, free, least⟩ := Array.findIdx?_eq_some_iff_getElem.mp first
  refine ⟨(vacant_pointAt_iff inside stored).mpr free, ?_⟩
  intro r vacant different
  obtain ⟨j, index⟩ := exists_index? vacant.contains
  have also := index?_lt index
  rw [← pointAt_of_index? index] at vacant different ⊢
  -- Nothing that is stored before the first free tile is free, so `r` is stored after it.
  have later : ¬j < i := fun less =>
    least j less ((vacant_pointAt_iff inside also).mp vacant)
  have apart : j ≠ i := fun same => different (congrArg g.pointAt same)
  exact pointAt_before (by omega)

theorem exists_firstVacant (vacant : g.Vacant p) :
    ∃ q, g.firstFree? = some q ∧ g.FirstVacant q := by
  obtain ⟨i, index⟩ := exists_index? vacant.contains
  have stored := index?_lt index
  have free : g.cells[i].isFree = true := by
    rw [← vacant_pointAt_iff vacant.contains stored, pointAt_of_index? index]
    exact vacant
  cases first : g.firstFree? with
  | none =>
    have none := Array.findIdx?_eq_none_iff.mp (Option.map_eq_none_iff.mp first)
    rw [none _ (Array.getElem_mem stored)] at free
    cases free
  | some q => exact ⟨q, rfl, firstVacant_of_firstFree? vacant.contains first⟩

theorem placeAnywhere?_eq_some_iff :
    g.placeAnywhere? w = some (g', p) ↔ g.FirstVacant p ∧ g' = g.put w p := by
  simp only [placeAnywhere?, Option.bind_eq_bind, Option.bind_eq_some_iff, place?,
    Option.ite_none_right_eq_some, Option.pure_def, Option.some.injEq, Prod.mk.injEq]
  constructor
  · rintro ⟨q, found, placed, ⟨free, rfl⟩, rfl, rfl⟩
    have inside := (isFree_iff_vacant.mp free).contains
    exact ⟨firstVacant_of_firstFree? inside found, rfl⟩
  · rintro ⟨first, rfl⟩
    obtain ⟨q, found, also⟩ := exists_firstVacant first.1
    rw [also.unique first] at found
    exact ⟨p, found, _, ⟨isFree_iff_vacant.mpr first.1, rfl⟩, rfl, rfl⟩

end Stored

section Search

/-- The places of a grid, row by row. -/
def places (g : Grid) : List Point :=
  (List.range (bound g.height).toNat).flatMap fun y =>
    (List.range (bound g.width).toNat).map fun x => ⟨Int.ofNat x, Int.ofNat y⟩

/-- Tries to put a worker at some places, one after the other, until an attempt succeeds. Each is
made on the grid that the one before it left. -/
def tryPlaces (g : Grid) (w : WorkerId) : List Point → Grid × Option Point
  | [] => (g, none)
  | p :: places =>
    let (after, placed) := g.attempt (g.place? w p)
    if placed then (after, some p) else after.tryPlaces w places

/-- Tries some places in place. -/
def Change.tryPlaces (w : WorkerId) : List Point → Change (Option Point)
  | [] => return none
  | p :: places => do
    if ← place w p then return some p else tryPlaces w places

/-- Puts a worker anywhere in place. -/
def Change.placeAnywhere (w : WorkerId) : Change (Option Point) := do
  tryPlaces w (← get).places

theorem tryPlaces_cons (places : List Point) :
    g.tryPlaces w (p :: places) =
      if (g.perform (.place w p)).2 then ((g.perform (.place w p)).1, some p)
      else (g.perform (.place w p)).1.tryPlaces w places :=
  rfl

theorem Change.run_tryPlaces (g : Grid) (w : WorkerId) (places : List Point) :
    (tryPlaces w places).run g = (g.tryPlaces w places).swap := by
  induction places generalizing g with
  | nil => rfl
  | cons p places ih =>
    rw [tryPlaces, run_bind, run_place, tryPlaces_cons]
    by_cases placed : (g.perform (.place w p)).2 = true
    · have tested : (g.perform (.place w p)).swap.1 = true := placed
      rw [if_pos tested, if_pos placed]
      rfl
    · have tested : ¬(g.perform (.place w p)).swap.1 = true := placed
      rw [if_neg tested, if_neg placed]
      exact ih _

theorem mem_places : p ∈ g.places ↔ g.contains p = true := by
  obtain ⟨x, y⟩ := p
  simp only [places, List.mem_flatMap, List.mem_map, List.mem_range, Point.mk.injEq, contains_iff]
  constructor
  · rintro ⟨b, down, a, across, rfl, rfl⟩
    simp only [Int.ofNat_eq_natCast]
    omega
  · rintro ⟨left, top, right, bottom⟩
    exact ⟨y.toNat, by omega, x.toNat, by omega, Int.toNat_of_nonneg left, Int.toNat_of_nonneg top⟩

theorem pairwise_places (g : Grid) : g.places.Pairwise Point.Before := by
  unfold places
  rw [List.pairwise_flatMap]
  constructor
  · intro y _
    rw [List.pairwise_map]
    refine List.pairwise_lt_range.imp ?_
    intro a b less
    exact .inr ⟨rfl, Int.ofNat_lt.mpr less⟩
  · refine List.pairwise_lt_range.imp ?_
    intro upper lower less p inUpper q inLower
    obtain ⟨a, -, rfl⟩ := List.mem_map.mp inUpper
    obtain ⟨b, -, rfl⟩ := List.mem_map.mp inLower
    exact .inl (Int.ofNat_lt.mpr less)

theorem find?_places : g.places.find? g.isFree = some p ↔ g.FirstVacant p := by
  have first {q : Point} (found : g.places.find? g.isFree = some q) : g.FirstVacant q := by
    obtain ⟨free, before, after, split, taken⟩ := List.find?_eq_some_iff_append.mp found
    refine ⟨isFree_iff_vacant.mp free, ?_⟩
    intro r vacant different
    have member := mem_places.mpr vacant.contains
    have ordered := g.pairwise_places
    rw [split] at member ordered
    rcases List.mem_append.mp member with earlier | later
    · have := taken r earlier
      rw [isFree_iff_vacant.mpr vacant] at this
      cases this
    · have later := (List.mem_cons.mp later).resolve_left different
      exact List.rel_of_pairwise_cons (List.pairwise_append.mp ordered).2.1 later
  refine ⟨first, ?_⟩
  intro vacant
  cases found : g.places.find? g.isFree with
  | none =>
    have taken := List.find?_eq_none.mp found p (mem_places.mpr vacant.1.contains)
    exact absurd (isFree_iff_vacant.mpr vacant.1) taken
  | some q => rw [(first found).unique vacant]

/-- Attempts that fail change nothing, so the first place that is free at the start is taken. -/
theorem tryPlaces_eq (g : Grid) (w : WorkerId) (places : List Point) :
    g.tryPlaces w places =
      ((places.find? g.isFree).elim g (g.put w), places.find? g.isFree) := by
  induction places with
  | nil => rfl
  | cons p places ih =>
    unfold tryPlaces place?
    by_cases free : g.isFree p = true
    · rw [if_pos free, List.find?_cons_of_pos free]
      rfl
    · rw [if_neg free, List.find?_cons_of_neg free]
      exact ih

theorem placeAnywhere?_eq (g : Grid) (w : WorkerId) :
    g.placeAnywhere? w = (g.places.find? g.isFree).map fun p => (g.put w p, p) := by
  apply Option.ext
  rintro ⟨g', p⟩
  rw [placeAnywhere?_eq_some_iff, Option.map_eq_some_iff]
  constructor
  · rintro ⟨first, rfl⟩
    exact ⟨p, find?_places.mpr first, rfl⟩
  · rintro ⟨q, found, same⟩
    cases same
    exact ⟨find?_places.mp found, rfl⟩

theorem placeAnywhere?_eq_none_iff : g.placeAnywhere? w = none ↔ ∀ p, ¬g.Vacant p := by
  rw [placeAnywhere?_eq, Option.map_eq_none_iff, List.find?_eq_none]
  constructor
  · intro taken p vacant
    exact taken p (mem_places.mpr vacant.contains) (isFree_iff_vacant.mpr vacant)
  · intro full p _ free
    exact full p (isFree_iff_vacant.mp free)

theorem perform_placeAnywhere (g : Grid) (w : WorkerId) :
    (g.perform (.placeAnywhere w)).1 = ((g.placeAnywhere? w).map Prod.fst).getD g :=
  rfl

/-- Trying all places in turn is what putting a worker anywhere comes to. -/
theorem tryPlaces_places (g : Grid) (w : WorkerId) :
    g.tryPlaces w g.places =
      ((g.perform (.placeAnywhere w)).1, (g.placeAnywhere? w).map Prod.snd) := by
  rw [tryPlaces_eq, perform_placeAnywhere, placeAnywhere?_eq]
  cases g.places.find? g.isFree with
  | none => rfl
  | some p => rfl

theorem Change.run_placeAnywhere (g : Grid) (w : WorkerId) :
    (placeAnywhere w).run g =
      ((g.placeAnywhere? w).map Prod.snd, (g.perform (.placeAnywhere w)).1) := by
  rw [placeAnywhere, run_bind, run_get, run_tryPlaces, tryPlaces_places]
  rfl

end Search

section Effects

theorem Consistent.occupantAt? (consistent : g.Consistent) (stands : g.position? w = some p) :
    g.occupantAt? p = some w := by
  obtain ⟨i, index⟩ := exists_index? (consistent.inside stands)
  rw [Grid.occupantAt?, cell?, index]
  exact consistent.occupant.mpr ⟨p, stands, index⟩

theorem occupantAt?_put (vacant : g.Vacant p) :
    (g.put w p).occupantAt? q =
      if q = p then some w else if g.position? w = some q then none else g.occupantAt? q := by
  unfold occupantAt?
  rw [cell?_put, cell?_remove]
  split
  · next same =>
    subst same
    obtain ⟨cell, found, -⟩ := Option.map_eq_some_iff.mp vacant.1
    rw [found]
    split <;> rfl
  · split
    · cases g.cell? q with
      | none => rfl
      | some cell => rfl
    · rfl

end Effects

/-- Where the two records of who stands where agree, putting a worker anywhere fails exactly when no
tile is open and unoccupied, and the grid then stays as it was. Else it gives the first such tile,
row by row: the worker stands there afterwards, the tile it stood on before has nobody on it, and
nothing else has changed. The outcome is that of trying all places in turn, in place or not. -/
theorem placeAnywhere_takes_first_vacant (consistent : g.Consistent) (w : WorkerId) :
    (g.placeAnywhere? w = none ↔ ∀ p, ¬g.Vacant p) ∧
    (g.placeAnywhere? w = none → (g.perform (.placeAnywhere w)).1 = g) ∧
    g.tryPlaces w g.places =
      ((g.perform (.placeAnywhere w)).1, (g.placeAnywhere? w).map Prod.snd) ∧
    (Change.placeAnywhere w).run g =
      ((g.placeAnywhere? w).map Prod.snd, (g.perform (.placeAnywhere w)).1) ∧
    ∀ g' p, g.placeAnywhere? w = some (g', p) →
      (g.perform (.placeAnywhere w)).1 = g' ∧ g.Vacant p ∧
      (∀ q, g.Vacant q → q ≠ p → p.y < q.y ∨ p.y = q.y ∧ p.x < q.x) ∧
      g'.position? w = some p ∧ g'.occupantAt? p = some w ∧
      (∀ q, g.position? w = some q → q ≠ p ∧ g'.occupantAt? q = none) ∧
      (∀ other, other ≠ w → g'.position? other = g.position? other) ∧
      (∀ q, q ≠ p → g.position? w ≠ some q → g'.occupantAt? q = g.occupantAt? q) ∧
      (∀ q, g'.tile? q = g.tile? q) ∧ (∀ q, g'.scent? q = g.scent? q) ∧
      g'.width = g.width ∧ g'.height = g.height ∧ g'.Consistent := by
  refine ⟨placeAnywhere?_eq_none_iff, ?_, g.tryPlaces_places w, Change.run_placeAnywhere g w, ?_⟩
  · intro nowhere
    rw [perform_placeAnywhere, nowhere]
    rfl
  · intro g' p placed
    have performed : (g.perform (.placeAnywhere w)).1 = g' := by
      rw [perform_placeAnywhere, placed]
      rfl
    obtain ⟨⟨vacant, first⟩, rfl⟩ := placeAnywhere?_eq_some_iff.mp placed
    refine ⟨performed, vacant, first, ?_, ?_, ?_, ?_, ?_, g.tile?_put w p, g.scent?_put w p,
      g.width_put w p, g.height_put w p, consistent.put (isFree_iff_vacant.mpr vacant)⟩
    · rw [position?_put, if_pos rfl]
    · rw [occupantAt?_put vacant, if_pos rfl]
    · intro q stands
      have apart : q ≠ p := by
        rintro rfl
        have nobody := vacant.2
        rw [consistent.occupantAt? stands] at nobody
        cases nobody
      exact ⟨apart, by rw [occupantAt?_put vacant, if_neg apart, if_pos stands]⟩
    · intro other different
      rw [position?_put, if_neg different]
    · intro q apart elsewhere
      rw [occupantAt?_put vacant, if_neg apart, if_neg elsewhere]

/-- A grid whose only tile is taken. -/
def crowded : Grid :=
  ((clear 1 1).perform (.place 7 ⟨0, 0⟩)).1

theorem placeAnywhere_takes_first_vacant_passing :
    (∃ g', passing.placeAnywhere? 7 = some (g', ⟨2, 0⟩) ∧ g'.position? 7 = some ⟨2, 0⟩ ∧
      g'.occupantAt? ⟨1, 0⟩ = none ∧ g'.position? 8 = passing.position? 8) ∧
    crowded.placeAnywhere? 7 = none ∧ (crowded.perform (.placeAnywhere 7)).1 = crowded := by
  have built : passing.Built := (((Built.clear 3 2).perform _).perform _).perform _
  have alone : crowded.Built := (Built.clear 1 1).perform _
  have found : (passing.placeAnywhere? 7).map Prod.snd = some ⟨2, 0⟩ := by decide +kernel
  have full : crowded.placeAnywhere? 7 = none := by decide +kernel
  obtain ⟨-, unchanged, -⟩ := placeAnywhere_takes_first_vacant alone.consistent 7
  obtain ⟨-, -, -, -, takes⟩ := placeAnywhere_takes_first_vacant built.consistent 7
  refine ⟨?_, full, unchanged full⟩
  obtain ⟨⟨g', p⟩, placed, rfl⟩ := Option.map_eq_some_iff.mp found
  obtain ⟨-, -, -, stands, -, left, others, -⟩ := takes g' _ placed
  exact ⟨g', placed, stands, (left ⟨1, 0⟩ (by decide +kernel)).2, others 8 (by decide)⟩

end Grid

end Formicary
