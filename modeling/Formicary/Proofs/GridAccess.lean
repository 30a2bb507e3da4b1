import Formicary.World.Grid

/-!
# Reading and writing tiles

Different places on a grid have different tiles, and the index of a tile tells its place. From this
follows what each operation does to the tile at an index or at a place and to the place of a worker;
nothing later opens the array of tiles or the map of places.
-/

namespace Formicary

theorem Channel.get_set {α : Type} (c channel : Channel) (values : Vector α 8) (value : α) :
    (c.set values value).get channel = if c = channel then value else values.get channel := by
  show (values.set c.val value c.isLt)[channel.val] = _
  rw [Vector.getElem_set]
  by_cases same : c = channel
  · simp [same]
  · rw [if_neg (mt Fin.ext same), if_neg same]
    rfl

namespace Grid

section Index

variable {g g' : Grid} {p q : Point} {i : Nat}

theorem bound_eq (side : UInt32) :
    bound side = if side.toNat ≤ 2147483647 then (side.toNat : Int)
      else side.toNat - 4294967296 := by
  unfold bound
  rw [← Int32.toInt_toBitVec, UInt32.toBitVec_toInt32, BitVec.toInt_eq_toNat_cond,
    UInt32.toNat_toBitVec]
  split <;> split <;> omega

/-- A side counts as it is, or it is too long and bounds nothing. -/
theorem bound_eq_or_neg (side : UInt32) : bound side = side.toNat ∨ bound side < 0 := by
  rw [bound_eq]
  have := side.toNat_lt
  split <;> omega

theorem contains_iff :
    g.contains p = true ↔
      0 ≤ p.x ∧ 0 ≤ p.y ∧ p.x < bound g.width ∧ p.y < bound g.height := by
  simp [contains, and_assoc]

/-- Where there is a place on the grid, its sides count as they are. -/
theorem bounds_of_contains (inside : g.contains p = true) :
    bound g.width = g.width.toNat ∧ bound g.height = g.height.toNat := by
  obtain ⟨left, top, right, bottom⟩ := contains_iff.mp inside
  exact ⟨(bound_eq_or_neg _).resolve_right (by omega), (bound_eq_or_neg _).resolve_right (by omega)⟩

/-- A place on the grid has natural coordinates within its sides. -/
theorem exists_coordinates (inside : g.contains p = true) :
    ∃ x y : Nat, p = ⟨x, y⟩ ∧ x < g.width.toNat ∧ y < g.height.toNat ∧
      (g.offset p).toNat = y * g.width.toNat + x := by
  obtain ⟨left, top, right, bottom⟩ := contains_iff.mp inside
  obtain ⟨wide, high⟩ := bounds_of_contains inside
  rw [wide] at right
  rw [high] at bottom
  obtain ⟨x, y⟩ := p
  obtain ⟨x, rfl⟩ := Int.eq_ofNat_of_zero_le left
  obtain ⟨y, rfl⟩ := Int.eq_ofNat_of_zero_le top
  refine ⟨x, y, rfl, Int.ofNat_lt.mp right, Int.ofNat_lt.mp bottom, ?_⟩
  rw [offset, wide, ← Int.natCast_mul, ← Int.natCast_add, Int.toNat_natCast]

theorem index?_eq_some_iff :
    g.index? p = some i ↔ g.contains p = true ∧ (g.offset p).toNat = i := by
  unfold index?
  split <;> simp [*]

theorem contains_of_index? (found : g.index? p = some i) : g.contains p = true :=
  (index?_eq_some_iff.mp found).1

theorem exists_index? (inside : g.contains p = true) : ∃ i, g.index? p = some i :=
  ⟨_, index?_eq_some_iff.mpr ⟨inside, rfl⟩⟩

theorem pointAt_mul_add {x y : Nat} (right : x < g.width.toNat) :
    g.pointAt (y * g.width.toNat + x) = ⟨x, y⟩ := by
  have wide : 0 < g.width.toNat := by omega
  rw [pointAt, Nat.add_comm, ← Int.natCast_emod, ← Int.natCast_ediv, Nat.add_mul_mod_self_right,
    Nat.mod_eq_of_lt right, Nat.add_mul_div_right _ _ wide, Nat.div_eq_of_lt right, Nat.zero_add]

/-- The index of a tile tells its place. -/
theorem pointAt_of_index? (found : g.index? p = some i) : g.pointAt i = p := by
  obtain ⟨inside, rfl⟩ := index?_eq_some_iff.mp found
  obtain ⟨x, y, rfl, right, -, same⟩ := exists_coordinates inside
  rw [same]
  exact pointAt_mul_add right

theorem index?_inj (hp : g.index? p = some i) (hq : g.index? q = some i) : p = q :=
  (pointAt_of_index? hp).symm.trans (pointAt_of_index? hq)

theorem index?_lt (found : g.index? p = some i) : i < g.cells.size := by
  obtain ⟨inside, rfl⟩ := index?_eq_some_iff.mp found
  obtain ⟨x, y, rfl, right, bottom, same⟩ := exists_coordinates inside
  rw [g.size_cells, same]
  calc y * g.width.toNat + x
      < y * g.width.toNat + g.width.toNat := Nat.add_lt_add_left right _
    _ = (y + 1) * g.width.toNat := (Nat.succ_mul _ _).symm
    _ ≤ g.height.toNat * g.width.toNat := Nat.mul_le_mul_right _ bottom
    _ = g.width.toNat * g.height.toNat := Nat.mul_comm _ _

/-- Only the sides of a grid decide where the tile at a place is stored. -/
theorem index?_congr (width : g'.width = g.width) (height : g'.height = g.height) (p : Point) :
    g'.index? p = g.index? p := by
  unfold index? contains offset
  rw [width, height]

theorem ext_of_getElem? (width : g.width = g'.width) (height : g.height = g'.height)
    (cells : ∀ i : Nat, g.cells[i]? = g'.cells[i]?)
    (positions : ∀ w : WorkerId, g.position? w = g'.position? w) : g = g' := by
  obtain ⟨w, h, cs, ps, size⟩ := g
  obtain ⟨w', h', cs', ps', size'⟩ := g'
  obtain rfl : w = w' := width
  obtain rfl : h = h' := height
  obtain rfl : cs = cs' := Array.ext_getElem? cells
  obtain rfl : ps = ps' := Std.ExtTreeMap.ext_getElem? positions
  rfl

end Index

section Modify

variable (g : Grid) (p : Point) (f : Cell → Cell)

@[simp] theorem width_modify : (g.modify p f).width = g.width := by
  unfold modify
  split <;> rfl

@[simp] theorem height_modify : (g.modify p f).height = g.height := by
  unfold modify
  split <;> rfl

theorem positions_modify : (g.modify p f).positions = g.positions := by
  unfold modify
  split <;> rfl

@[simp] theorem position?_modify (w : WorkerId) :
    (g.modify p f).position? w = g.position? w := by
  unfold modify
  split <;> rfl

@[simp] theorem index?_modify (q : Point) : (g.modify p f).index? q = g.index? q :=
  index?_congr (width_modify g p f) (height_modify g p f) q

theorem getElem?_modify (i : Nat) :
    (g.modify p f).cells[i]? =
      if g.index? p = some i then g.cells[i]?.map f else g.cells[i]? := by
  unfold modify
  split
  · next k found => simp [Array.getElem?_modify, found]
  · next missing => simp [missing]

/-- Tiles and places are written apart from each other. -/
theorem modify_with_positions (positions : Std.ExtTreeMap WorkerId Point) :
    { g with positions }.modify p f = { g.modify p f with positions } := by
  unfold modify
  have same : index? { g with positions } p = g.index? p := rfl
  rw [same]
  cases g.index? p with
  | none => rfl
  | some i => rfl

end Modify

section Workers

variable (g : Grid) (w : WorkerId) (p : Point)

@[simp] theorem width_remove : (g.remove w).width = g.width := by
  unfold remove
  split
  · exact width_modify ..
  · rfl

@[simp] theorem height_remove : (g.remove w).height = g.height := by
  unfold remove
  split
  · exact height_modify ..
  · rfl

@[simp] theorem width_put : (g.put w p).width = g.width :=
  (width_modify ..).trans (width_remove ..)

@[simp] theorem height_put : (g.put w p).height = g.height :=
  (height_modify ..).trans (height_remove ..)

/-- A worker is put on its tile first and then gets its place. -/
theorem put_eq : g.put w p =
    { (g.remove w).modify p fun c => { c with occupant := some w } with
      positions :=
        ((g.remove w).modify p fun c => { c with occupant := some w }).positions.insert w p } := by
  rw [positions_modify]
  rfl

@[simp] theorem index?_remove (q : Point) : (g.remove w).index? q = g.index? q :=
  index?_congr (width_remove g w) (height_remove g w) q

@[simp] theorem index?_put (q : Point) : (g.put w p).index? q = g.index? q :=
  index?_congr (width_put g w p) (height_put g w p) q

theorem position?_remove (a : WorkerId) :
    (g.remove w).position? a = if a = w then none else g.position? a := by
  unfold remove
  split
  · simp only [position?, Std.ExtTreeMap.getElem?_erase, Std.LawfulEqOrd.compare_eq_iff_eq]
    simp only [eq_comm]
  · next absent =>
    split
    · next same => rw [same, absent]
    · rfl

theorem position?_put (a : WorkerId) :
    (g.put w p).position? a = if a = w then some p else g.position? a := by
  have other := position?_remove g w a
  simp only [put, position?, Std.ExtTreeMap.getElem?_insert, Std.LawfulEqOrd.compare_eq_iff_eq]
    at other ⊢
  simp only [@eq_comm _ w a]
  split
  · rfl
  · next different => rw [other, if_neg different]

theorem getElem?_remove (i : Nat) :
    (g.remove w).cells[i]? =
      if (g.position? w).bind g.index? = some i then
        g.cells[i]?.map fun c => { c with occupant := none }
      else g.cells[i]? := by
  unfold remove
  split
  · next q found =>
    rw [found]
    exact getElem?_modify ..
  · next absent => simp [absent]

theorem getElem?_put (i : Nat) :
    (g.put w p).cells[i]? =
      if g.index? p = some i then
        (g.remove w).cells[i]?.map fun c => { c with occupant := some w }
      else (g.remove w).cells[i]? := by
  rw [← index?_remove g w p]
  exact getElem?_modify ..

/-- Workers come and go without a trace on what is no matter of the occupant. -/
theorem map_getElem?_put {β : Type} {view : Cell → β}
    (same : ∀ c o, view { c with occupant := o } = view c) (i : Nat) :
    (g.put w p).cells[i]?.map view = g.cells[i]?.map view := by
  have removed : (g.remove w).cells[i]?.map view = g.cells[i]?.map view := by
    rw [getElem?_remove]
    split
    · simp [Function.comp_def, same]
    · rfl
  rw [getElem?_put, ← removed]
  split
  · simp [Function.comp_def, same]
  · rfl

end Workers

section Places

variable (g : Grid) (w : WorkerId) (p q : Point)

theorem cell?_modify (f : Cell → Cell) :
    (g.modify p f).cell? q = if q = p then (g.cell? q).map f else g.cell? q := by
  unfold cell?
  rw [index?_modify]
  cases stored : g.index? q with
  | none => simp
  | some i =>
    rw [Option.bind_some, Option.bind_some, getElem?_modify]
    by_cases same : q = p
    · rw [if_pos same, ← same, if_pos stored]
    · rw [if_neg same, if_neg fun found => same (index?_inj stored found)]

theorem cell?_remove :
    (g.remove w).cell? q =
      if g.position? w = some q then (g.cell? q).map fun c => { c with occupant := none }
      else g.cell? q := by
  unfold remove
  split
  · next here stands =>
    simp only [stands, Option.some.injEq, @eq_comm _ here q]
    exact cell?_modify ..
  · next absent => simp [absent]

theorem cell?_put :
    (g.put w p).cell? q =
      if q = p then ((g.remove w).cell? q).map fun c => { c with occupant := some w }
      else (g.remove w).cell? q :=
  cell?_modify ..

/-- What a change of a tile does not touch stays as it was on all tiles. -/
theorem map_cell?_modify {β : Type} {view : Cell → β} {f : Cell → Cell}
    (same : ∀ c, view (f c) = view c) :
    ((g.modify p f).cell? q).map view = (g.cell? q).map view := by
  rw [cell?_modify]
  split
  · rw [Option.map_map]
    congr 1
    exact funext same
  · rfl

theorem map_cell?_put {β : Type} {view : Cell → β}
    (same : ∀ c o, view { c with occupant := o } = view c) :
    ((g.put w p).cell? q).map view = (g.cell? q).map view := by
  unfold cell?
  rw [index?_put, Option.map_bind, Option.map_bind]
  congr 1
  funext i
  exact map_getElem?_put g w p same i

theorem tile?_put : (g.put w p).tile? q = g.tile? q :=
  map_cell?_put g w p q fun _ _ => rfl

theorem scent?_put : (g.put w p).scent? q = g.scent? q :=
  map_cell?_put g w p q fun _ _ => rfl

theorem tile?_setTile (tile : Tile) :
    (g.setTile p tile).tile? q = if q = p then (g.tile? q).map fun _ => tile else g.tile? q := by
  unfold setTile tile?
  rw [cell?_modify]
  split
  · rw [Option.map_map, Option.map_map]
    rfl
  · rfl

theorem scent?_setTile (tile : Tile) : (g.setTile p tile).scent? q = g.scent? q :=
  map_cell?_modify g p q fun _ => rfl

theorem position?_deposit (c : Channel) (amount : UInt8) (a : WorkerId) :
    (g.deposit w c amount).position? a = g.position? a := by
  unfold deposit
  split
  · exact position?_modify ..
  · rfl

theorem tile?_deposit (c : Channel) (amount : UInt8) :
    (g.deposit w c amount).tile? q = g.tile? q := by
  unfold deposit
  split
  · exact map_cell?_modify g _ q fun _ => rfl
  · rfl

theorem scent?_deposit {g : Grid} {w : WorkerId} {p : Point} (stands : g.position? w = some p)
    (c : Channel) (amount : UInt8) :
    (g.deposit w c amount).scent? q =
      if q = p then (g.scent? q).map (raiseLevel · c amount) else g.scent? q := by
  unfold deposit scent?
  rw [stands]
  dsimp only
  rw [cell?_modify]
  split
  · rw [Option.map_map, Option.map_map]
    rfl
  · rfl

end Places

section Scents

theorem le_addLevels (a b : UInt8) : a ≤ addLevels a b := by
  rw [UInt8.le_iff_toNat_le, addLevels]
  have := a.toNat_lt
  have small : min (a.toNat + b.toNat) 255 < 256 := by omega
  rw [Nat.toUInt8_eq, UInt8.toNat_ofNat_of_lt' small]
  omega

theorem le_raiseLevel (levels : Levels) (c channel : Channel) (amount : UInt8) :
    levels.get channel ≤ (raiseLevel levels c amount).get channel := by
  rw [raiseLevel, Channel.get_set]
  split
  · next same =>
    subst same
    exact le_addLevels _ _
  · exact UInt8.le_refl _

end Scents

end Grid

end Formicary
