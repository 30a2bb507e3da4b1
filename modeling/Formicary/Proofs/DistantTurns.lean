import Formicary.Proofs.GridAccess
import Formicary.Proofs.Turns

/-!
# Turns of distant workers

A turn reads and writes only tiles within two steps of the place where it starts: a move goes one
step ahead, and what a worker digs or senses then is one step further. So the turns of two workers
that are five steps apart have no tile in common, and their order does not matter.
-/

namespace Formicary

namespace Point

/-- How many steps two places are apart. -/
def distance (p q : Point) : Nat :=
  (p.x - q.x).natAbs + (p.y - q.y).natAbs

theorem distance_self (p : Point) : p.distance p = 0 := by
  simp [distance]

theorem distance_triangle (p q r : Point) : p.distance r ≤ p.distance q + q.distance r := by
  unfold distance
  omega

theorem distance_comm (p q : Point) : p.distance q = q.distance p := by
  unfold distance
  omega

theorem distance_ahead (p : Point) (h : Heading) : p.distance (p.ahead h) = 1 := by
  unfold distance ahead
  cases h <;> simp only [Heading.offset] <;> omega

end Point

/-- A place that a worker gets at in a turn that starts at `home`, if it starts anywhere. -/
def InReach (home : Option Point) (q : Point) : Prop :=
  ∃ p, home = some p ∧ p.distance q ≤ 2

namespace Grid

/-- A worker is at most one step from where its turn started. -/
def StaysNear (g : Grid) (w : WorkerId) (home : Option Point) : Prop :=
  ∀ q, g.position? w = some q → ∃ p, home = some p ∧ p.distance q ≤ 1

/-- A grid changed in no more than the place of one worker and the tiles in its reach. -/
structure ChangedNear (w : WorkerId) (home : Option Point) (g g' : Grid) : Prop where
  width : g'.width = g.width
  height : g'.height = g.height
  position : ∀ a, a ≠ w → g'.position? a = g.position? a
  cell : ∀ i : Nat, (∀ q, InReach home q → g.index? q ≠ some i) → g'.cells[i]? = g.cells[i]?

/-- Two grids that do not differ in what a worker gets at. -/
structure AlikeFor (w : WorkerId) (home : Option Point) (g g' : Grid) : Prop where
  width : g'.width = g.width
  height : g'.height = g.height
  position : g'.position? w = g.position? w
  cell : ∀ q i, InReach home q → g.index? q = some i → g'.cells[i]? = g.cells[i]?

variable {w : WorkerId} {home : Option Point} {g g' g'' : Grid} {p q : Point}

theorem StaysNear.inReach_ahead (near : g.StaysNear w home) {h : Heading}
    (ahead : g.ahead? w h = some q) : InReach home q := by
  obtain ⟨r, found, rfl⟩ := Option.map_eq_some_iff.mp ahead
  obtain ⟨p, start, close⟩ := near r found
  have far := p.distance_triangle r (r.ahead h)
  rw [r.distance_ahead h] at far
  exact ⟨p, start, by omega⟩

theorem StaysNear.inReach (near : g.StaysNear w home) (found : g.position? w = some q) :
    InReach home q := by
  obtain ⟨p, start, close⟩ := near q found
  exact ⟨p, start, by omega⟩

theorem staysNear_self (g : Grid) (w : WorkerId) : g.StaysNear w (g.position? w) :=
  fun q found => ⟨q, found, by rw [q.distance_self]; omega⟩

section Writing

theorem ChangedNear.refl (g : Grid) : ChangedNear w home g g :=
  ⟨rfl, rfl, fun _ _ => rfl, fun _ _ => rfl⟩

theorem ChangedNear.trans (first : ChangedNear w home g g') (second : ChangedNear w home g' g'') :
    ChangedNear w home g g'' where
  width := second.width.trans first.width
  height := second.height.trans first.height
  position := fun a other => (second.position a other).trans (first.position a other)
  cell := by
    intro i away
    have away' : ∀ q, InReach home q → g'.index? q ≠ some i := by
      intro q reach
      rw [index?_congr first.width first.height]
      exact away q reach
    exact (second.cell i away').trans (first.cell i away)

theorem changedNear_modify (reach : InReach home p) (f : Cell → Cell) :
    ChangedNear w home g (g.modify p f) where
  width := width_modify g p f
  height := height_modify g p f
  position := fun a _ => position?_modify g p f a
  cell := by
    intro i away
    rw [getElem?_modify, if_neg (away p reach)]

theorem changedNear_put (near : g.StaysNear w home) (reach : InReach home p) :
    ChangedNear w home g (g.put w p) where
  width := width_put g w p
  height := height_put g w p
  position := by
    intro a other
    rw [position?_put, if_neg other]
  cell := by
    intro i away
    have leaves : (g.position? w).bind g.index? ≠ some i := by
      intro here
      obtain ⟨q, found, index⟩ := Option.bind_eq_some_iff.mp here
      exact away q (near.inReach found) index
    rw [getElem?_put, if_neg (away p reach), getElem?_remove, if_neg leaves]

end Writing

section Reading

variable (alike : AlikeFor w home g g')

include alike

theorem AlikeFor.index? (q : Point) : g'.index? q = g.index? q :=
  index?_congr alike.width alike.height q

theorem AlikeFor.cell? (reach : InReach home q) : g'.cell? q = g.cell? q := by
  unfold Grid.cell?
  rw [alike.index?]
  cases index : g.index? q with
  | none => rfl
  | some i => exact alike.cell q i reach index

theorem AlikeFor.isFree (reach : InReach home q) : g'.isFree q = g.isFree q := by
  unfold Grid.isFree
  rw [alike.cell? reach]

theorem AlikeFor.ahead? (h : Heading) : g'.ahead? w h = g.ahead? w h := by
  unfold Grid.ahead?
  rw [alike.position]

/-- A test of the tile ahead comes out the same. -/
theorem AlikeFor.filter_ahead? (near : g.StaysNear w home) (h : Heading)
    (test : Grid → Point → Bool) (same : ∀ q, InReach home q → test g' q = test g q) :
    (g'.ahead? w h).filter (test g') = (g.ahead? w h).filter (test g) := by
  rw [alike.ahead?]
  cases ahead : g.ahead? w h with
  | none => rfl
  | some q => rw [Option.filter_some, Option.filter_some, same q (near.inReach_ahead ahead)]

theorem AlikeFor.destination? (near : g.StaysNear w home) (h : Heading) :
    g'.destination? w h = g.destination? w h :=
  alike.filter_ahead? near h Grid.isFree fun _ reach => alike.isFree reach

theorem AlikeFor.dirtAhead? (near : g.StaysNear w home) (h : Heading) :
    g'.dirtAhead? w h = g.dirtAhead? w h := by
  apply alike.filter_ahead? near h fun g p => g.tile? p = some .dirt
  intro q reach
  rw [tile?, tile?, alike.cell? reach]

theorem AlikeFor.surroundings (near : g.StaysNear w home) :
    g'.surroundings w = g.surroundings w := by
  unfold Grid.surroundings
  rw [alike.position]
  cases found : g.position? w with
  | none => rfl
  | some q =>
    have reach (h : Heading) : InReach home (q.ahead h) :=
      near.inReach_ahead (by rw [Grid.ahead?, found]; rfl)
    simp only [alike.isFree (reach _), scent?, alike.cell? (reach _)]

theorem AlikeFor.modify (p : Point) (f : Cell → Cell) :
    AlikeFor w home (g.modify p f) (g'.modify p f) where
  width := by simp only [width_modify, alike.width]
  height := by simp only [height_modify, alike.height]
  position := by simp only [position?_modify, alike.position]
  cell := by
    intro q i reach index
    rw [index?_modify] at index
    rw [getElem?_modify, getElem?_modify, alike.index?, alike.cell q i reach index]

theorem AlikeFor.put (p : Point) : AlikeFor w home (g.put w p) (g'.put w p) where
  width := by simp only [width_put, alike.width]
  height := by simp only [height_put, alike.height]
  position := by simp only [position?_put, if_true]
  cell := by
    intro q i reach index
    rw [index?_put] at index
    have indices : g'.index? = g.index? := funext alike.index?
    simp only [getElem?_put, getElem?_remove, alike.position, indices, alike.cell q i reach index]

theorem AlikeFor.deposit (c : Channel) (amount : UInt8) :
    AlikeFor w home (g.deposit w c amount) (g'.deposit w c amount) := by
  unfold Grid.deposit
  rw [alike.position]
  split
  · exact alike.modify _ _
  · exact alike

end Reading

end Grid

namespace Worker

open Grid

variable {w : Worker} {home : Option Point} {g g' : Grid} (deposit : UInt8)

theorem id_settleMove : (w.settleMove g deposit).1.id = w.id := by
  obtain ⟨failed, g', settled⟩ := w.exists_settleMove g deposit
  rw [settled]

theorem id_settleDig : (w.settleDig g).1.id = w.id := by
  obtain ⟨failed, g', settled⟩ := w.exists_settleDig g
  rw [settled]

section Writing

theorem changedNear_layScent (near : g.StaysNear w.id home) :
    ChangedNear w.id home g (w.layScent g deposit) ∧
      (w.layScent g deposit).StaysNear w.id home := by
  unfold layScent Grid.deposit
  split
  · split
    · next q found =>
      refine ⟨changedNear_modify (near.inReach found) _, ?_⟩
      intro r after
      rw [position?_modify] at after
      exact near r after
    · exact ⟨.refl g, near⟩
  · exact ⟨.refl g, near⟩

/-- A move goes one step from where the turn started. -/
theorem changedNear_settleMove (start : g.position? w.id = home) :
    ChangedNear w.id home g (w.settleMove g deposit).2 ∧
      (w.settleMove g deposit).2.StaysNear w.id home := by
  subst start
  have near := g.staysNear_self w.id
  unfold settleMove
  split
  · split
    · next q there =>
      have ahead := (Option.filter_eq_some_iff.mp there).1
      have moved := changedNear_put near (near.inReach_ahead ahead)
      have close : (g.put w.id q).StaysNear w.id (g.position? w.id) := by
        intro r after
        rw [position?_put, if_pos rfl] at after
        cases after
        obtain ⟨p, found, rfl⟩ := Option.map_eq_some_iff.mp ahead
        exact ⟨p, found, by rw [p.distance_ahead]⟩
      obtain ⟨laid, close⟩ := changedNear_layScent deposit close
      exact ⟨moved.trans laid, close⟩
    · exact ⟨.refl g, near⟩
  · exact ⟨.refl g, near⟩

theorem changedNear_settleDig (near : g.StaysNear w.id home) :
    ChangedNear w.id home g (w.settleDig g).2 ∧ (w.settleDig g).2.StaysNear w.id home := by
  unfold settleDig
  split
  · split
    · next q there =>
      have ahead := (Option.filter_eq_some_iff.mp there).1
      refine ⟨changedNear_modify (near.inReach_ahead ahead) _, ?_⟩
      intro r after
      rw [setTile, position?_modify] at after
      exact near r after
    · exact ⟨.refl g, near⟩
  · exact ⟨.refl g, near⟩

theorem changedNear_resolve (start : g.position? w.id = home) :
    ChangedNear w.id home g (w.resolve g deposit).2 := by
  obtain ⟨moved, near⟩ := changedNear_settleMove deposit start
  rw [← id_settleMove (w := w) (g := g) deposit] at near
  obtain ⟨dug, -⟩ := changedNear_settleDig near
  rw [id_settleMove] at dug
  exact moved.trans dug

/-- A turn changes no more than the place of its worker and the tiles in its reach. -/
theorem changedNear_takeTurn {w' : Worker} {cost : Option Nat}
    (turn : w.takeTurn g deposit = .ok (w', g', cost)) :
    ChangedNear w.id (g.position? w.id) g g' := by
  rw [takeTurn_eq] at turn
  cases turn
  have same := (keptBy_acted (w := w) (g.surroundings w.id)).id
  have settled := changedNear_resolve (w := w.acted (g.surroundings w.id)) (g := g) deposit rfl
  rwa [same] at settled

end Writing

section Reading

theorem alikeFor_layScent (alike : AlikeFor w.id home g g') :
    AlikeFor w.id home (w.layScent g deposit) (w.layScent g' deposit) := by
  unfold layScent
  split
  · exact alike.deposit _ _
  · exact alike

theorem alikeFor_settleMove (near : g.StaysNear w.id home) (alike : AlikeFor w.id home g g') :
    (w.settleMove g' deposit).1 = (w.settleMove g deposit).1 ∧
      AlikeFor w.id home (w.settleMove g deposit).2 (w.settleMove g' deposit).2 := by
  unfold settleMove
  rw [alike.destination? near]
  split
  · split
    · next q _ => exact ⟨rfl, alikeFor_layScent deposit (alike.put q)⟩
    · exact ⟨rfl, alike⟩
  · exact ⟨rfl, alike⟩

theorem alikeFor_settleDig (near : g.StaysNear w.id home) (alike : AlikeFor w.id home g g') :
    (w.settleDig g').1 = (w.settleDig g).1 ∧
      AlikeFor w.id home (w.settleDig g).2 (w.settleDig g').2 := by
  unfold settleDig
  rw [alike.dirtAhead? near]
  split
  · split
    · exact ⟨rfl, alike.modify _ _⟩
    · exact ⟨rfl, alike⟩
  · exact ⟨rfl, alike⟩

/-- Settling requests and looking around come out the same on grids that are alike for the worker.
-/
theorem alikeFor_resolve (start : g.position? w.id = home) (alike : AlikeFor w.id home g g') :
    (w.resolve g' deposit).1 = (w.resolve g deposit).1 ∧
      AlikeFor w.id home (w.resolve g deposit).2 (w.resolve g' deposit).2 := by
  obtain ⟨-, near⟩ := changedNear_settleMove deposit start
  obtain ⟨same, moved⟩ := alikeFor_settleMove deposit (start ▸ g.staysNear_self w.id) alike
  have mover := id_settleMove (w := w) (g := g) deposit
  rw [← mover] at near moved
  obtain ⟨-, close⟩ := changedNear_settleDig near
  obtain ⟨same', dug⟩ := alikeFor_settleDig near moved
  have sees := dug.surroundings close
  unfold resolve
  dsimp only
  rw [same, same', id_settleDig, sees]
  exact ⟨rfl, mover ▸ dug⟩

/-- A turn comes out the same on grids that are alike for its worker. -/
theorem alikeFor_takeTurn {w' : Worker} {g₁ : Grid} {cost : Option Nat}
    (alike : AlikeFor w.id (g.position? w.id) g g')
    (turn : w.takeTurn g deposit = .ok (w', g₁, cost)) :
    ∃ g₁', w.takeTurn g' deposit = .ok (w', g₁', cost) ∧
      AlikeFor w.id (g.position? w.id) g₁ g₁' := by
  have sees := alike.surroundings (g.staysNear_self w.id)
  rw [takeTurn_eq] at turn
  cases turn
  have actor := (keptBy_acted (w := w) (g.surroundings w.id)).id
  have alike' : AlikeFor (w.acted (g.surroundings w.id)).id (g.position? w.id) g g' := by
    rwa [actor]
  obtain ⟨same, settled⟩ := alikeFor_resolve deposit (by rw [actor]) alike'
  rw [actor] at settled
  refine ⟨_, ?_, settled⟩
  rw [takeTurn_eq, sees, same]

end Reading

end Worker

section Apart

open Grid

variable {a b : Option Point} {v w : WorkerId} {g g' g'' : Grid}

/-- Nothing is in reach from two places that are five steps apart. -/
theorem not_inReach_of_far (far : ∀ p q, a = some p → b = some q → 5 ≤ p.distance q) {r : Point}
    (reach : InReach a r) : ¬InReach b r := by
  rintro ⟨q, rfl, close'⟩
  obtain ⟨p, rfl, close⟩ := reach
  have gap := far p q rfl rfl
  have way := p.distance_triangle r q
  rw [r.distance_comm q] at way
  omega

/-- The tile at an index is in nobody's reach but one's, since an index tells its place. -/
theorem index?_ne_of_apart (apart : ∀ r, InReach a r → ¬InReach b r) {q : Point} {i : Nat}
    (reach : InReach a q) (index : g.index? q = some i) :
    ∀ r, InReach b r → g.index? r ≠ some i := by
  intro r other same
  rw [index?_inj same index] at other
  exact apart q reach other

/-- A change in the reach of one worker makes no difference for another. -/
theorem Grid.ChangedNear.alikeFor (changed : ChangedNear w b g g') (different : v ≠ w)
    (apart : ∀ r, InReach a r → ¬InReach b r) : AlikeFor v a g g' where
  width := changed.width
  height := changed.height
  position := changed.position v different
  cell := fun _ i reach index => changed.cell i (index?_ne_of_apart apart reach index)

/-- In the reach of one worker the change that another makes later is no change. -/
theorem getElem?_of_inReach {h : Grid} (later : ChangedNear w b g g') (alike : AlikeFor v a g h)
    (apart : ∀ r, InReach a r → ¬InReach b r) {q : Point} {i : Nat} (reach : InReach a q)
    (index : g.index? q = some i) : g'.cells[i]? = h.cells[i]? := by
  rw [later.cell i (index?_ne_of_apart apart reach index), alike.cell q i reach index]

/-- Two changes in reaches that are apart give the same grid in either order, if each is the same
after the other as before it. -/
theorem Grid.ChangedNear.eq_of_swapped {gv gw g₁ g₂ : Grid} (different : v ≠ w)
    (apart : ∀ r, InReach a r → ¬InReach b r) (changedV : ChangedNear v a g gv)
    (laterW : ChangedNear w b gv g₁) (changedW : ChangedNear w b g gw)
    (laterV : ChangedNear v a gw g₂) (alikeV : AlikeFor v a gv g₂)
    (alikeW : AlikeFor w b gw g₁) : g₁ = g₂ := by
  have sameV := index?_congr changedV.width changedV.height
  have sameW := index?_congr changedW.width changedW.height
  apply ext_of_getElem?
  · rw [alikeV.width, laterW.width]
  · rw [alikeV.height, laterW.height]
  · intro i
    by_cases inV : ∃ q, InReach a q ∧ g.index? q = some i
    · obtain ⟨q, reach, index⟩ := inV
      exact getElem?_of_inReach laterW alikeV apart reach ((sameV q).trans index)
    by_cases inW : ∃ q, InReach b q ∧ g.index? q = some i
    · obtain ⟨q, reach, index⟩ := inW
      exact (getElem?_of_inReach laterV alikeW (fun r reach other => apart r other reach) reach
        ((sameW q).trans index)).symm
    · -- Out of both reaches nothing changes at all.
      have outV : ∀ q, InReach a q → g.index? q ≠ some i :=
        fun q reach index => inV ⟨q, reach, index⟩
      have outW : ∀ q, InReach b q → g.index? q ≠ some i :=
        fun q reach index => inW ⟨q, reach, index⟩
      rw [laterW.cell i fun q reach => sameV q ▸ outW q reach, changedV.cell i outV,
        laterV.cell i fun q reach => sameW q ▸ outV q reach, changedW.cell i outW]
  · intro id
    by_cases isV : id = v
    · subst isV
      rw [laterW.position id different, alikeV.position]
    by_cases isW : id = w
    · subst isW
      rw [alikeW.position, laterV.position id (Ne.symm different)]
    · rw [laterW.position id isW, changedV.position id isV, laterV.position id isV,
        changedW.position id isW]

/-- The turns of two different workers that are at least five steps apart, or of which one stands
nowhere, come out the same in either order: the same grid, the same workers, the same costs. -/
theorem takeTurn_comm_of_far {v w : Worker} {g : Grid} (different : v.id ≠ w.id)
    (far : ∀ p q, g.position? v.id = some p → g.position? w.id = some q → 5 ≤ p.distance q)
    (deposit : UInt8) :
    ∃ v' w' gv gw g' costV costW,
      v.takeTurn g deposit = .ok (v', gv, costV) ∧ w.takeTurn gv deposit = .ok (w', g', costW) ∧
      w.takeTurn g deposit = .ok (w', gw, costW) ∧ v.takeTurn gw deposit = .ok (v', g', costV) := by
  have apart : ∀ r, InReach (g.position? v.id) r → ¬InReach (g.position? w.id) r :=
    fun r => not_inReach_of_far far
  have apart' : ∀ r, InReach (g.position? w.id) r → ¬InReach (g.position? v.id) r :=
    fun r reach other => apart r other reach
  have turnV := v.takeTurn_eq g deposit
  have turnW := w.takeTurn_eq g deposit
  have changedV := Worker.changedNear_takeTurn deposit turnV
  have changedW := Worker.changedNear_takeTurn deposit turnW
  obtain ⟨g₁, turnW', alikeW⟩ :=
    Worker.alikeFor_takeTurn deposit (changedV.alikeFor (Ne.symm different) apart') turnW
  obtain ⟨g₂, turnV', alikeV⟩ :=
    Worker.alikeFor_takeTurn deposit (changedW.alikeFor different apart) turnV
  have laterW := Worker.changedNear_takeTurn deposit turnW'
  have laterV := Worker.changedNear_takeTurn deposit turnV'
  rw [changedV.position w.id (Ne.symm different)] at laterW
  rw [changedW.position v.id different] at laterV
  obtain rfl := changedV.eq_of_swapped different apart laterW changedW laterV alikeV alikeW
  exact ⟨_, _, _, _, _, _, _, turnV, turnW', turnW, turnV'⟩

/-- A worker that asks for a move and a dig along its heading. -/
def eager (id : WorkerId) (heading : Heading) : Worker :=
  ⟨id, { Cpu.initial with heading, movePending := true, digPending := true }, Routine.empty,
    ⟨[], .empty⟩⟩

/-- A corridor where two workers face each other. -/
def corridor : Grid :=
  ((clear 8 1).put 0 ⟨1, 0⟩).put 1 ⟨6, 0⟩

theorem takeTurn_comm_of_far_corridor :
    corridor.position? 0 = some ⟨1, 0⟩ ∧ corridor.position? 1 = some ⟨6, 0⟩ ∧
      ∃ v' w' gv gw g' costV costW,
        (eager 0 .right).takeTurn corridor 9 = .ok (v', gv, costV) ∧
        (eager 1 .left).takeTurn gv 9 = .ok (w', g', costW) ∧
        (eager 1 .left).takeTurn corridor 9 = .ok (w', gw, costW) ∧
        (eager 0 .right).takeTurn gw 9 = .ok (v', g', costV) := by
  have zero : corridor.position? 0 = some ⟨1, 0⟩ := by decide +kernel
  have one : corridor.position? 1 = some ⟨6, 0⟩ := by decide +kernel
  have far : ∀ p q, corridor.position? (eager 0 .right).id = some p →
      corridor.position? (eager 1 .left).id = some q → 5 ≤ p.distance q := by
    intro p q foundP foundQ
    obtain rfl := Option.some.inj (zero.symm.trans foundP)
    obtain rfl := Option.some.inj (one.symm.trans foundQ)
    decide
  exact ⟨zero, one, takeTurn_comm_of_far (by decide) far 9⟩

end Apart

end Formicary
