import Formicary.Proofs.TickEffects
import Formicary.Proofs.TurnOutcomes

/-!
# What is sensed is what can be done

A worker senses its four neighbouring tiles without moving, and moves without looking. Both ask the
same of the tile ahead, on the same record of who stands where: the way is sensed as open exactly
when a move along it succeeds, and its scents are those of the tile that the move leads to.
-/

namespace Formicary

namespace Grid

variable {g g' : Grid} {w : WorkerId} {h : Heading} {p q : Point}

theorem move?_eq_some_iff :
    g.move? w h = some g' ↔
      ∃ p, g.position? w = some p ∧ g.isFree (p.ahead h) = true ∧ g' = g.put w (p.ahead h) := by
  unfold move? destination? ahead?
  rw [Option.map_eq_some_iff]
  constructor
  · rintro ⟨q, leads, rfl⟩
    obtain ⟨ahead, free⟩ := Option.filter_eq_some_iff.mp leads
    obtain ⟨p, stands, rfl⟩ := Option.map_eq_some_iff.mp ahead
    exact ⟨p, stands, free, rfl⟩
  · rintro ⟨p, stands, free, rfl⟩
    refine ⟨p.ahead h, Option.filter_eq_some_iff.mpr ⟨?_, free⟩, rfl⟩
    rw [stands, Option.map_some]

theorem isSome_move? : (g.move? w h).isSome = (g.surroundings w).isOpen.get h := by
  rw [isOpen_surroundings, move?, Option.isSome_map]

/-- The scents that are sensed along an open way are those of the tile ahead. -/
theorem scents_surroundings (stands : g.position? w = some p)
    (free : g.isFree (p.ahead h) = true) :
    g.scent? (p.ahead h) = some ((g.surroundings w).scents.get h) := by
  unfold surroundings
  rw [stands]
  simp only [Around.get_ofFn]
  unfold isFree at free
  unfold scent?
  cases found : g.cell? (p.ahead h) with
  | none => simp [found] at free
  | some cell => rfl

/-- The tile that a worker leaves is free, unless it was filled under the worker. -/
theorem isFree_put (stands : g.position? w = some p) (clear : g.tile? p = some .clear)
    (elsewhere : q ≠ p) : (g.put w q).isFree p = true := by
  rw [tile?, cell?] at clear
  cases index : g.index? p with
  | none => simp [index] at clear
  | some i =>
    rw [index, Option.bind_some] at clear
    apply isFree_iff.mpr
    refine ⟨i, (index?_put g w q p).trans index, ?_, ?_⟩
    · rw [map_getElem?_put g w q fun _ _ => rfl]
      exact clear
    · have apart : g.index? q ≠ some i := fun same => elsewhere (index?_inj same index)
      rw [occupant?_put, if_neg apart, occupant?_remove, stands, Option.bind_some, if_pos index]

/-- Where the two records of who stands where agree, a worker senses a way as open exactly when it
can move there, which is when the tile ahead is open and nobody's place. A check of the way fails
exactly when a move would. After the move the worker is one tile further; the tile it left can be
entered if it is open; no other worker, no tile and no scent has changed, and the scents it sensed
are those of its new tile. -/
theorem sensing_agrees_with_moving (consistent : g.Consistent) (w : WorkerId) (h : Heading) :
    ((g.surroundings w).isOpen.get h = true ↔ ∃ g', g.move? w h = some g') ∧
    ((g.surroundings w).isOpen.get h = true ↔ ∃ q, g.OpenAhead w h q) ∧
    (∀ c : Cpu, c.heading = h →
      ((c.checkAhead (g.surroundings w)).failed = true ↔ g.move? w h = none)) ∧
    ∀ g', g.move? w h = some g' → ∃ p q, g.position? w = some p ∧
      q.x = p.x + h.offset.1 ∧ q.y = p.y + h.offset.2 ∧ g'.position? w = some q ∧
      (g.tile? p = some .clear → g'.isFree p = true) ∧
      (∀ other, other ≠ w → g'.position? other = g.position? other) ∧
      (∀ r, g'.tile? r = g.tile? r) ∧ (∀ r, g'.scent? r = g.scent? r) ∧
      g.scent? q = some ((g.surroundings w).scents.get h) ∧ g.place? w q = some g' ∧
      g'.Consistent := by
  refine ⟨?_, ?_, ?_, ?_⟩
  · rw [← isSome_move?, Option.isSome_iff_exists]
  · simp only [isOpen_surroundings, Option.isSome_iff_exists, destination?_eq_some_iff consistent]
  · intro c faces
    rw [← Option.isNone_iff_eq_none, ← Option.not_isSome, isSome_move?, ← faces]
    rfl
  · intro g' moved
    obtain ⟨p, stands, free, rfl⟩ := move?_eq_some_iff.mp moved
    refine ⟨p, p.ahead h, stands, rfl, rfl, ?_, ?_, ?_, ?_, ?_, scents_surroundings stands free, ?_,
      consistent.put free⟩
    · rw [position?_put, if_pos rfl]
    · intro clear
      exact isFree_put stands clear (p.ahead_ne h)
    · intro other different
      rw [position?_put, if_neg different]
    · exact g.tile?_put w (p.ahead h)
    · exact g.scent?_put w (p.ahead h)
    · rw [place?, if_pos free]

theorem sensing_agrees_with_moving_passing :
    passing.position? 7 = some ⟨1, 0⟩ ∧ passing.move? 7 .left = none ∧
    passing.move? 7 .up = none ∧ passing.move? 9 .right = none ∧
    ∃ g', passing.move? 7 .right = some g' ∧ g'.position? 7 = some ⟨2, 0⟩ ∧
      g'.position? 8 = passing.position? 8 ∧ g'.isFree ⟨1, 0⟩ = true := by
  have built : passing.Built := (((Built.clear 3 2).perform _).perform _).perform _
  have seven : passing.position? 7 = some ⟨1, 0⟩ := by decide +kernel
  obtain ⟨way, -, -, moved⟩ := sensing_agrees_with_moving built.consistent 7 .right
  have blocked (w : WorkerId) (h : Heading)
      (wall : (passing.surroundings w).isOpen.get h = false) : passing.move? w h = none := by
    obtain ⟨-, -, fails, -⟩ := sensing_agrees_with_moving built.consistent w h
    apply (fails { Cpu.initial with heading := h } rfl).mp
    show (!(passing.surroundings w).isOpen.get h) = true
    rw [wall]
    rfl
  refine ⟨seven, blocked 7 .left (by decide +kernel), blocked 7 .up (by decide +kernel),
    blocked 9 .right (by decide +kernel), ?_⟩
  obtain ⟨g', moves⟩ := way.mp (by decide +kernel)
  obtain ⟨p, q, stands, across, down, reached, left, others, -⟩ := moved g' moves
  cases seven.symm.trans stands
  have east : q = ⟨2, 0⟩ := by
    obtain ⟨x, y⟩ := q
    cases across
    cases down
    rfl
  exact ⟨g', moves, reached.trans (congrArg some east), others 8 (by decide),
    left (by decide +kernel)⟩

end Grid

end Formicary
