import Mathlib.Order.Bounds.Basic
import Formicary.Proofs.GridAccess
import Formicary.Proofs.TickOrder

/-!
# How long a worker rests

A step that costs `n` ticks makes its worker due only when the clock is a multiple of `n + 1`. Until
then the worker runs no step and asks for nothing, so that ticks do no more to it than to refresh
its senses; and no other worker can move it. The rest is as long as the cost says only if the step
was run at such a multiple itself: at other clocks it is shorter.
-/

namespace Formicary

namespace Worker

/-- A worker that waits since a step with a cost, with no more than its senses changed. -/
structure Resting (x w : Worker) (cost : Nat) : Prop where
  pace : x.routine.divisor = cost + 1
  /-- There is no step that it may run in a turn. -/
  spent : (x.routine.localDone && !x.routine.worldDone) = false
  cpu : ∃ s, x.cpu = w.cpu.observe s

variable {w w' x : Worker} {g g' : Grid} {cost clock budget : Nat} {amount : UInt8} {id : WorkerId}

section Turns

/-- A worker that asks for nothing only looks around at the end of its turn. -/
theorem resolve_of_quiet (quiet : w.cpu.Quiet) (g : Grid) (amount : UInt8) :
    w.resolve g amount = ({ w with cpu := w.cpu.observe (g.surroundings w.id) }, g) := by
  unfold resolve settleMove settleDig
  simp [quiet.move, quiet.dig]

theorem position?_settleMove (other : id ≠ w.id) :
    (w.settleMove g amount).2.position? id = g.position? id := by
  unfold settleMove
  split
  · split
    · next p leads =>
      have put : (g.put w.id p).position? id = g.position? id := by
        rw [Grid.position?_put, if_neg other]
      unfold layScent
      split
      · exact (Grid.position?_deposit ..).trans put
      · exact put
    · rfl
  · rfl

theorem position?_settleDig : (w.settleDig g).2.position? id = g.position? id := by
  unfold settleDig
  split
  · split
    · exact Grid.position?_modify ..
    · rfl
  · rfl

/-- No worker moves another. -/
theorem position?_takeTurn {paid : Option Nat} (other : id ≠ w.id)
    (turn : w.takeTurn g amount = .ok (w', g', paid)) : g'.position? id = g.position? id := by
  rw [takeTurn_eq] at turn
  cases turn
  have other : id ≠ (w.acted (g.surroundings w.id)).id := by
    rw [(keptBy_acted _).id]
    exact other
  exact position?_settleDig.trans (position?_settleMove other)

end Turns

section Rest

theorem Resting.quiet (rests : x.Resting w cost) (quiet : w.cpu.Quiet) : x.cpu.Quiet := by
  obtain ⟨s, same⟩ := rests.cpu
  rw [same]
  exact ⟨quiet.move, quiet.dig⟩

theorem Resting.reset (rests : x.Resting w cost) : x.reset.Resting w cost :=
  ⟨rests.pace, rfl, rests.cpu⟩

/-- Before it is due, a worker runs no local step. -/
theorem Resting.runLocal (rests : x.Resting w cost) (early : ¬ cost + 1 ∣ clock) (budget : Nat) :
    x.runLocal clock budget = .ok (x, 0) := by
  have waits : x.routine.isDue clock = false := by
    rw [Routine.isDue, rests.pace, decide_eq_false_iff_not]
    exact fun multiple => early (Nat.dvd_of_mod_eq_zero multiple)
  refine runLocal_eq_ok_iff.mpr ⟨x.routine, x.cpu, ?_, rfl⟩
  exact Routine.runLocal_eq_ok_iff.mpr (.inl ⟨waits, rfl, rfl, rfl⟩)

/-- In its turns it runs no step either, and leaves the grid as it is. -/
theorem Resting.takeTurn (rests : x.Resting w cost) (quiet : w.cpu.Quiet) (g : Grid)
    (amount : UInt8) :
    ∃ x', x.takeTurn g amount = .ok (x', g, none) ∧ x'.Resting w cost := by
  have none : x.worldOp? = none := by
    rw [worldOp?, Routine.worldOp?, rests.spent, if_neg Bool.false_ne_true]
  have still : x.routine.rested = x.routine := by
    rw [Routine.rested, rests.spent, if_neg Bool.false_ne_true]
  have acted (s : Surroundings) : x.acted s = x := by
    unfold Worker.acted
    rw [none, still]
  rw [takeTurn_eq, acted, resolve_of_quiet (rests.quiet quiet), none]
  obtain ⟨s, same⟩ := rests.cpu
  exact ⟨_, rfl, rests.pace, rests.spent, g.surroundings x.id, by rw [same]; rfl⟩

theorem Resting.isDue (rests : x.Resting w cost) (multiple : cost + 1 ∣ clock) :
    x.routine.isDue clock = true := by
  rw [Routine.isDue, rests.pace, decide_eq_true_eq]
  exact Nat.mod_eq_zero_of_dvd multiple

end Rest

theorem find?_of_forall₂ {R : Worker → Worker → Prop} {ws ws' : List Worker}
    (related : List.Forall₂ R ws ws') (same : ∀ w w', R w w' → w'.id = w.id)
    (found : ws.find? (·.id = id) = some x) : ∃ x', ws'.find? (·.id = id) = some x' ∧ R x x' := by
  induction related with
  | nil => cases found
  | @cons w w' ws ws' first rest ih =>
    rw [List.find?_cons, same w w' first]
    rw [List.find?_cons] at found
    cases here : decide (w.id = id) with
    | true =>
      rw [here] at found
      cases found
      exact ⟨w', rfl, first⟩
    | false =>
      rw [here] at found
      exact ih found

end Worker

namespace Colony

/-- What the host does leaves a worker and its place alone, and gives its number to no other. It does
not let the worker act by itself either: a local part at a clock when the worker is due would end
its rest. -/
structure Spares (id : WorkerId) (d e : Colony) : Prop where
  worker : e.worker? id = d.worker? id
  place : e.grid.position? id = d.grid.position? id
  clock : e.clock = d.clock
  distinct : e.ids.Nodup

/-- What can become of a colony up to a clock while the host leaves a worker and its place alone:
the parts of ticks, and between any two of them all that the host does elsewhere. -/
inductive Meanwhile (id : WorkerId) (due : Nat) (c : Colony) : Colony → Prop where
  | refl : Meanwhile id due c c
  | host {d e : Colony} (before : Meanwhile id due c d) (spares : Spares id d e) :
    Meanwhile id due c e
  | part {d e : Colony} {p : Part} (before : Meanwhile id due c d) (early : d.clock < due)
    (performed : d.perform (.part p) = .ok e) : Meanwhile id due c e

/-- Since a colony stood at some clock, a worker has been at rest where it was. -/
structure AtRest (id : WorkerId) (cost : Nat) (w : Worker) (c d : Colony) : Prop where
  later : c.clock ≤ d.clock
  distinct : d.ids.Nodup
  place : d.grid.position? id = c.grid.position? id
  worker : ∃ x, d.worker? id = some x ∧ x.Resting w cost

variable {c d e : Colony} {id : WorkerId} {w x : Worker} {cost due : Nat}

theorem eq_of_worker? (distinct : d.ids.Nodup) (found : d.worker? id = some x) {v : Worker}
    (member : v ∈ d.workers) (same : v.id = id) : v = x := by
  refine List.inj_on_of_nodup_map distinct member (List.mem_of_find?_eq_some found) ?_
  rw [same]
  exact (of_decide_eq_true (List.find?_some found :)).symm

/-- Turns move only workers that do not leave the grid alone. -/
theorem position?_takeTurns {ws ws' : List Worker} {g g' : Grid} {amount : UInt8} {worldSteps : Nat}
    (still : ∀ v ∈ ws, v.id = id → ∀ g, ∃ v', v.takeTurn g amount = .ok (v', g, none))
    (turns : takeTurns amount g ws = .ok (g', ws', worldSteps)) :
    g'.position? id = g.position? id := by
  induction ws generalizing g ws' worldSteps with
  | nil =>
    cases turns
    rfl
  | cons v ws ih =>
    rw [List.forall_mem_cons] at still
    unfold takeTurns at turns
    split at turns
    · cases turns
    · next v' after paid turn =>
      split at turns
      · cases turns
      · next last vs others rest =>
        cases turns
        rw [ih still.2 rest]
        by_cases same : v.id = id
        · obtain ⟨v'', calm⟩ := still.1 same g
          cases calm.symm.trans turn
          rfl
        · exact Worker.position?_takeTurn (Ne.symm same) turn

section Parts

theorem AtRest.reset (rests : AtRest id cost w c d) : AtRest id cost w c d.reset where
  later := rests.later
  distinct := by
    have same : d.reset.ids = d.ids := by
      unfold ids Colony.reset
      rw [List.map_map]
      rfl
    rw [same]
    exact rests.distinct
  place := rests.place
  worker := by
    obtain ⟨x, found, resting⟩ := rests.worker
    refine ⟨x.reset, ?_, resting.reset⟩
    show (d.workers.map Worker.reset).find? _ = _
    rw [List.find?_map]
    exact congrArg (Option.map Worker.reset) found

/-- In the local part every worker has its own. -/
theorem worker?_runLocal (runs : d.runLocal = .ok e) (found : d.worker? id = some x) :
    ∃ x' n, e.worker? id = some x' ∧
      x.runLocal d.clock d.settings.maxStepsPerTick = .ok (x', n) ∧ e.ids = d.ids := by
  obtain ⟨-, ws, ran, locals, rfl⟩ := runLocal_eq_ok_iff.mp runs
  have related := forall₂_of_runLocalAll locals
  have same (v v' : Worker)
      (first : ∃ n, v.runLocal d.clock d.settings.maxStepsPerTick = .ok (v', n)) :
      v'.id = v.id := by
    obtain ⟨n, first⟩ := first
    obtain ⟨r, c, -, rfl⟩ := Worker.runLocal_eq_ok_iff.mp first
    rfl
  obtain ⟨x', found', n, first⟩ := Worker.find?_of_forall₂ related same found
  exact ⟨x', n, found', first, Worker.map_id_of_forall₂ related same⟩

/-- In the world part every worker has its turn. -/
theorem worker?_runWorld {stats : TickStats} (runs : d.runWorld = .ok (e, stats))
    (found : d.worker? id = some x) :
    ∃ x' before after paid, e.worker? id = some x' ∧
      x.takeTurn before d.settings.scentDeposit = .ok (x', after, paid) ∧ e.ids = d.ids := by
  obtain ⟨-, g, ws, worldSteps, turns, made⟩ := runWorld_eq_ok_iff.mp runs
  cases made
  have related := forall₂_of_takeTurns turns
  have same (v v' : Worker) (first : ∃ before after paid,
      v.takeTurn before d.settings.scentDeposit = .ok (v', after, paid)) : v'.id = v.id := by
    obtain ⟨before, after, paid, turn⟩ := first
    exact (Worker.keptBy_takeTurn turn).1.id
  obtain ⟨x', found', before, after, paid, turn⟩ := Worker.find?_of_forall₂ related same found
  exact ⟨x', before, after, paid, found', turn, Worker.map_id_of_forall₂ related same⟩

theorem AtRest.runLocal (rests : AtRest id cost w c d) (early : ¬ cost + 1 ∣ d.clock)
    (runs : d.runLocal = .ok e) : AtRest id cost w c e := by
  obtain ⟨x, found, resting⟩ := rests.worker
  obtain ⟨x', n, found', first, ids⟩ := worker?_runLocal runs found
  cases (resting.runLocal early _).symm.trans first
  obtain ⟨-, ws, ran, -, rfl⟩ := runLocal_eq_ok_iff.mp runs
  exact ⟨rests.later, ids ▸ rests.distinct, rests.place, x, found', resting⟩

theorem AtRest.runWorld (rests : AtRest id cost w c d) (quiet : w.cpu.Quiet) {stats : TickStats}
    (runs : d.runWorld = .ok (e, stats)) : AtRest id cost w c e := by
  obtain ⟨x, found, resting⟩ := rests.worker
  obtain ⟨x', before, after, paid, found', turn, ids⟩ := worker?_runWorld runs found
  obtain ⟨x'', calm, resting'⟩ := resting.takeTurn quiet before d.settings.scentDeposit
  cases calm.symm.trans turn
  obtain ⟨-, g, ws, worldSteps, turns, made⟩ := runWorld_eq_ok_iff.mp runs
  cases made
  refine ⟨Nat.le_succ_of_le rests.later, ids ▸ rests.distinct, ?_, x', found', resting'⟩
  rw [← rests.place]
  refine position?_takeTurns ?_ turns
  intro v member here g
  obtain rfl := eq_of_worker? rests.distinct found member here
  obtain ⟨v', calm, -⟩ := resting.takeTurn quiet g d.settings.scentDeposit
  exact ⟨v', calm⟩

/-- No part of a tick before it is due ends the rest of a worker. -/
theorem AtRest.part (rests : AtRest id cost w c d) (quiet : w.cpu.Quiet)
    (early : ¬ cost + 1 ∣ d.clock) {p : Part} (performed : d.perform (.part p) = .ok e) :
    AtRest id cost w c e := by
  cases p with
  | reset =>
    cases performed
    exact rests.reset
  | runLocal => exact rests.runLocal early performed
  | await =>
    obtain ⟨-, rfl⟩ := await_eq_ok_iff.mp performed
    exact ⟨rests.later, rests.distinct, rests.place, rests.worker⟩
  | runWorld =>
    obtain ⟨⟨e, stats⟩, runs, rfl⟩ := map_eq_ok_iff.mp performed
    exact rests.runWorld quiet runs

theorem AtRest.host (rests : AtRest id cost w c d) (spares : Spares id d e) :
    AtRest id cost w c e where
  later := spares.clock ▸ rests.later
  distinct := spares.distinct
  place := spares.place.trans rests.place
  worker := spares.worker ▸ rests.worker

end Parts

/-- A whole tick is four parts. -/
theorem Meanwhile.tick (meanwhile : Meanwhile id due c d) (early : d.clock < due)
    {stats : TickStats} (ticks : d.tick = .ok (e, stats)) : Meanwhile id due c e := by
  unfold Colony.tick at ticks
  obtain ⟨done, runs, rest⟩ := bind_eq_ok_iff.mp ticks
  obtain ⟨awaited, waits, ends⟩ := bind_eq_ok_iff.mp rest
  have clock : done.clock = d.clock := by
    obtain ⟨-, ws, ran, -, rfl⟩ := runLocal_eq_ok_iff.mp runs
    rfl
  have clock' : awaited.clock = d.clock := by
    obtain ⟨-, rfl⟩ := await_eq_ok_iff.mp waits
    exact clock
  have opened : Meanwhile id due c d.reset := meanwhile.part (p := .reset) early rfl
  have ran : Meanwhile id due c done := opened.part (p := .runLocal) early runs
  have joined : Meanwhile id due c awaited := ran.part (p := .await) (clock ▸ early) waits
  exact joined.part (p := .runWorld) (clock' ▸ early) (map_eq_ok_iff.mpr ⟨_, ends, rfl⟩)

end Colony

end Formicary
