import Formicary.Proofs.ColonyHistory

/-!
# The parts of a tick, worker by worker

What the local part and the world part of a tick make of a routine, of a worker, and of each worker
of a list in turn. The later invariants of workers are read off from here.
-/

namespace Formicary

namespace Routine

variable {r r' : Routine} {c c' : Cpu} {clock budget ran : Nat}

/-- The local part either waits for a tick when the worker is due, or runs steps and is done. -/
theorem runLocal_eq_ok_iff :
    r.runLocal c clock budget = .ok (r', c', ran) ↔
      (r.isDue clock = false ∧ r' = r ∧ c' = c ∧ ran = 0) ∨
      (r.isDue clock = true ∧ ∃ left, runSteps r.program budget c = .ok (c', left) ∧
        ran = budget - left ∧
        r' = { r with localDone := true, divisor := 1 }.note
          (if 0 < ran then .executing else .halted)) := by
  unfold runLocal
  cases due : r.isDue clock with
  | false =>
    simp only [Bool.false_eq_true, if_false, Except.ok.injEq, Prod.mk.injEq, true_and, false_and,
      or_false]
    constructor
    · rintro ⟨rfl, rfl, rfl⟩
      exact ⟨rfl, rfl, rfl⟩
    · rintro ⟨rfl, rfl, rfl⟩
      exact ⟨rfl, rfl, rfl⟩
  | true =>
    simp only [if_true, true_and, Bool.true_eq_false, false_and, false_or]
    cases runSteps r.program budget c with
    | error fault => simp
    | ok last =>
      simp only [Except.ok.injEq, Prod.mk.injEq]
      constructor
      · rintro ⟨rfl, rfl, rfl⟩
        exact ⟨_, rfl, rfl, rfl⟩
      · rintro ⟨left, rfl, rfl, rfl⟩
        exact ⟨rfl, rfl, rfl⟩

theorem note_eq (r : Routine) (progress : Progress) :
    ∃ noted, r.note progress = { r with progress := noted } := by
  unfold note
  split
  · exact ⟨r.progress, rfl⟩
  · exact ⟨progress, rfl⟩

/-- What the local part does to a routine: nothing before it is due, else it is marked as done and
the pace is reset. -/
theorem runLocal_cases (runs : r.runLocal c clock budget = .ok (r', c', ran)) :
    (r' = r ∧ c' = c) ∨
      ∃ progress, r' = { r with localDone := true, divisor := 1, progress } ∧
        ∃ left, runSteps r.program budget c = .ok (c', left) := by
  rcases runLocal_eq_ok_iff.mp runs with ⟨-, rfl, rfl, -⟩ | ⟨-, left, steps, -, same⟩
  · exact .inl ⟨rfl, rfl⟩
  · obtain ⟨progress, noted⟩ := note_eq { r with localDone := true, divisor := 1 }
      (if 0 < ran then .executing else .halted)
    exact .inr ⟨progress, same.trans noted, left, steps⟩

theorem rested_eq (r : Routine) :
    ∃ worldDone progress, r.rested = { r with worldDone, progress } := by
  unfold rested
  split
  · obtain ⟨progress, noted⟩ := note_eq { r with worldDone := true } .halted
    exact ⟨true, progress, noted⟩
  · exact ⟨r.worldDone, r.progress, rfl⟩

/-- The world part counts as done only after the local part. -/
theorem rested_cases (r : Routine) :
    (r.localDone = true ∧ ∃ progress, r.rested = { r with worldDone := true, progress }) ∨
      r.rested = r := by
  unfold rested
  split
  · next ready =>
    obtain ⟨progress, noted⟩ := note_eq { r with worldDone := true } .halted
    rw [Bool.and_eq_true] at ready
    exact .inl ⟨ready.1, progress, noted⟩
  · exact .inr rfl

theorem ready_of_worldOp? {op : Op} (runs : r.worldOp? c = some op) :
    r.localDone = true ∧ r.worldDone = false ∧ r.rested.localDone = true ∧
      r.rested.worldDone = true := by
  unfold worldOp? at runs
  unfold rested
  split at runs
  · next ready =>
    obtain ⟨progress, noted⟩ := note_eq { r with worldDone := true } .halted
    rw [if_pos ready, noted]
    rw [Bool.and_eq_true, Bool.not_eq_true'] at ready
    exact ⟨ready.1, ready.2, ready.1, rfl⟩
  · cases runs

end Routine

namespace Worker

variable {w w' : Worker} {g g' : Grid} {amount : UInt8} {cost : Option Nat}

theorem runLocal_eq_ok_iff {clock budget ran : Nat} :
    w.runLocal clock budget = .ok (w', ran) ↔
      ∃ r c, w.routine.runLocal w.cpu clock budget = .ok (r, c, ran) ∧
        w' = { w with cpu := c, routine := r } := by
  unfold runLocal
  rw [map_eq_ok_iff]
  constructor
  · rintro ⟨⟨r, c, n⟩, runs, same⟩
    cases same
    exact ⟨r, c, runs, rfl⟩
  · rintro ⟨r, c, runs, rfl⟩
    exact ⟨(r, c, ran), runs, rfl⟩

/-- After its turn a worker is as after its step, without requests and with new senses. -/
theorem takeTurn_cases (turn : w.takeTurn g amount = .ok (w', g', cost)) :
    cost = w.worldOp?.map Op.ticks ∧ ∃ failed s s',
      w' = { w.acted s with
        cpu := Cpu.observe { (w.acted s).cpu with
          movePending := false, digPending := false, failed } s' } := by
  rw [takeTurn_eq] at turn
  obtain ⟨failed, g₁, settled⟩ := (w.acted (g.surroundings w.id)).exists_resolve g amount
  rw [settled] at turn
  cases turn
  exact ⟨rfl, failed, _, _, rfl⟩

end Worker

namespace Colony

variable {ws ws' : List Worker}

theorem forall₂_of_runLocalAll {clock budget ran : Nat}
    (runs : runLocalAll clock budget ws = .ok (ws', ran)) :
    List.Forall₂ (fun w w' => ∃ n, w.runLocal clock budget = .ok (w', n)) ws ws' := by
  induction ws generalizing ws' ran with
  | nil =>
    cases runs
    exact .nil
  | cons w ws ih =>
    unfold runLocalAll at runs
    split at runs
    · cases runs
    · next v n first =>
      split at runs
      · cases runs
      · next vs m rest =>
        cases runs
        exact .cons ⟨n, first⟩ (ih rest)

theorem forall₂_of_takeTurns {g g' : Grid} {amount : UInt8} {worldSteps : Nat}
    (turns : takeTurns amount g ws = .ok (g', ws', worldSteps)) :
    List.Forall₂ (fun w w' => ∃ before after cost,
      w.takeTurn before amount = .ok (w', after, cost)) ws ws' := by
  induction ws generalizing g ws' worldSteps with
  | nil =>
    cases turns
    exact .nil
  | cons w ws ih =>
    unfold takeTurns at turns
    split at turns
    · cases turns
    · next v after cost first =>
      split at turns
      · cases turns
      · next last vs n rest =>
        cases turns
        exact .cons ⟨g, after, cost, first⟩ (ih rest)

end Colony

end Formicary
