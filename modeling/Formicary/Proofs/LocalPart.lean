import Formicary.Proofs.TickParts

/-!
# The local part of a tick

What the local part of a tick runs is a number of steps without a cost, one after the other, each of
them the one that the program counter names. There are as many as the budget allows, unless the
worker leaves its program or meets a step with a cost before. So a budget can be spent in two parts,
the second of them at any clock: the local part makes the worker due at all of them.
-/

namespace Formicary

theorem Op.isLocal_iff {op : Op} : op.isLocal = true ↔ op.ticks = 0 :=
  beq_iff_eq

namespace Routine

/-- A worker gets from one state to another by a number of steps without a cost. -/
inductive LocalSteps (program : Program) : Nat → Cpu → Cpu → Prop where
  | zero (c : Cpu) : LocalSteps program 0 c c
  | succ {n : Nat} {c d e : Cpu} {i : Instruction} (current : current? program c = some i)
    (free : i.op.ticks = 0) (runs : i.effect c = .ok d)
    (rest : LocalSteps program n d.advance e) : LocalSteps program (n + 1) c e

/-- A worker that is out of its program or at a step with a cost. -/
def Blocked (program : Program) (c : Cpu) : Prop :=
  current? program c = none ∨ ∃ i, current? program c = some i ∧ 0 < i.op.ticks

variable {program : Program} {c d e : Cpu} {m n k left : Nat}

theorem nextLocal?_eq_some_iff {i : Instruction} :
    nextLocal? program c = some i ↔ current? program c = some i ∧ i.op.ticks = 0 := by
  rw [nextLocal?, Option.filter_eq_some_iff, Op.isLocal_iff]

theorem nextLocal?_eq_none_iff : nextLocal? program c = none ↔ Blocked program c := by
  unfold nextLocal? Blocked
  cases current? program c with
  | none => simp
  | some i => simp [Op.isLocal_iff, Nat.pos_iff_ne_zero]

theorem LocalSteps.of_blocked (blocked : Blocked program c) (steps : LocalSteps program k c d) :
    k = 0 ∧ d = c := by
  cases steps with
  | zero => exact ⟨rfl, rfl⟩
  | succ current free runs rest =>
    have next := nextLocal?_eq_some_iff.mpr ⟨current, free⟩
    rw [nextLocal?_eq_none_iff.mpr blocked] at next
    cases next

theorem LocalSteps.trans (first : LocalSteps program m c d) (second : LocalSteps program n d e) :
    LocalSteps program (m + n) c e := by
  induction first with
  | zero c =>
    rw [Nat.zero_add]
    exact second
  | succ current free runs rest ih =>
    rw [Nat.add_right_comm]
    exact .succ current free runs (ih second)

/-- A budget is left over exactly where a worker is blocked. -/
theorem runSteps_eq_ok_iff {budget : Nat} :
    runSteps program budget c = .ok (d, left) ↔
      ∃ k, k + left = budget ∧ LocalSteps program k c d ∧ (0 < left → Blocked program d) := by
  induction budget generalizing c with
  | zero =>
    constructor
    · intro runs
      cases runs
      exact ⟨0, rfl, .zero _, fun some => absurd some (Nat.lt_irrefl 0)⟩
    · rintro ⟨k, spent, steps, -⟩
      obtain ⟨rfl, rfl⟩ := Nat.add_eq_zero_iff.mp spent
      cases steps
      rfl
  | succ budget ih =>
    unfold runSteps
    cases next : nextLocal? program c with
    | none =>
      have blocked := nextLocal?_eq_none_iff.mp next
      simp only [Except.ok.injEq, Prod.mk.injEq]
      constructor
      · rintro ⟨rfl, rfl⟩
        exact ⟨0, Nat.zero_add _, .zero c, fun _ => blocked⟩
      · rintro ⟨k, spent, steps, -⟩
        obtain ⟨rfl, rfl⟩ := steps.of_blocked blocked
        exact ⟨rfl, by omega⟩
    | some i =>
      obtain ⟨current, free⟩ := nextLocal?_eq_some_iff.mp next
      simp only [Instruction.runLocal_eq (Op.isLocal_iff.mpr free)]
      constructor
      · intro runs
        split at runs
        · cases runs
        · next after effect =>
          obtain ⟨k, spent, steps, blocked⟩ := ih.mp runs
          exact ⟨k + 1, by omega, .succ current free effect steps, blocked⟩
      · rintro ⟨k, spent, steps, blocked⟩
        cases steps with
        | zero =>
          have stuck := nextLocal?_eq_none_iff.mpr (blocked (by omega))
          rw [next] at stuck
          cases stuck
        | succ current' free' effect rest =>
          cases current.symm.trans current'
          simp only [effect]
          exact ih.mpr ⟨_, by omega, rest, blocked⟩

/-- A budget can be spent in two parts. -/
theorem runSteps_add {left' : Nat} (first : runSteps program m c = .ok (d, left))
    (second : runSteps program n d = .ok (e, left')) :
    runSteps program (m + n) c = .ok (e, left + left') := by
  obtain ⟨k, spent, steps, blocked⟩ := runSteps_eq_ok_iff.mp first
  obtain ⟨k', spent', steps', blocked'⟩ := runSteps_eq_ok_iff.mp second
  refine runSteps_eq_ok_iff.mpr ⟨k + k', by omega, steps.trans steps', fun some => ?_⟩
  rcases Nat.eq_zero_or_pos left with none | some'
  · exact blocked' (by omega)
  · -- The worker was blocked already after the first part, so it has not moved in the second.
    obtain ⟨-, rfl⟩ := steps'.of_blocked (blocked some')
    exact blocked some'

/-- When the worker is due, the local part is some steps without a cost. -/
theorem exists_runLocal_of_isDue (r : Routine) {clock : Nat} (due : r.isDue clock = true)
    (fits : c.Fits) (budget : Nat) :
    ∃ r' d left, runSteps r.program budget c = .ok (d, left) ∧ left ≤ budget ∧ d.Fits ∧ c.Keeps d ∧
      r.runLocal c clock budget = .ok (r', d, budget - left) ∧
      r'.program = r.program ∧ r'.divisor = 1 := by
  obtain ⟨d, left, runs, few, inside, keeps⟩ := exists_runSteps r.program budget fits
  obtain ⟨progress, noted⟩ := note_eq { r with localDone := true, divisor := 1 }
    (if 0 < budget - left then .executing else .halted)
  refine ⟨_, d, left, runs, few, inside, keeps,
    runLocal_eq_ok_iff.mpr (.inr ⟨due, left, runs, rfl, rfl⟩), ?_, ?_⟩
  · rw [noted]
  · rw [noted]

/-- Before a worker is due, the local part does nothing. When it is due, it runs a number of steps
without a cost, fewer than the budget only if the worker is then out of its program or at a step
with a cost; it makes no request, looks at nothing and leaves the size of the memory. A budget can
be spent in two parts, the second at any clock, with the same outcome. -/
theorem runLocal_spec (r : Routine) {c : Cpu} (stack : c.sp.toNat ≤ c.ram.size)
    (memory : c.ram.size ≤ 65535) (clock : Nat) :
    (r.isDue clock = false → ∀ budget, r.runLocal c clock budget = .ok (r, c, 0)) ∧
    (r.isDue clock = true → ∀ budget, ∃ r' d k,
      r.runLocal c clock budget = .ok (r', d, k) ∧ k ≤ budget ∧ LocalSteps r.program k c d ∧
      (k < budget → current? r.program d = none ∨
        ∃ i, current? r.program d = some i ∧ 0 < i.op.ticks) ∧
      d.movePending = c.movePending ∧ d.digPending = c.digPending ∧ d.isOpen = c.isOpen ∧
      d.nose.neighbors = c.nose.neighbors ∧ d.ram.size = c.ram.size) ∧
    (r.isDue clock = true → ∀ m n clock', ∃ r₁ d k r₂ e k' r₃,
      r.runLocal c clock m = .ok (r₁, d, k) ∧ r₁.runLocal d clock' n = .ok (r₂, e, k') ∧
      r.runLocal c clock (m + n) = .ok (r₃, e, k + k')) := by
  have fits : c.Fits := ⟨stack, memory⟩
  refine ⟨fun early budget => ?_, fun due budget => ?_, fun due m n clock' => ?_⟩
  · exact runLocal_eq_ok_iff.mpr (.inl ⟨early, rfl, rfl, rfl⟩)
  · obtain ⟨r', d, left, steps, few, -, keeps, runs, -⟩ :=
      r.exists_runLocal_of_isDue due fits budget
    obtain ⟨k, spent, taken, blocked⟩ := runSteps_eq_ok_iff.mp steps
    obtain rfl : k = budget - left := by omega
    exact ⟨r', d, _, runs, Nat.sub_le _ _, taken, fun fewer => blocked (by omega),
      keeps.movePending, keeps.digPending, keeps.isOpen, keeps.neighbors, keeps.memory⟩
  · obtain ⟨r₁, d, left, steps, few, inside, -, runs, same, pace⟩ :=
      r.exists_runLocal_of_isDue due fits m
    have again : r₁.isDue clock' = true := by simp [isDue, pace, Nat.mod_one]
    obtain ⟨r₂, e, left', steps', few', -, -, runs', -⟩ :=
      r₁.exists_runLocal_of_isDue again inside n
    rw [same] at steps'
    have total := runSteps_add steps steps'
    have ran : m - left + (n - left') = m + n - (left + left') := by omega
    exact ⟨r₁, d, _, r₂, e, _, _, runs, runs',
      runLocal_eq_ok_iff.mpr (.inr ⟨due, _, total, ran, rfl⟩)⟩

/-- A routine that counts, moves and counts again, on every third tick. -/
def thirdTick : Routine :=
  ⟨#[⟨.inc, .register .a⟩, ⟨.move, .bare⟩, ⟨.inc, .register .a⟩], 3, false, false, .halted⟩

theorem runLocal_spec_thirdTick :
    thirdTick.runLocal Cpu.initial 4 5 = .ok (thirdTick, Cpu.initial, 0) ∧
    (∃ r d, thirdTick.runLocal Cpu.initial 6 5 = .ok (r, d, 1) ∧
      LocalSteps thirdTick.program 1 Cpu.initial d) ∧
    ∃ r₁ d k r₂ e k' r₃, thirdTick.runLocal Cpu.initial 6 1 = .ok (r₁, d, k) ∧
      r₁.runLocal d 7 4 = .ok (r₂, e, k') ∧
      thirdTick.runLocal Cpu.initial 6 (1 + 4) = .ok (r₃, e, k + k') := by
  obtain ⟨-, due, twice⟩ := thirdTick.runLocal_spec (c := Cpu.initial) (by decide) (by decide) 6
  obtain ⟨waits, -, -⟩ := thirdTick.runLocal_spec (c := Cpu.initial) (by decide) (by decide) 4
  obtain ⟨r, d, k, runs, -, steps, -⟩ := due rfl 5
  have one : (thirdTick.runLocal Cpu.initial 6 5).toOption.map (fun last => last.2.2) = some 1 :=
    rfl
  rw [runs] at one
  obtain rfl : k = 1 := Option.some.inj one
  exact ⟨waits rfl 5, ⟨r, d, runs, steps⟩, twice rfl 1 4 7⟩

end Routine

end Formicary
