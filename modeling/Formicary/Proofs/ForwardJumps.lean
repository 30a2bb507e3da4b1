import Formicary.Proofs.LocalPart
import Formicary.Review.Lint

/-!
# Programs that only go forward

A step that is no return leads to the next step or to the one it names. Lint tells whether some step
of a program without costs names itself or an earlier one. Where none does and nothing returns, the
program counter grows with every step: the local part of a tick runs no step twice, and a budget as
large as the program lasts until the worker has left it.
-/

namespace Formicary

namespace Cpu

variable {c d : Cpu}

@[simp] theorem pc_setReg (c : Cpu) (r : Reg) (value : UInt32) : (c.setReg r value).pc = c.pc := by
  cases r <;> rfl

@[simp] theorem pc_followScent (c : Cpu) : c.followScent.pc = c.pc := by
  unfold followScent
  dsimp only
  split <;> rfl

theorem pc_of_push {value : UInt32} (pushed : c.push value = .ok d) : d.pc = c.pc := by
  unfold push at pushed
  split at pushed
  · split at pushed
    · cases pushed
      rfl
    · cases pushed
  · cases pushed
    rfl

theorem pc_of_pop {word : Option UInt32} (popped : c.pop = .ok (d, word)) : d.pc = c.pc := by
  unfold pop at popped
  split at popped
  · cases popped
    rfl
  · split at popped
    · cases popped
      rfl
    · cases popped

theorem pc_advance_jumpTo (c : Cpu) (target : UInt16) : (c.jumpTo target).advance.pc = target :=
  UInt16.sub_add_cancel target 1

/-- A call leads to the step it names, or on if there is no room for its frame. -/
theorem pc_of_call {target : UInt16} (called : c.call target = .ok d) :
    d.pc = c.pc ∨ d.advance.pc = target := by
  unfold call at called
  split at called
  · right
    obtain ⟨saved, -, called⟩ := bind_eq_ok_iff.mp called
    obtain ⟨saved', -, called⟩ := bind_eq_ok_iff.mp called
    cases called
    exact pc_advance_jumpTo _ target
  · left
    cases called
    rfl

end Cpu

theorem Op.ticks_eq_zero_iff {op : Op} : op.ticks = 0 ↔ op ≠ .move ∧ op ≠ .dig ∧ op ≠ .chk := by
  cases op <;> decide

/-- A step that is no return leads to the next step or to the one it names. -/
theorem Instruction.pc_of_effect {i : Instruction} {c d : Cpu} (stays : i.op ≠ .ret)
    (runs : i.effect c = .ok d) :
    d.pc = c.pc ∨ ∃ target, i.target? = some target ∧ d.advance.pc = target := by
  obtain ⟨op, operands⟩ := i
  cases op with
  | ret => exact absurd rfl stays
  | nop | move | lt | rt | dig | chk | swf =>
    cases runs
    exact .inl rfl
  | srt =>
    cases runs
    exact .inl c.pc_followScent
  | load =>
    cases operands with
    | registerConstant r value =>
      cases runs
      exact .inl (c.pc_setReg r _)
  | copy | add | sub =>
    cases operands with
    | registerPair source r =>
      cases runs
      exact .inl (c.pc_setReg r _)
  | inc | dec =>
    cases operands with
    | register r =>
      cases runs
      exact .inl (c.pc_setReg r _)
  | push =>
    cases operands with
    | register r => exact .inl (Cpu.pc_of_push runs)
  | pop =>
    cases operands with
    | register r =>
      obtain ⟨⟨e, word⟩, popped, same⟩ := map_eq_ok_iff.mp runs
      have kept := Cpu.pc_of_pop popped
      cases word with
      | none =>
        cases same
        exact .inl kept
      | some value =>
        cases same
        exact .inl ((e.pc_setReg r value).trans kept)
  | jmp =>
    cases operands with
    | target step =>
      cases runs
      exact .inr ⟨step, rfl, c.pc_advance_jumpTo step⟩
  | jnz | jnf =>
    cases operands with
    | target step =>
      cases runs
      split
      · exact .inl rfl
      · exact .inr ⟨step, rfl, c.pc_advance_jumpTo step⟩
  | call =>
    cases operands with
    | target step =>
      apply (Cpu.pc_of_call runs).imp_right
      intro leads
      exact ⟨step, rfl, leads⟩
  | swp =>
    cases operands with
    | channelPriority channel priority =>
      cases runs
      exact .inl rfl
  | swn =>
    cases operands with
    | channel channel =>
      cases runs
      exact .inl rfl

section Lint

variable {m : MachineCode} {steps : List Instruction}

theorem jumpsBack_iff {start : Nat} :
    jumpsBack start steps = true ↔ ∃ (k : Nat) (i : Instruction) (target : UInt16),
      steps[k]? = some i ∧ i.target? = some target ∧ target.toNat ≤ start + k := by
  induction steps generalizing start with
  | nil => simp [jumpsBack]
  | cons first steps ih =>
    rw [jumpsBack, Bool.or_eq_true, ih]
    constructor
    · rintro (back | ⟨k, i, target, found, names, back⟩)
      · obtain ⟨target, names, back⟩ := (Option.any_eq_true ..).mp back
        exact ⟨0, first, target, rfl, names, by simpa using back⟩
      · exact ⟨k + 1, i, target, found, names, by omega⟩
    · rintro ⟨k, i, target, found, names, back⟩
      cases k with
      | zero =>
        cases found
        left
        simpa [names] using back
      | succ k => exact .inr ⟨k, i, target, found, names, by omega⟩

/-- Lint warns of a loop exactly when no step has a cost and some step names itself or an earlier
one. -/
theorem busyLoop_mem_lint_iff (read : instructions m.code = .ok steps) :
    Finding.busyLoop ∈ lint m ↔ (∀ i ∈ steps, i.op.ticks = 0) ∧
      ∃ (k : Nat) (i : Instruction) (target : UInt16),
        steps[k]? = some i ∧ i.target? = some target ∧ target.toNat ≤ k := by
  have back : jumpsBack 0 steps = true ↔ _ := jumpsBack_iff
  simp only [Nat.zero_add] at back
  rw [← back]
  simp [lint, read, Op.isLocal_iff]

end Lint

namespace Routine

/-- A program in which every step leads to a later one: nothing returns, and whatever jumps jumps
forward. -/
structure Forward (program : Program) : Prop where
  stays : ∀ i ∈ program, i.op ≠ .ret
  jumps : ∀ (k : Nat) (i : Instruction) (target : UInt16),
    program[k]? = some i → i.target? = some target → k < target.toNat

variable {program : Program} {c d : Cpu} {n : Nat}

/-- One step takes a worker forward. The size of the program keeps the counter from starting over at
zero behind the last step. -/
theorem Forward.pc_lt (forward : Forward program) (few : program.size ≤ 65535) {i : Instruction}
    (current : current? program c = some i) (runs : i.effect c = .ok d) :
    c.pc.toNat < d.advance.pc.toNat := by
  obtain ⟨inside, -⟩ := Array.getElem?_eq_some_iff.mp current
  have stays := forward.stays i (Array.mem_of_getElem? current)
  rcases Instruction.pc_of_effect stays runs with kept | ⟨target, names, leads⟩
  · have next : d.advance.pc = c.pc + 1 := congrArg (· + 1) kept
    rw [next, Source.toNat_succ (by omega)]
    exact Nat.lt_succ_self _
  · rw [leads]
    exact forward.jumps _ i target current names

/-- All the steps of a run are different ones. -/
theorem Forward.pc_add_le (forward : Forward program) (few : program.size ≤ 65535)
    (steps : LocalSteps program n c d) :
    c.pc.toNat + n ≤ d.pc.toNat ∧ (0 < n → c.pc.toNat + n ≤ program.size) := by
  induction steps with
  | zero c => simp
  | @succ n c d e i current free runs rest ih =>
    have grows := forward.pc_lt few current runs
    obtain ⟨inside, -⟩ := Array.getElem?_eq_some_iff.mp current
    obtain ⟨reached, within⟩ := ih
    refine ⟨by omega, fun _ => ?_⟩
    rcases Nat.eq_zero_or_pos n with rfl | more
    · exact inside
    · have := within more
      omega

theorem localSteps_of_runLocal {r r' : Routine} {clock budget : Nat}
    (runs : r.runLocal c clock budget = .ok (r', d, n)) : LocalSteps r.program n c d := by
  rcases runLocal_eq_ok_iff.mp runs with ⟨-, -, rfl, rfl⟩ | ⟨-, left, steps, rfl, -⟩
  · exact .zero _
  · obtain ⟨k, spent, taken, -⟩ := runSteps_eq_ok_iff.mp steps
    obtain rfl : k = budget - left := by omega
    exact taken

/-- A worker that only goes forward runs no more steps than there are. -/
theorem Forward.le_size {r r' : Routine} (forward : Forward r.program)
    (few : r.program.size ≤ 65535) {clock budget : Nat}
    (runs : r.runLocal c clock budget = .ok (r', d, n)) : n ≤ r.program.size := by
  rcases Nat.eq_zero_or_pos n with rfl | some
  · exact Nat.zero_le _
  · have := (forward.pc_add_le few (localSteps_of_runLocal runs)).2 some
    omega

theorem size_le_of_blocked (free : ∀ i ∈ program, i.op.ticks = 0) (blocked : Blocked program d) :
    program.size ≤ d.pc.toNat := by
  rcases blocked with outside | ⟨i, current, costs⟩
  · exact Array.getElem?_eq_none_iff.mp outside
  · have := free i (Array.mem_of_getElem? current)
    omega

/-- Where lint warns of no loop and nothing returns, a program without costs only goes forward. -/
theorem forward_of_lint {m : MachineCode} (compiled : m.compile = .ok program)
    (free : ∀ i ∈ program, i.op.ticks = 0) (stays : ∀ i ∈ program, i.op ≠ .ret)
    (silent : Finding.busyLoop ∉ lint m) : Forward program := by
  have read : instructions m.code = .ok program.toList := compile_eq_ok_iff.mp compiled
  refine ⟨stays, ?_⟩
  intro k i target found names
  by_contra back
  apply silent
  apply (busyLoop_mem_lint_iff read).mpr
  refine ⟨?_, k, i, target, ?_, names, by omega⟩
  · intro j member
    exact free j (Array.mem_toList_iff.mp member)
  · rw [Array.getElem?_toList]
    exact found

end Routine

/-- In a program without costs that is not too long for its counter, lint warns of every loop that
does not go through a return. Where it warns of none and nothing returns, a due worker runs at most
as many steps in the local part of a tick as the program has, whatever its state; with a budget of
that size it leaves the program. So whatever runs more steps than there are was warned of or
returns. -/
theorem lint_catches_busy_loops {m : MachineCode} {program : Program}
    (compiled : m.compile = .ok program) (few : program.size ≤ 65535)
    (free : ∀ i ∈ program, i.op ≠ .move ∧ i.op ≠ .dig ∧ i.op ≠ .chk) :
    ((∀ i ∈ program, i.op ≠ .ret) → Finding.busyLoop ∉ lint m →
      ∀ (r : Routine) (c : Cpu) (clock : Nat), r.program = program → r.isDue clock = true →
      c.sp.toNat ≤ c.ram.size → c.ram.size ≤ 65535 → ∀ budget, ∃ r' d ran,
        r.runLocal c clock budget = .ok (r', d, ran) ∧ ran ≤ program.size ∧
        (program.size ≤ budget → program.size ≤ d.pc.toNat)) ∧
    ((∃ (r : Routine) (c : Cpu) (clock budget : Nat) (r' : Routine) (d : Cpu) (ran : Nat),
      r.program = program ∧ r.runLocal c clock budget = .ok (r', d, ran) ∧ program.size < ran) →
      Finding.busyLoop ∈ lint m ∨ ∃ i ∈ program, i.op = .ret) := by
  have costless : ∀ i ∈ program, i.op.ticks = 0 := by
    intro i member
    exact Op.ticks_eq_zero_iff.mpr (free i member)
  constructor
  · intro stays silent r c clock same due stack memory budget
    subst same
    have forward := Routine.forward_of_lint compiled costless stays silent
    obtain ⟨r', d, left, steps, -, -, -, runs, -⟩ :=
      r.exists_runLocal_of_isDue due ⟨stack, memory⟩ budget
    refine ⟨r', d, _, runs, forward.le_size few runs, ?_⟩
    intro enough
    -- Either the budget was spent on as many different steps as there are, or the worker is stuck.
    rcases Nat.eq_zero_or_pos left with rfl | some
    · have := (forward.pc_add_le few (Routine.localSteps_of_runLocal runs)).1
      omega
    · obtain ⟨k, -, -, blocked⟩ := Routine.runSteps_eq_ok_iff.mp steps
      exact Routine.size_le_of_blocked costless (blocked some)
  · intro overruns
    obtain ⟨r, c, clock, budget, r', d, ran, same, runs, more⟩ := overruns
    subst same
    by_contra neither
    rw [not_or, not_exists] at neither
    obtain ⟨silent, stays⟩ := neither
    have forward := Routine.forward_of_lint compiled costless
      (fun i member returns => stays i ⟨member, returns⟩) silent
    exact Nat.not_lt_of_le (forward.le_size few runs) more

/-- Four steps, of which a call leaves out the second one. -/
def skipping : List Instruction :=
  [⟨.call, .target 2⟩, ⟨.inc, .register .a⟩, ⟨.jnz, .target 3⟩, ⟨.push, .register .a⟩]

/-- One step that jumps to itself. -/
def spinning : List Instruction :=
  [⟨.jmp, .target 0⟩]

theorem lint_catches_busy_loops_skipping :
    Finding.busyLoop ∉ lint ⟨skipping.flatMap Instruction.encode, LabelTable.empty⟩ ∧
    (∃ r d ran, (Routine.start skipping.toArray).runLocal Cpu.initial 0 4 = .ok (r, d, ran) ∧
      ran ≤ 4 ∧ 4 ≤ d.pc.toNat) ∧
    (∃ r d, (Routine.start spinning.toArray).runLocal Cpu.initial 0 2 = .ok (r, d, 2)) ∧
    Finding.busyLoop ∈ lint ⟨spinning.flatMap Instruction.encode, LabelTable.empty⟩ := by
  have read := instructions_flatMap_encode skipping
  have silent : Finding.busyLoop ∉ lint ⟨skipping.flatMap Instruction.encode, .empty⟩ := by
    intro warns
    obtain ⟨-, k, i, target, found, names, back⟩ := (busyLoop_mem_lint_iff read).mp warns
    have jumps : jumpsBack 0 skipping = true :=
      jumpsBack_iff.mpr ⟨k, i, target, found, names, by omega⟩
    cases jumps
  obtain ⟨bounded, -⟩ := lint_catches_busy_loops (m := ⟨_, LabelTable.empty⟩)
    (compile_eq_ok_iff.mpr read) (by decide) (by decide)
  obtain ⟨-, warned⟩ := lint_catches_busy_loops (m := ⟨_, LabelTable.empty⟩)
    (compile_eq_ok_iff.mpr (instructions_flatMap_encode spinning)) (by decide) (by decide)
  obtain ⟨r, d, ran, runs, most, leaves⟩ := bounded (by decide) silent (.start skipping.toArray)
    Cpu.initial 0 rfl rfl (by decide) (by decide) 4
  have spins : ∃ r d,
      (Routine.start spinning.toArray).runLocal Cpu.initial 0 2 = .ok (r, d, 2) := ⟨_, _, rfl⟩
  obtain ⟨r', d', twice⟩ := spins
  have caught := (warned ⟨_, _, 0, 2, r', d', 2, rfl, twice, by decide⟩).resolve_right (by decide)
  exact ⟨silent, ⟨r, d, ran, runs, most, leaves (Nat.le_refl 4)⟩, ⟨r', d', twice⟩, caught⟩

end Formicary
