import Mathlib.Data.List.DropRight
import Formicary.Proofs.LocalPart

/-!
# Calls in any order

A host may open ticks, load programs and run the two parts of a tick for one worker in any order, on
any worlds and at any clocks. A session keeps the routine, the state of the worker and a log of what
the calls did. Each call is looked at once; what holds of all sessions is what every call keeps.

The world part is handed the world itself, to change it as it likes, and the log tells the world
that it left. No step makes use of that: the world that is left is the one that was given.
-/

namespace Formicary

theorem Op.ticks_pos_of_isLocal {op : Op} (costs : op.isLocal = false) : 0 < op.ticks := by
  apply Nat.pos_of_ne_zero
  intro free
  rw [Op.isLocal_iff.mpr free] at costs
  cases costs

theorem Op.fits_outcome {c : Cpu} (op : Op) (s : Surroundings) (fits : c.Fits) :
    (op.outcome s c).advance.Fits := by
  cases op <;> exact ⟨fits.stack, fits.memory⟩

namespace Routine

/-- What holds of every routine: its pace is one tick or one more than the cost of an operation, its
world part is done only after its local part, and it is idle exactly without a program. -/
structure Regular (r : Routine) : Prop where
  pace : r.divisor = 1 ∨ ∃ op : Op, 0 < op.ticks ∧ r.divisor = op.ticks + 1
  order : r.worldDone = true → r.localDone = true
  idle : r.progress = .idle ↔ r.program = #[]

variable {r r' : Routine} {c c' : Cpu}

theorem regular_empty : empty.Regular :=
  ⟨.inl rfl, nofun, fun _ => rfl, fun _ => rfl⟩

theorem regular_start (program : Program) : (start program).Regular := by
  refine ⟨.inl rfl, nofun, ?_⟩
  simp only [start]
  split
  · next none => simpa using none
  · next some => simpa using some

theorem Regular.reset (regular : r.Regular) : r.reset.Regular :=
  ⟨regular.pace, nofun, regular.idle⟩

/-- Noting progress makes a routine idle only where it has no program. -/
theorem Regular.note (regular : r.Regular) {progress : Progress} (busy : progress ≠ .idle) :
    (r.note progress).Regular := by
  unfold Routine.note
  split
  · exact regular
  · next some =>
    rw [Array.isEmpty_iff] at some
    exact ⟨regular.pace, regular.order, fun same => absurd same busy, fun none => absurd none some⟩

theorem Regular.runLocal (regular : r.Regular) {clock budget ran : Nat}
    (runs : r.runLocal c clock budget = .ok (r', c', ran)) : r'.Regular := by
  rcases runLocal_eq_ok_iff.mp runs with ⟨-, rfl, -⟩ | ⟨-, left, -, -, rfl⟩
  · exact regular
  · have done : { r with localDone := true, divisor := 1 }.Regular :=
      ⟨.inl rfl, fun _ => rfl, regular.idle⟩
    exact done.note (by split <;> decide)

theorem Regular.rested (regular : r.Regular) : r.rested.Regular := by
  unfold Routine.rested
  split
  · next ready =>
    rw [Bool.and_eq_true] at ready
    have done : { r with worldDone := true }.Regular :=
      ⟨regular.pace, fun _ => ready.1, regular.idle⟩
    exact done.note (by decide)
  · exact regular

theorem Regular.stepped (regular : r.Regular) {op : Op} (runs : r.worldOp? c = some op) :
    { r.rested with divisor := op.ticks + 1 }.Regular :=
  ⟨.inr ⟨op, Op.ticks_pos_of_isLocal (isLocal_of_worldOp? runs), rfl⟩, regular.rested.order,
    regular.rested.idle⟩

end Routine

section Worlds

variable {World : Type}

/-- Runs any step with a world at hand, which it may change. -/
def Instruction.runOn (look : World → Surroundings) (i : Instruction) (c : Cpu) :
    StateT World (Except Fault) Cpu := do
  if i.op.readsWorld then
    let world ← get
    return c.checkAhead (look world)
  else
    i.effect c

/-- The world part of a tick with a world at hand. -/
def Routine.runWorldOn (look : World → Surroundings) (r : Routine) (c : Cpu) :
    StateT World (Except Fault) (Routine × Cpu × Option Nat) := do
  if r.localDone && !r.worldDone then
    let r := { r with worldDone := true }.note .halted
    match (current? r.program c).filter (!·.op.isLocal) with
    | none => return (r, c, none)
    | some step =>
      let c ← step.runOn look c
      return ({ r with divisor := step.op.ticks + 1 }, c.advance, some step.op.ticks)
  else
    return (r, c, none)

variable (look : World → Surroundings) (c : Cpu) (world : World)

/-- No step changes the world. -/
theorem Instruction.run_runOn (i : Instruction) :
    (i.runOn look c).run world = (i.run (look world) c).map (·, world) := by
  unfold runOn Instruction.run
  by_cases reads : i.op.readsWorld = true
  · rw [if_pos reads, if_pos reads]
    rfl
  · rw [if_neg reads, if_neg reads]
    cases i.effect c with
    | error fault => rfl
    | ok c => rfl

/-- The world part only looks at the world. -/
theorem Routine.run_runWorldOn (r : Routine) :
    (r.runWorldOn look c).run world = (r.runWorld c (look world)).map (·, world) := by
  unfold runWorldOn Routine.runWorld
  by_cases ready : (r.localDone && !r.worldDone) = true
  · rw [if_pos ready, if_pos ready]
    dsimp only
    cases (current? ({ r with worldDone := true }.note .halted).program c).filter
      (!·.op.isLocal) with
    | none => rfl
    | some step =>
      dsimp only
      rw [StateT.run_bind, step.run_runOn]
      cases step.run (look world) c with
      | error fault => rfl
      | ok c => rfl
  · rw [if_neg ready, if_neg ready]
    rfl

end Worlds

namespace Session

/-- What a host can do with one worker and its routine. -/
inductive Call (World : Type) where
  | load (program : Program)
  | reset
  | runLocal (clock budget : Nat)
  | runWorld (world : World)
  /-- Writes the program counter. -/
  | moveTo (step : UInt16)

/-- What a call did. -/
inductive Outcome (World : Type) where
  /-- A new program was loaded or a new tick opened. -/
  | opened
  /-- The local part: whether the worker was due, and how many steps it ran. -/
  | ranLocal (due : Bool) (steps : Nat)
  /-- The world part: the cost of the step that ran, and the world it left. -/
  | ranWorld (cost : Option Nat) (left : World)
  | moved

end Session

/-- A worker and its routine in the hands of a host. -/
structure Session (World : Type) where
  routine : Routine
  cpu : Cpu
  /-- What the calls did, the earliest first. -/
  log : List (Session.Outcome World)

namespace Session

variable {World : Type}

/-- Calls that leave the program counter to the program. -/
def Call.keepsCounter : Call World → Bool
  | load _ | moveTo _ => false
  | _ => true

/-- A call ran no step and left the world as it was. -/
def Call.DidNothing : Call World → Outcome World → Prop
  | runLocal _ _, outcome => ∃ due, outcome = .ranLocal due 0
  | runWorld world, outcome => outcome = .ranWorld none world
  | _, _ => True

/-- A new routine, before the first call. -/
def start (c : Cpu) : Session World :=
  ⟨.empty, c, []⟩

/-- One call. -/
def perform (look : World → Surroundings) (s : Session World) :
    Call World → Except Fault (Session World)
  | .load program => .ok ⟨.start program, s.cpu.rewind, s.log ++ [.opened]⟩
  | .reset => .ok ⟨s.routine.reset, s.cpu, s.log ++ [.opened]⟩
  | .runLocal clock budget =>
    (s.routine.runLocal s.cpu clock budget).map fun (routine, cpu, steps) =>
      ⟨routine, cpu, s.log ++ [.ranLocal (s.routine.isDue clock) steps]⟩
  | .runWorld world =>
    ((s.routine.runWorldOn look s.cpu).run world).map fun ((routine, cpu, cost), left) =>
      ⟨routine, cpu, s.log ++ [.ranWorld cost left]⟩
  | .moveTo step => .ok ⟨s.routine, { s.cpu with pc := step }, s.log ++ [.moved]⟩

/-- Calls, the earliest first. -/
def performAll (look : World → Surroundings) (s : Session World) (calls : List (Call World)) :
    Except Fault (Session World) :=
  calls.foldlM (perform look) s

/-- What has been done since a program was last loaded or a tick last opened. -/
def interval (log : List (Outcome World)) : List (Outcome World) :=
  log.rtakeWhile fun
    | .opened => false
    | _ => true

/-- A local part for which the worker was due is among some outcomes. -/
def WasDue (outcomes : List (Outcome World)) : Prop :=
  ∃ steps, .ranLocal true steps ∈ outcomes

/-- A step with a cost is among some outcomes. -/
def RanStep (outcomes : List (Outcome World)) : Prop :=
  ∃ cost world, .ranWorld (some cost) world ∈ outcomes

/-- What holds of every session. -/
structure Sound (s : Session World) : Prop where
  fits : s.cpu.Fits
  regular : s.routine.Regular
  due : s.routine.localDone = true → WasDue (interval s.log)
  fresh : s.routine.worldDone = false → ¬ RanStep (interval s.log)
  steps : AtEach (fun before outcome => ∀ cost world, outcome = .ranWorld (some cost) world →
    WasDue (interval before) ∧ ¬ RanStep (interval before)) s.log

section Logs

variable {log : List (Outcome World)}

theorem interval_opened (log : List (Outcome World)) : interval (log ++ [.opened]) = [] :=
  List.rtakeWhile_concat_neg _ _ _ Bool.false_ne_true

theorem interval_concat (log : List (Outcome World)) {outcome : Outcome World}
    (within : outcome ≠ .opened) : interval (log ++ [outcome]) = interval log ++ [outcome] := by
  refine List.rtakeWhile_concat_pos _ _ _ ?_
  cases outcome with
  | opened => exact absurd rfl within
  | _ => rfl

theorem WasDue.concat (due : WasDue log) (outcome : Outcome World) : WasDue (log ++ [outcome]) := by
  obtain ⟨steps, member⟩ := due
  exact ⟨steps, List.mem_append_left _ member⟩

theorem not_ranStep_nil : ¬ RanStep ([] : List (Outcome World)) := by
  rintro ⟨cost, world, member⟩
  cases member

theorem ranStep_concat {outcome : Outcome World}
    (calm : ∀ cost world, outcome ≠ .ranWorld (some cost) world) :
    RanStep (log ++ [outcome]) ↔ RanStep log := by
  constructor
  · rintro ⟨cost, world, member⟩
    rcases List.mem_append.mp member with before | last
    · exact ⟨cost, world, before⟩
    · exact absurd (List.mem_singleton.mp last).symm (calm cost world)
  · rintro ⟨cost, world, member⟩
    exact ⟨cost, world, List.mem_append_left _ member⟩

end Logs

variable {look : World → Surroundings} {s : Session World}

/-- The world that the log tells of is the one that was given. -/
theorem perform_runWorld (look : World → Surroundings) (s : Session World) (world : World) :
    s.perform look (.runWorld world) =
      (s.routine.runWorld s.cpu (look world)).map fun (routine, cpu, cost) =>
        ⟨routine, cpu, s.log ++ [.ranWorld cost world]⟩ := by
  rw [perform, Routine.run_runWorldOn]
  cases s.routine.runWorld s.cpu (look world) with
  | error fault => rfl
  | ok found => rfl

theorem sound_start {c : Cpu} (fits : c.Fits) : (start c : Session World).Sound where
  fits := fits
  regular := Routine.regular_empty
  due := nofun
  fresh _ := not_ranStep_nil
  steps := atEach_nil

/-- A call that opens a new interval. -/
theorem Sound.opened (sound : s.Sound) {r : Routine} {c : Cpu} (fits : c.Fits)
    (regular : r.Regular) (undone : r.localDone = false) :
    (⟨r, c, s.log ++ [.opened]⟩ : Session World).Sound where
  fits := fits
  regular := regular
  due done := absurd done (by simp [undone])
  fresh _ := by
    rw [interval_opened]
    exact not_ranStep_nil
  steps := atEach_concat_iff.mpr ⟨sound.steps, nofun⟩

/-- A call that neither opens an interval nor runs a step with a cost. -/
theorem Sound.logged (sound : s.Sound) {r : Routine} {c : Cpu} {outcome : Outcome World}
    (within : outcome ≠ .opened) (calm : ∀ cost world, outcome ≠ .ranWorld (some cost) world)
    (fits : c.Fits) (regular : r.Regular)
    (due : r.localDone = true →
      s.routine.localDone = true ∨ ∃ steps, outcome = .ranLocal true steps)
    (fresh : r.worldDone = false → s.routine.worldDone = false) :
    (⟨r, c, s.log ++ [outcome]⟩ : Session World).Sound where
  fits := fits
  regular := regular
  due done := by
    rw [interval_concat s.log within]
    rcases due done with old | ⟨steps, rfl⟩
    · exact (sound.due old).concat outcome
    · exact ⟨steps, List.mem_concat_self⟩
  fresh rest := by
    rw [interval_concat s.log within, ranStep_concat calm]
    exact sound.fresh (fresh rest)
  steps := atEach_concat_iff.mpr
    ⟨sound.steps, fun cost world same => absurd same (calm cost world)⟩

theorem Sound.runLocal (sound : s.Sound) (clock budget : Nat) :
    ∃ s', s.perform look (.runLocal clock budget) = .ok s' ∧ s'.Sound := by
  obtain ⟨r, c, steps, runs, fits, -⟩ := s.routine.exists_runLocal sound.fits clock budget
  have regular := sound.regular.runLocal runs
  refine ⟨⟨r, c, s.log ++ [.ranLocal (s.routine.isDue clock) steps]⟩, ?_, ?_⟩
  · rw [perform, runs]
    rfl
  · rcases Routine.runLocal_eq_ok_iff.mp runs with ⟨-, rfl, rfl, rfl⟩ | ⟨due, left, -, -, same⟩
    · exact sound.logged nofun nofun fits regular .inl id
    · obtain ⟨progress, noted⟩ := Routine.note_eq _ _
      obtain rfl := same.trans noted
      exact sound.logged nofun nofun fits regular (fun _ => .inr ⟨steps, by rw [due]⟩) id

theorem Sound.runWorld (sound : s.Sound) (world : World) :
    ∃ s', s.perform look (.runWorld world) = .ok s' ∧ s'.Sound := by
  rw [perform_runWorld, Routine.runWorld_eq]
  cases runs : s.routine.worldOp? s.cpu with
  | none =>
    have regular := sound.regular.rested
    refine ⟨_, rfl, ?_⟩
    rcases s.routine.rested_cases with ⟨-, progress, rested⟩ | rested
    · rw [rested] at regular ⊢
      exact sound.logged nofun nofun sound.fits regular .inl nofun
    · rw [rested] at regular ⊢
      exact sound.logged nofun nofun sound.fits regular .inl id
  | some op =>
    obtain ⟨done, first, -, last⟩ := Routine.ready_of_worldOp? runs
    have longer : interval (s.log ++ [.ranWorld (some op.ticks) world]) =
        interval s.log ++ [.ranWorld (some op.ticks) world] := interval_concat s.log nofun
    refine ⟨⟨{ s.routine.rested with divisor := op.ticks + 1 },
      (op.outcome (look world) s.cpu).advance, s.log ++ [.ranWorld (some op.ticks) world]⟩, rfl, ?_⟩
    exact {
      fits := op.fits_outcome _ sound.fits
      regular := sound.regular.stepped runs
      due := fun _ => longer ▸ (sound.due done).concat _
      fresh := fun rest => absurd rest (by simp [last])
      steps := atEach_concat_iff.mpr
        ⟨sound.steps, fun _ _ _ => ⟨sound.due done, sound.fresh first⟩⟩ }

/-- No call faults, and every call keeps what holds of all sessions. -/
theorem Sound.perform (look : World → Surroundings) (sound : s.Sound) (call : Call World) :
    ∃ s', s.perform look call = .ok s' ∧ s'.Sound := by
  cases call with
  | load program =>
    have fits : s.cpu.rewind.Fits := ⟨sound.fits.stack, sound.fits.memory⟩
    exact ⟨_, rfl, sound.opened fits (Routine.regular_start program) rfl⟩
  | reset => exact ⟨_, rfl, sound.opened sound.fits sound.regular.reset rfl⟩
  | runLocal clock budget => exact sound.runLocal clock budget
  | runWorld world => exact sound.runWorld world
  | moveTo step =>
    have fits : { s.cpu with pc := step }.Fits := ⟨sound.fits.stack, sound.fits.memory⟩
    exact ⟨_, rfl, sound.logged nofun nofun fits sound.regular .inl id⟩

theorem Sound.performAll (look : World → Surroundings) (sound : s.Sound)
    (calls : List (Call World)) : ∃ s', s.performAll look calls = .ok s' ∧ s'.Sound := by
  induction calls generalizing s with
  | nil => exact ⟨s, rfl, sound⟩
  | cons call calls ih =>
    obtain ⟨between, first, sound⟩ := sound.perform look call
    obtain ⟨s', rest, sound⟩ := ih sound
    refine ⟨s', ?_, sound⟩
    rw [Session.performAll, List.foldlM_cons, first]
    exact rest

section Stranded

/-- A worker out of its program runs no step, whatever is called, until it gets another program or
the host moves it. -/
theorem perform_of_stranded (look : World → Surroundings)
    (stranded : Routine.current? s.routine.program s.cpu = none) {call : Call World}
    (keeps : call.keepsCounter = true) :
    ∃ r outcome, s.perform look call = .ok ⟨r, s.cpu, s.log ++ [outcome]⟩ ∧
      r.program = s.routine.program ∧ call.DidNothing outcome := by
  cases call with
  | load program => cases keeps
  | moveTo step => cases keeps
  | reset => exact ⟨_, _, rfl, rfl, trivial⟩
  | runLocal clock budget =>
    rw [perform]
    cases due : s.routine.isDue clock with
    | false =>
      rw [Routine.runLocal_eq_ok_iff.mpr (.inl ⟨due, rfl, rfl, rfl⟩)]
      exact ⟨_, _, rfl, rfl, _, rfl⟩
    | true =>
      have none : Routine.runSteps s.routine.program budget s.cpu = .ok (s.cpu, budget) :=
        Routine.runSteps_eq_ok_iff.mpr ⟨0, Nat.zero_add budget, .zero _, fun _ => .inl stranded⟩
      rw [Routine.runLocal_eq_ok_iff.mpr
        (.inr ⟨due, budget, none, (Nat.sub_self budget).symm, rfl⟩)]
      exact ⟨_, _, rfl, Routine.program_note _ _, _, rfl⟩
  | runWorld world =>
    have none : s.routine.worldOp? s.cpu = none := by
      unfold Routine.worldOp?
      rw [stranded]
      split <;> rfl
    rw [perform_runWorld, Routine.runWorld_eq, none]
    refine ⟨_, _, rfl, ?_, rfl⟩
    rcases s.routine.rested_cases with ⟨-, progress, rested⟩ | rested
    · rw [rested]
    · rw [rested]

theorem performAll_of_stranded (stranded : Routine.current? s.routine.program s.cpu = none)
    {calls : List (Call World)} (keep : ∀ call ∈ calls, call.keepsCounter = true) :
    ∃ s' outcomes, s.performAll look calls = .ok s' ∧ s'.cpu = s.cpu ∧
      s'.log = s.log ++ outcomes ∧ List.Forall₂ Call.DidNothing calls outcomes := by
  induction calls generalizing s with
  | nil => exact ⟨s, [], rfl, rfl, (List.append_nil _).symm, .nil⟩
  | cons call calls ih =>
    rw [List.forall_mem_cons] at keep
    obtain ⟨r, outcome, first, program, nothing⟩ :=
      perform_of_stranded look stranded keep.1
    obtain ⟨s', outcomes, rest, cpu, log, later⟩ :=
      ih (s := ⟨r, s.cpu, s.log ++ [outcome]⟩) (by rw [program]; exact stranded) keep.2
    refine ⟨s', outcome :: outcomes, ?_, cpu, ?_, .cons nothing later⟩
    · rw [performAll, List.foldlM_cons, first]
      exact rest
    · rw [log, List.append_assoc]
      rfl

end Stranded

/-- Whatever a host calls, in any order, no call faults. The pace is one tick or one more than the
cost of an operation; the world part is done only after the local part; a routine is idle exactly
without a program. From one opening to the next at most one step with a cost is run, and only after
a local part for which the worker was due. A worker that is out of its program stays as it is, and
so does the world, until it gets another program or the host moves it. -/
theorem sound_of_performAll (look : World → Surroundings) {c : Cpu}
    (stack : c.sp.toNat ≤ c.ram.size) (memory : c.ram.size ≤ 65535) (calls : List (Call World)) :
    ∃ s, (start c).performAll look calls = .ok s ∧
      (s.routine.divisor = 1 ∨ ∃ op : Op, 0 < op.ticks ∧ s.routine.divisor = op.ticks + 1) ∧
      (s.routine.worldDone = true → s.routine.localDone = true) ∧
      (s.routine.progress = .idle ↔ s.routine.program = #[]) ∧
      (∀ before cost world after, s.log = before ++ .ranWorld (some cost) world :: after →
        (∃ steps, .ranLocal true steps ∈ interval before) ∧
        ∀ cost' world', .ranWorld (some cost') world' ∉ interval before) ∧
      (s.routine.program[s.cpu.pc.toNat]? = none → ∀ later : List (Call World),
        (∀ call ∈ later, call.keepsCounter = true) →
        ∃ s' outcomes, s.performAll look later = .ok s' ∧ s'.cpu = s.cpu ∧
          s'.log = s.log ++ outcomes ∧ List.Forall₂ Call.DidNothing later outcomes) := by
  obtain ⟨s, performed, sound⟩ := (sound_start ⟨stack, memory⟩).performAll look calls
  refine ⟨s, performed, sound.regular.pace, sound.regular.order, sound.regular.idle, ?_, ?_⟩
  · intro before cost world after split
    obtain ⟨due, first⟩ := sound.steps before _ after split cost world rfl
    exact ⟨due, fun cost' world' again => first ⟨cost', world', again⟩⟩
  · intro stranded later keep
    exact performAll_of_stranded stranded keep

/-- A program of one move is loaded and run; the next tick comes too early for it. -/
def oneMove : List (Call Unit) :=
  [.load #[⟨.move, .bare⟩], .runLocal 0 5, .runWorld (), .runWorld (), .reset, .runLocal 1 5]

theorem sound_of_performAll_oneMove :
    ∃ s, (start Cpu.initial).performAll (fun _ => .none) oneMove = .ok s ∧ s.routine.divisor = 2 ∧
      s.log = [.opened, .ranLocal true 0, .ranWorld (some 1) (), .ranWorld none (), .opened,
        .ranLocal false 0] ∧
      ∃ s' outcomes, s.performAll (fun _ => .none) [.runLocal 2 5, .runWorld ()] = .ok s' ∧
        s'.cpu = s.cpu ∧ List.Forall₂ Call.DidNothing [.runLocal 2 5, .runWorld ()] outcomes := by
  obtain ⟨s, performed, -, -, -, -, stays⟩ :=
    sound_of_performAll (fun _ : Unit => .none) (c := Cpu.initial) (by decide) (by decide) oneMove
  have last : (start Cpu.initial).performAll (fun _ => .none) oneMove = .ok _ := rfl
  cases last.symm.trans performed
  obtain ⟨s', outcomes, later, cpu, -, nothing⟩ :=
    stays rfl [.runLocal 2 5, .runWorld ()] (by simp [Call.keepsCounter])
  exact ⟨_, performed, rfl, rfl, s', outcomes, later, cpu, nothing⟩

end Session

end Formicary
