import Formicary.Colony.Worker
import Formicary.Proofs.Execution

/-!
# Turns

What a worker's turn in the world part of a tick does. A turn never faults: it runs at most one
step, which has a cost, and none of those does more to the worker than to note a request or to look
ahead. The requests are then settled, so no worker has one left after its turn.
-/

namespace Formicary

/-- A worker that asks for nothing. -/
structure Cpu.Quiet (c : Cpu) : Prop where
  move : c.movePending = false
  dig : c.digPending = false

/-- What an operation with a cost does to the worker that runs it. -/
def Op.outcome (op : Op) (s : Surroundings) (c : Cpu) : Cpu :=
  match op with
  | .move => { c with movePending := true }
  | .dig => { c with digPending := true }
  | .chk => c.checkAhead s
  | _ => c

theorem Instruction.run_eq_ok {i : Instruction} (costs : i.op.isLocal = false) (s : Surroundings)
    (c : Cpu) : i.run s c = .ok (i.op.outcome s c) := by
  obtain ⟨op, operands⟩ := i
  cases op with
  | move | dig | chk => rfl
  | _ => cases costs

namespace Routine

/-- The operation that a worker runs in the world part of a tick, if it runs one. -/
def worldOp? (r : Routine) (c : Cpu) : Option Op :=
  if r.localDone && !r.worldDone then
    ((current? r.program c).map Instruction.op).filter (!·.isLocal)
  else none

/-- A routine after the world part of a tick without a step. -/
def rested (r : Routine) : Routine :=
  if r.localDone && !r.worldDone then { r with worldDone := true }.note .halted else r

theorem program_note (r : Routine) (progress : Progress) :
    (r.note progress).program = r.program := by
  unfold note
  split <;> rfl

/-- The world part of a tick runs one operation with a cost or none, and never faults. -/
theorem runWorld_eq (r : Routine) (c : Cpu) (s : Surroundings) :
    r.runWorld c s = .ok (match r.worldOp? c with
      | some op => ({ r.rested with divisor := op.ticks + 1 }, (op.outcome s c).advance,
          some op.ticks)
      | none => (r.rested, c, none)) := by
  unfold runWorld worldOp? rested
  split
  · dsimp only
    rw [program_note]
    dsimp only
    cases current? r.program c with
    | none => rfl
    | some i =>
      rw [Option.filter_some, Option.map_some, Option.filter_some]
      cases isLocal : i.op.isLocal with
      | true => rfl
      | false =>
        simp only [Bool.not_false, if_true]
        rw [Instruction.run_eq_ok isLocal]
  · rfl

theorem isLocal_of_worldOp? {r : Routine} {c : Cpu} {op : Op} (runs : r.worldOp? c = some op) :
    op.isLocal = false := by
  unfold worldOp? at runs
  split at runs
  · simpa using (Option.filter_eq_some_iff.mp runs).2
  · cases runs

end Routine

namespace Worker

variable (w : Worker) (g : Grid) (deposit : UInt8)

/-- The operation that a worker runs in the world part of a tick, if it runs one. -/
def worldOp? : Option Op :=
  w.routine.worldOp? w.cpu

section Settling

/-- Settling a move clears the request and changes no other part of the worker than its failure. -/
theorem exists_settleMove : ∃ failed g',
    w.settleMove g deposit =
      ({ w with cpu := { w.cpu with movePending := false, failed } }, g') := by
  unfold settleMove
  split
  · split
    · exact ⟨_, _, rfl⟩
    · exact ⟨_, _, rfl⟩
  · next none =>
    refine ⟨w.cpu.failed, g, ?_⟩
    rw [← Bool.eq_false_iff.mpr none]

theorem exists_settleDig : ∃ failed g',
    w.settleDig g = ({ w with cpu := { w.cpu with digPending := false, failed } }, g') := by
  unfold settleDig
  split
  · split
    · exact ⟨_, _, rfl⟩
    · exact ⟨_, _, rfl⟩
  · next none =>
    refine ⟨w.cpu.failed, g, ?_⟩
    rw [← Bool.eq_false_iff.mpr none]

/-- Settling all requests leaves none, and looking around is all else it does to the worker. -/
theorem exists_resolve : ∃ failed g',
    w.resolve g deposit =
      ({ w with
        cpu := Cpu.observe { w.cpu with movePending := false, digPending := false, failed }
          (g'.surroundings w.id) }, g') := by
  obtain ⟨failed, g₁, moved⟩ := w.exists_settleMove g deposit
  obtain ⟨failed', g₂, dug⟩ := (w.settleMove g deposit).1.exists_settleDig g₁
  refine ⟨failed', g₂, ?_⟩
  unfold resolve
  rw [moved] at dug ⊢
  dsimp only at dug ⊢
  rw [dug]

end Settling

/-- A worker after its step of the world part of a tick, before its requests are settled. -/
def acted (s : Surroundings) : Worker :=
  match w.worldOp? with
  | some op => { w with
      cpu := (op.outcome s w.cpu).advance
      routine := { w.routine.rested with divisor := op.ticks + 1 } }
  | none => { w with routine := w.routine.rested }

theorem runWorld_eq_acted :
    w.runWorld g = .ok (w.acted (g.surroundings w.id), w.worldOp?.map Op.ticks) := by
  unfold runWorld acted worldOp?
  rw [Routine.runWorld_eq]
  cases w.routine.worldOp? w.cpu <;> rfl

/-- A turn is a step and then the settling of requests, on any grid and for any worker. -/
theorem takeTurn_eq :
    w.takeTurn g deposit =
      .ok (((w.acted (g.surroundings w.id)).resolve g deposit).1,
        ((w.acted (g.surroundings w.id)).resolve g deposit).2, w.worldOp?.map Op.ticks) := by
  unfold takeTurn
  rw [runWorld_eq_acted]
  rfl

/-- What a turn leaves alone: no step with a cost turns the worker or touches its memory. -/
structure KeptBy (w' : Worker) : Prop where
  id : w'.id = w.id
  heading : w'.cpu.heading = w.cpu.heading
  sp : w'.cpu.sp = w.cpu.sp
  ram : w'.cpu.ram = w.cpu.ram

section Keeping

variable {w : Worker} {w' : Worker} {g : Grid} {g' : Grid} {deposit : UInt8} {cost : Option Nat}

theorem keptBy_acted (s : Surroundings) : w.KeptBy (w.acted s) := by
  unfold acted
  cases runs : w.worldOp? with
  | none => exact ⟨rfl, rfl, rfl, rfl⟩
  | some op => cases op <;> exact ⟨rfl, rfl, rfl, rfl⟩

theorem keptBy_resolve : w.KeptBy (w.resolve g deposit).1 := by
  obtain ⟨failed, g', settled⟩ := w.exists_resolve g deposit
  rw [settled]
  exact ⟨rfl, rfl, rfl, rfl⟩

theorem quiet_resolve : (w.resolve g deposit).1.cpu.Quiet := by
  obtain ⟨failed, g', settled⟩ := w.exists_resolve g deposit
  rw [settled]
  exact ⟨rfl, rfl⟩

theorem KeptBy.trans {v : Worker} (first : w.KeptBy v) (second : v.KeptBy w') : w.KeptBy w' :=
  ⟨second.id.trans first.id, second.heading.trans first.heading, second.sp.trans first.sp,
    second.ram.trans first.ram⟩

theorem KeptBy.fits (kept : w.KeptBy w') (fits : w.cpu.Fits) : w'.cpu.Fits :=
  ⟨kept.sp ▸ kept.ram ▸ fits.stack, kept.ram ▸ fits.memory⟩

theorem keptBy_takeTurn (turn : w.takeTurn g deposit = .ok (w', g', cost)) :
    w.KeptBy w' ∧ w'.cpu.Quiet := by
  rw [takeTurn_eq] at turn
  cases turn
  exact ⟨(keptBy_acted _).trans keptBy_resolve, quiet_resolve⟩

end Keeping

/-- What the turn of a worker that asks for nothing does to the grid. -/
def deed : Grid :=
  match w.worldOp? with
  | some .move =>
    match g.destination? w.id w.cpu.heading with
    | some p => w.layScent (g.put w.id p) deposit
    | none => g
  | some .dig =>
    match g.dirtAhead? w.id w.cpu.heading with
    | some p => g.setTile p .clear
    | none => g
  | _ => g

/-- A worker that asks for nothing before its turn acts on the grid only by its own step. -/
theorem takeTurn_of_quiet (quiet : w.cpu.Quiet) :
    ∃ w', w.takeTurn g deposit = .ok (w', w.deed g deposit, w.worldOp?.map Op.ticks) := by
  rw [takeTurn_eq]
  refine ⟨_, congrArg Except.ok (Prod.ext rfl (Prod.ext ?_ rfl))⟩
  obtain ⟨still, calm⟩ := quiet
  unfold acted deed resolve settleMove settleDig
  cases runs : w.worldOp? with
  | none => simp [still, calm]
  | some op =>
    have costs := Routine.isLocal_of_worldOp? runs
    cases op with
    | move =>
      simp only [Op.outcome, Cpu.advance, if_true]
      cases g.destination? w.id w.cpu.heading <;> simp [calm, layScent]
    | dig =>
      simp only [Op.outcome, Cpu.advance, still, Bool.false_eq_true, if_false, if_true]
      cases g.dirtAhead? w.id w.cpu.heading <;> rfl
    | chk => simp [Op.outcome, Cpu.advance, Cpu.checkAhead, Cpu.observe, still, calm]
    | _ => cases costs

end Worker

end Formicary
