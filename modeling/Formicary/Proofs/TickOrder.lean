import Mathlib.Data.List.Forall2
import Mathlib.Data.List.Induction
import Mathlib.Data.List.Nodup
import Formicary.Proofs.TickParts

/-!
# The order of the parts of a tick

A host may call the parts of a tick one by one and change the crew between any two of them. The
phase of the colony is the trace of the last part alone, so a call is refused exactly when the part
it needs is not the last one. To say which worker ran which step, a chronicle is kept beside the
colony: every worker has a mark from its birth on, which tells whether it has got a program since
the last local part.
-/

namespace Formicary

namespace Colony

/-- The parts of a tick. -/
inductive Part where
  | reset
  | runLocal
  | await
  | runWorld
  deriving DecidableEq

/-- The part that must come right before another; a reset may come at any time. -/
def Part.needs? : Part → Option Part
  | reset => none
  | runLocal => some reset
  | await => some runLocal
  | runWorld => some await

/-- What a host can call. -/
inductive Operation where
  | part (p : Part)
  | spawn (code : MachineCode)
  | despawn (id : WorkerId)
  | assign (id : WorkerId) (code : MachineCode)
  | reloadAll (code : MachineCode)

/-- The part of a tick that is called, if it is one. -/
def Operation.part? : Operation → Option Part
  | part p => some p
  | _ => none

/-- The parts of ticks among some calls. -/
def parts (ops : List Operation) : List Part :=
  ops.filterMap Operation.part?

/-- Every part comes right after the part it needs. -/
def InOrder (ps : List Part) : Prop :=
  AtEach (fun before p => ∀ needed, p.needs? = some needed → before.getLast? = some needed) ps

/-- A call. Refused programs and unknown workers leave the colony as it was. -/
def perform (c : Colony) : Operation → Except Fault Colony
  | .part .reset => .ok c.reset
  | .part .runLocal => c.runLocal
  | .part .await => c.await
  | .part .runWorld => c.runWorld.map Prod.fst
  | .spawn code =>
    match c.spawn code with
    | .ok (c, _) => .ok c
    | .error _ => .ok c
  | .despawn id =>
    match c.despawn id with
    | some (c, _) => .ok c
    | none => .ok c
  | .assign id code =>
    match c.assign id code with
    | .ok c => .ok c
    | .error _ => .ok c
  | .reloadAll code =>
    match c.reloadAll code with
    | .ok c => .ok c
    | .error _ => .ok c

/-- Calls, the earliest first, up to one that is refused. -/
def performAll (c : Colony) (ops : List Operation) : Except Fault Colony :=
  ops.foldlM perform c

/-- What the steps of some workers' turns cost; nothing for a worker that runs none. -/
def costs (amount : UInt8) : Grid → List Worker → List (Option Nat)
  | _, [] => []
  | g, w :: ws =>
    match w.takeTurn g amount with
    | .error _ => []
    | .ok (_, g, cost) => cost :: costs amount g ws

end Colony

/-- What is remembered of a worker. -/
structure Mark where
  /-- How many workers were there before it, at any time. -/
  birth : Nat
  /-- It was born or has got a program since the last local part. -/
  renewed : Bool

namespace Mark

/-- The number of the worker. Numbers start again from zero, births do not. -/
def id (m : Mark) : WorkerId :=
  UInt32.ofNat m.birth

/-- The mark of a worker that gets a program. -/
def renew (m : Mark) : Mark :=
  { m with renewed := true }

/-- The mark of a worker after a local part. -/
def settle (m : Mark) : Mark :=
  { m with renewed := false }

/-- What a mark says of its worker. -/
structure Of (m : Mark) (w : Worker) : Prop where
  id : w.id = m.id
  waits : m.renewed = true → w.routine.localDone = false
  fits : w.cpu.Fits

end Mark

/-- A step of the world part of a tick. -/
structure WorldStep where
  clock : Nat
  mark : Mark
  ticks : Nat

/-- The steps that some turns run. -/
def WorldStep.ofCosts (clock : Nat) (marks : List Mark) (costs : List (Option Nat)) :
    List WorldStep :=
  (marks.zip costs).filterMap fun (mark, cost) => cost.map fun ticks => ⟨clock, mark, ticks⟩

/-- A colony with what is remembered of it. -/
structure Chronicle where
  colony : Colony
  /-- The marks of the workers, in the order of their turns. -/
  marks : List Mark
  /-- How many workers have been born. -/
  births : Nat
  /-- The steps of the world parts so far. -/
  steps : List WorldStep
  /-- How many such steps the colony itself has told of. -/
  reported : Nat

namespace Chronicle

/-- The chronicle of a new colony. -/
def start (c : Colony) : Chronicle :=
  ⟨c, [], 0, [], 0⟩

/-- The steps that the world part runs. -/
def worldSteps (h : Chronicle) : List WorldStep :=
  WorldStep.ofCosts h.colony.clock h.marks
    (Colony.costs h.colony.settings.scentDeposit h.colony.grid h.colony.workers)

/-- A call and what is remembered of it. -/
def perform (h : Chronicle) : Colony.Operation → Except Fault Chronicle
  | .part .reset => .ok { h with colony := h.colony.reset }
  | .part .runLocal =>
    h.colony.runLocal.map fun c => { h with colony := c, marks := h.marks.map Mark.settle }
  | .part .await => h.colony.await.map fun c => { h with colony := c }
  | .part .runWorld =>
    h.colony.runWorld.map fun (c, stats) =>
      { h with
        colony := c
        steps := h.steps ++ h.worldSteps
        reported := h.reported + stats.worldSteps }
  | .spawn code =>
    match h.colony.spawn code with
    | .ok (c, _) =>
      .ok { h with
        colony := c
        marks := h.marks ++ [⟨h.births, true⟩]
        births := h.births + 1 }
    | .error _ => .ok h
  | .despawn id =>
    match h.colony.despawn id with
    | some (c, _) => .ok { h with colony := c, marks := h.marks.eraseP (·.id = id) }
    | none => .ok h
  | .assign id code =>
    match h.colony.assign id code with
    | .ok c =>
      .ok { h with
        colony := c
        marks := h.marks.modify (h.marks.findIdx (·.id = id)) Mark.renew }
    | .error _ => .ok h
  | .reloadAll code =>
    match h.colony.reloadAll code with
    | .ok c => .ok { h with colony := c, marks := h.marks.map Mark.renew }
    | .error _ => .ok h

/-- Calls and what is remembered of them. -/
def performAll (h : Chronicle) (ops : List Colony.Operation) : Except Fault Chronicle :=
  ops.foldlM perform h

/-- Keeping a chronicle changes nothing. -/
theorem map_colony_perform (h : Chronicle) (op : Colony.Operation) :
    (h.perform op).map colony = h.colony.perform op := by
  cases op with
  | part p =>
    cases p with
    | reset => rfl
    | runLocal =>
      simp only [perform, Colony.perform]
      cases h.colony.runLocal <;> rfl
    | await =>
      simp only [perform, Colony.perform]
      cases h.colony.await <;> rfl
    | runWorld =>
      simp only [perform, Colony.perform]
      cases h.colony.runWorld <;> rfl
  | spawn code =>
    simp only [perform, Colony.perform]
    cases h.colony.spawn code <;> rfl
  | despawn id =>
    simp only [perform, Colony.perform]
    cases h.colony.despawn id <;> rfl
  | assign id code =>
    simp only [perform, Colony.perform]
    cases h.colony.assign id code <;> rfl
  | reloadAll code =>
    simp only [perform, Colony.perform]
    cases h.colony.reloadAll code <;> rfl

theorem map_colony_performAll (h : Chronicle) (ops : List Colony.Operation) :
    (h.performAll ops).map colony = h.colony.performAll ops := by
  induction ops generalizing h with
  | nil => rfl
  | cons op ops ih =>
    unfold performAll Colony.performAll
    rw [List.foldlM_cons, List.foldlM_cons, ← map_colony_perform]
    cases h.perform op with
    | error fault => rfl
    | ok after => exact ih after

end Chronicle

namespace Colony

section Order

/-- The phase that some parts leave a new colony in. -/
def phaseAfter (ps : List Part) : Phase :=
  match ps.getLast? with
  | none | some .runWorld => .idle
  | some .reset => .ready
  | some .runLocal => .localDone
  | some .await => .awaited

theorem phaseAfter_concat (ps : List Part) (p : Part) :
    phaseAfter (ps ++ [p]) = phaseAfter [p] := by
  unfold phaseAfter
  rw [List.getLast?_concat, List.getLast?_singleton]

/-- The phase tells the last part, if that is needed by another one. -/
theorem phaseAfter_eq_iff {ps : List Part} {p needed : Part} (needs : p.needs? = some needed) :
    phaseAfter ps = phaseAfter [needed] ↔ ps.getLast? = some needed := by
  unfold phaseAfter
  cases p with
  | reset => cases needs
  | runLocal | await | runWorld =>
    cases needs
    rw [List.getLast?_singleton]
    split <;> simp_all

theorem inOrder_nil : InOrder [] :=
  atEach_nil

theorem inOrder_concat_iff {ps : List Part} {p : Part} :
    InOrder (ps ++ [p]) ↔
      InOrder ps ∧ ∀ needed, p.needs? = some needed → ps.getLast? = some needed :=
  atEach_concat_iff

theorem parts_concat (ops : List Operation) (op : Operation) :
    parts (ops ++ [op]) = parts ops ++ op.part?.toList := by
  unfold parts
  rw [List.filterMap_append]
  cases op <;> rfl

end Order

section Costs

variable {amount : UInt8} {g : Grid} {ws : List Worker}

theorem costs_eq (amount : UInt8) (g : Grid) (ws : List Worker) :
    costs amount g ws = ws.map fun w => w.worldOp?.map Op.ticks := by
  induction ws generalizing g with
  | nil => rfl
  | cons w ws ih =>
    unfold costs
    rw [w.takeTurn_eq g amount]
    simp only [List.map_cons, ih]

/-- The number of steps that a colony tells of is that of the turns with a cost. -/
theorem countP_costs {g' : Grid} {ws' : List Worker} {worldSteps : Nat}
    (turns : takeTurns amount g ws = .ok (g', ws', worldSteps)) :
    (costs amount g ws).countP Option.isSome = worldSteps := by
  induction ws generalizing g ws' worldSteps with
  | nil =>
    cases turns
    rfl
  | cons w ws ih =>
    unfold takeTurns at turns
    split at turns
    · cases turns
    · next v after cost first =>
      split at turns
      · cases turns
      · next last vs others rest =>
        cases turns
        unfold costs
        rw [first]
        simp only [List.countP_cons, ih rest]
        exact Nat.add_comm _ _

end Costs

section Edits

variable {c c' : Colony} {id : WorkerId} {code : MachineCode}

theorem spawn_cases (spawned : c.spawn code = .ok (c', id)) :
    ∃ program, c' = { c with
      workers := c.workers ++ [Worker.new c.nextId code program], nextId := c.nextId + 1 } := by
  unfold spawn at spawned
  split at spawned
  · cases spawned
  · cases spawned
    exact ⟨_, rfl⟩

theorem despawn_cases {w : Worker} (despawned : c.despawn id = some (c', w)) :
    c' = { c with grid := c.grid.remove id, workers := c.workers.eraseP (·.id = id) } := by
  obtain ⟨v, -, same⟩ := Option.map_eq_some_iff.mp despawned
  cases same
  rfl

theorem assign_cases (assigned : c.assign id code = .ok c') :
    ∃ program, c' = c.modifyWorker id (·.load code program) := by
  unfold assign at assigned
  split at assigned
  · cases assigned
  · split at assigned
    · cases assigned
      exact ⟨_, rfl⟩
    · cases assigned

theorem reloadAll_cases (reloaded : c.reloadAll code = .ok c') :
    ∃ program, c' = { c with workers := c.workers.map (·.load code program) } := by
  unfold reloadAll at reloaded
  split at reloaded
  · next empty =>
    -- without workers any program will do
    cases reloaded
    refine ⟨#[], ?_⟩
    rw [List.isEmpty_iff.mp empty, List.map_nil, ← List.isEmpty_iff.mp empty]
  · split at reloaded
    · cases reloaded
    · cases reloaded
      exact ⟨_, rfl⟩

/-- Only despawning and the world part of a tick touch the grid. -/
theorem grid_perform {op : Operation} (performed : c.perform op = .ok c') :
    c'.grid = c.grid ∨ op = .part .runWorld ∨ ∃ id, op = .despawn id := by
  cases op with
  | part p =>
    cases p with
    | reset =>
      cases performed
      exact .inl rfl
    | runLocal =>
      obtain ⟨-, ws, ran, -, rfl⟩ := runLocal_eq_ok_iff.mp performed
      exact .inl rfl
    | await =>
      obtain ⟨-, rfl⟩ := await_eq_ok_iff.mp performed
      exact .inl rfl
    | runWorld => exact .inr (.inl rfl)
  | spawn code =>
    simp only [perform] at performed
    split at performed
    · next after id spawned =>
      cases performed
      obtain ⟨program, rfl⟩ := spawn_cases spawned
      exact .inl rfl
    · cases performed
      exact .inl rfl
  | despawn id => exact .inr (.inr ⟨id, rfl⟩)
  | assign id code =>
    simp only [perform] at performed
    split at performed
    · next after assigned =>
      cases performed
      obtain ⟨program, rfl⟩ := assign_cases assigned
      exact .inl rfl
    · cases performed
      exact .inl rfl
  | reloadAll code =>
    simp only [perform] at performed
    split at performed
    · next after reloaded =>
      cases performed
      obtain ⟨program, rfl⟩ := reloadAll_cases reloaded
      exact .inl rfl
    · cases performed
      exact .inl rfl

end Edits

end Colony

namespace WorldStep

variable {clock : Nat} {marks : List Mark} {costs : List (Option Nat)}

theorem mem_ofCosts_iff {s : WorldStep} :
    s ∈ ofCosts clock marks costs ↔ s.clock = clock ∧ (s.mark, some s.ticks) ∈ marks.zip costs := by
  unfold ofCosts
  rw [List.mem_filterMap]
  constructor
  · rintro ⟨⟨mark, cost⟩, member, made⟩
    obtain ⟨ticks, rfl, rfl⟩ := Option.map_eq_some_iff.mp made
    exact ⟨rfl, member⟩
  · rintro ⟨rfl, member⟩
    exact ⟨_, member, rfl⟩

theorem births_ofCosts_sublist (clock : Nat) (marks : List Mark) (costs : List (Option Nat)) :
    ((ofCosts clock marks costs).map (·.mark.birth)).Sublist (marks.map Mark.birth) := by
  induction marks generalizing costs with
  | nil => exact .slnil
  | cons m marks ih =>
    cases costs with
    | nil => exact List.nil_sublist _
    | cons cost costs =>
      cases cost with
      | none => exact (ih costs).cons _
      | some ticks => exact (ih costs).cons_cons _

theorem length_ofCosts (clock : Nat) {marks : List Mark} {costs : List (Option Nat)}
    (same : marks.length = costs.length) :
    (ofCosts clock marks costs).length = costs.countP Option.isSome := by
  induction marks generalizing costs with
  | nil =>
    cases costs with
    | nil => rfl
    | cons cost costs => cases same
  | cons m marks ih =>
    cases costs with
    | nil => cases same
    | cons cost costs =>
      have rest := ih (Nat.succ.inj same)
      cases cost with
      | none => rw [List.countP_cons_of_neg (by simp), ← rest]; rfl
      | some ticks => rw [List.countP_cons_of_pos rfl, ← rest]; rfl

end WorldStep

namespace Mark

variable {ms : List Mark} {ws ws' : List Worker}

/-- A worker that waits runs no step in the world. -/
theorem Of.worldOp?_eq_none {m : Mark} {w : Worker} (marked : m.Of w) (renewed : m.renewed = true) :
    w.worldOp? = none := by
  unfold Worker.worldOp? Routine.worldOp?
  rw [marked.waits renewed]
  rfl

theorem Of.load {m : Mark} {w : Worker} (marked : m.Of w) (code : MachineCode)
    (program : Program) : m.renew.Of (w.load code program) :=
  ⟨marked.id, fun _ => rfl, Worker.fits_load w code program marked.fits⟩

/-- Marks change along with their workers. -/
theorem forall₂_map {R : Worker → Worker → Prop} {f : Mark → Mark}
    (marked : List.Forall₂ Of ms ws) (related : List.Forall₂ R ws ws')
    (step : ∀ m w w', Of m w → R w w' → Of (f m) w') : List.Forall₂ Of (ms.map f) ws' := by
  induction marked generalizing ws' with
  | nil =>
    cases related
    exact .nil
  | cons first _ ih =>
    cases related with
    | cons now later => exact .cons (step _ _ _ first now) (ih later)

theorem forall₂_map_map {f : Mark → Mark} {g : Worker → Worker} (marked : List.Forall₂ Of ms ws)
    (step : ∀ m w, Of m w → Of (f m) (g w)) : List.Forall₂ Of (ms.map f) (ws.map g) := by
  rw [List.forall₂_map_left_iff, List.forall₂_map_right_iff]
  exact marked.imp step

theorem forall₂_eraseP (marked : List.Forall₂ Of ms ws) (id : WorkerId) :
    List.Forall₂ Of (ms.eraseP (·.id = id)) (ws.eraseP (·.id = id)) := by
  induction marked with
  | nil => exact .nil
  | @cons m w ms ws first rest ih =>
    by_cases here : m.id = id
    · rw [List.eraseP_cons_of_pos (by simpa using here),
        List.eraseP_cons_of_pos (by simpa [first.id] using here)]
      exact rest
    · rw [List.eraseP_cons_of_neg (by simpa using here),
        List.eraseP_cons_of_neg (by simpa [first.id] using here)]
      exact .cons first ih

/-- The first mark with a number is that of the first worker with it. -/
theorem forall₂_modify_findIdx (marked : List.Forall₂ Of ms ws) (id : WorkerId) {f : Mark → Mark}
    {g : Worker → Worker} (step : ∀ m w, Of m w → Of (f m) (g w)) :
    List.Forall₂ Of (ms.modify (ms.findIdx (·.id = id)) f)
      (ws.modify (ws.findIdx (·.id = id)) g) := by
  induction marked with
  | nil => exact .nil
  | @cons m w ms ws first rest ih =>
    by_cases here : m.id = id
    · rw [modify_findIdx_cons_of_pos (by simpa using here),
        modify_findIdx_cons_of_pos (by simpa [first.id] using here)]
      exact .cons (step m w first) rest
    · rw [modify_findIdx_cons_of_neg (by simpa using here),
        modify_findIdx_cons_of_neg (by simpa [first.id] using here)]
      exact .cons first ih

theorem map_birth_map (f : Mark → Mark) (ms : List Mark) (births : ∀ m, (f m).birth = m.birth) :
    (ms.map f).map birth = ms.map birth := by
  rw [List.map_map]
  exact List.map_congr_left fun m _ => births m

theorem map_id_eq (marked : List.Forall₂ Of ms ws) : ws.map Worker.id = ms.map id := by
  induction marked with
  | nil => rfl
  | cons first _ ih => rw [List.map_cons, List.map_cons, first.id, ih]

theorem forall_fits (marked : List.Forall₂ Of ms ws) : ∀ w ∈ ws, w.cpu.Fits := by
  induction marked with
  | nil => simp
  | cons first _ ih => exact List.forall_mem_cons.mpr ⟨first.fits, ih⟩

/-- No worker with a program since the last local part runs a step in the world. -/
theorem settled_of_mem_zip (marked : List.Forall₂ Of ms ws) {m : Mark} {ticks : Nat}
    (member : (m, some ticks) ∈ ms.zip (ws.map fun w => w.worldOp?.map Op.ticks)) :
    m.renewed = false := by
  induction marked with
  | nil => cases member
  | cons first _ ih =>
    rw [List.map_cons, List.zip_cons_cons, List.mem_cons] at member
    rcases member with here | later
    · obtain ⟨rfl, cost⟩ := Prod.mk.injEq .. ▸ here
      rw [Bool.eq_false_iff]
      intro renewed
      rw [first.worldOp?_eq_none renewed] at cost
      cases cost
    · exact ih later

end Mark

namespace Worker

variable {w w' : Worker}

theorem localDone_acted (w : Worker) (s : Surroundings) :
    (w.acted s).routine.localDone = w.routine.localDone := by
  obtain ⟨worldDone, progress, rested⟩ := w.routine.rested_eq
  unfold acted
  cases w.worldOp? with
  | none => simp only [rested]
  | some op => simp only [rested]

theorem localDone_takeTurn {g g' : Grid} {amount : UInt8} {cost : Option Nat}
    (turn : w.takeTurn g amount = .ok (w', g', cost)) :
    w'.routine.localDone = w.routine.localDone := by
  obtain ⟨-, failed, s, s', rfl⟩ := takeTurn_cases turn
  exact w.localDone_acted s

end Worker

namespace Chronicle

/-- The marks of a chronicle are those of the workers. -/
structure Enrolled (h : Chronicle) : Prop where
  marked : List.Forall₂ Mark.Of h.marks h.colony.workers
  nextId : h.colony.nextId = UInt32.ofNat h.births
  increasing : (h.marks.map Mark.birth).Pairwise (· < ·)
  born : ∀ birth ∈ h.marks.map Mark.birth, birth < h.births

/-- The steps of a chronicle are all steps so far, and no worker ran two at once or one with a
program that is too new. -/
structure Recorded (h : Chronicle) : Prop where
  past : ∀ s ∈ h.steps, s.clock < h.colony.clock
  once : (h.steps.map fun s => (s.clock, s.mark.birth)).Nodup
  settled : ∀ s ∈ h.steps, s.mark.renewed = false
  told : h.steps.length = h.reported

section Edits

variable {h : Chronicle} {c : Colony} {code : MachineCode} {id : WorkerId}

/-- Whatever happens to workers that stay, their births are kept. -/
theorem Enrolled.update (enrolled : h.Enrolled) {marks : List Mark}
    (births : marks.map Mark.birth = h.marks.map Mark.birth) (next : c.nextId = h.colony.nextId)
    (marked : List.Forall₂ Mark.Of marks c.workers) :
    Enrolled { h with colony := c, marks } where
  marked := marked
  nextId := next.trans enrolled.nextId
  increasing := by
    rw [births]
    exact enrolled.increasing
  born := by
    rw [births]
    exact enrolled.born

theorem Enrolled.spawn (enrolled : h.Enrolled) (spawned : h.colony.spawn code = .ok (c, id)) :
    Enrolled { h with
      colony := c, marks := h.marks ++ [⟨h.births, true⟩], births := h.births + 1 } := by
  obtain ⟨program, rfl⟩ := Colony.spawn_cases spawned
  have newborn : Mark.Of ⟨h.births, true⟩ (Worker.new h.colony.nextId code program) :=
    ⟨enrolled.nextId, fun _ => rfl, Worker.fits_new _ _ _⟩
  exact {
    marked := List.rel_append enrolled.marked (.cons newborn .nil)
    nextId := by
      show h.colony.nextId + 1 = UInt32.ofNat (h.births + 1)
      rw [enrolled.nextId, UInt32.ofNat_add]
      rfl
    increasing := by
      rw [List.map_append, List.pairwise_append]
      refine ⟨enrolled.increasing, List.pairwise_singleton _ _, ?_⟩
      intro birth old new last
      rw [List.mem_singleton.mp last]
      exact enrolled.born birth old
    born := by
      intro birth member
      rw [List.map_append, List.mem_append] at member
      rcases member with old | last
      · exact Nat.lt_succ_of_lt (enrolled.born birth old)
      · rw [List.mem_singleton.mp last]
        exact Nat.lt_succ_self _ }

theorem Enrolled.despawn (enrolled : h.Enrolled) {w : Worker}
    (despawned : h.colony.despawn id = some (c, w)) :
    Enrolled { h with colony := c, marks := h.marks.eraseP (·.id = id) } := by
  rw [Colony.despawn_cases despawned]
  have fewer := (List.eraseP_sublist (p := (·.id = id)) (l := h.marks)).map Mark.birth
  exact {
    marked := Mark.forall₂_eraseP enrolled.marked id
    nextId := enrolled.nextId
    increasing := enrolled.increasing.sublist fewer
    born := fun birth member => enrolled.born birth (fewer.mem member) }

theorem Enrolled.assign (enrolled : h.Enrolled) (assigned : h.colony.assign id code = .ok c) :
    Enrolled { h with
      colony := c, marks := h.marks.modify (h.marks.findIdx (·.id = id)) Mark.renew } := by
  obtain ⟨program, rfl⟩ := Colony.assign_cases assigned
  refine enrolled.update (map_modify_findIdx fun _ _ => rfl) rfl
    (Mark.forall₂_modify_findIdx enrolled.marked id ?_)
  intro m w marked
  exact marked.load code program

theorem Enrolled.reloadAll (enrolled : h.Enrolled) (reloaded : h.colony.reloadAll code = .ok c) :
    Enrolled { h with colony := c, marks := h.marks.map Mark.renew } := by
  obtain ⟨program, rfl⟩ := Colony.reloadAll_cases reloaded
  refine enrolled.update (Mark.map_birth_map Mark.renew _ fun _ => rfl) rfl
    (Mark.forall₂_map_map enrolled.marked ?_)
  intro m w marked
  exact marked.load code program

end Edits

section Parts

variable {h : Chronicle}

theorem Enrolled.reset (enrolled : h.Enrolled) :
    Enrolled { h with colony := h.colony.reset } where
  marked := by
    rw [← List.map_id h.marks]
    refine Mark.forall₂_map_map enrolled.marked ?_
    intro m w marked
    exact ⟨marked.id, fun _ => rfl, marked.fits⟩
  nextId := enrolled.nextId
  increasing := enrolled.increasing
  born := enrolled.born

theorem Enrolled.runLocal (enrolled : h.Enrolled) {ws : List Worker}
    (related : List.Forall₂ Worker.LocallyFrom h.colony.workers ws) (ran : Nat) :
    Enrolled { h with
      colony := { h.colony with workers := ws, phase := .localDone, localSteps := ran }
      marks := h.marks.map Mark.settle } := by
  refine enrolled.update (Mark.map_birth_map Mark.settle _ fun _ => rfl) rfl
    (Mark.forall₂_map enrolled.marked related ?_)
  intro m w w' marked first
  exact ⟨first.id.trans marked.id, nofun, first.fits⟩

theorem Enrolled.runWorld (enrolled : h.Enrolled) {g : Grid} {ws : List Worker} {n : Nat}
    (turns : Colony.takeTurns h.colony.settings.scentDeposit h.colony.grid h.colony.workers =
      .ok (g, ws, n)) (steps : List WorldStep) (reported : Nat) :
    Enrolled { h with
      colony := { h.colony with
        grid := g, workers := ws, clock := h.colony.clock + 1, phase := .idle }
      steps, reported } where
  marked := by
    rw [← List.map_id h.marks]
    refine Mark.forall₂_map enrolled.marked (Colony.forall₂_of_takeTurns turns) ?_
    rintro m w w' marked ⟨before, after, cost, turn⟩
    have kept := (Worker.keptBy_takeTurn turn).1
    refine ⟨kept.id.trans marked.id, fun renewed => ?_, kept.fits marked.fits⟩
    rw [Worker.localDone_takeTurn turn]
    exact marked.waits renewed
  nextId := enrolled.nextId
  increasing := enrolled.increasing
  born := enrolled.born

/-- The steps of a world part are new, since the clock has moved on since all earlier ones. -/
theorem Recorded.runWorld (recorded : h.Recorded) (enrolled : h.Enrolled) {g : Grid}
    {ws : List Worker} {n : Nat}
    (turns : Colony.takeTurns h.colony.settings.scentDeposit h.colony.grid h.colony.workers =
      .ok (g, ws, n)) :
    Recorded { h with
      colony := { h.colony with
        grid := g, workers := ws, clock := h.colony.clock + 1, phase := .idle }
      steps := h.steps ++ h.worldSteps
      reported := h.reported + n } where
  past := by
    intro s member
    rcases List.mem_append.mp member with old | new
    · exact Nat.lt_succ_of_lt (recorded.past s old)
    · rw [(WorldStep.mem_ofCosts_iff.mp new).1]
      exact Nat.lt_succ_self _
  once := by
    rw [List.map_append, List.nodup_append']
    refine ⟨recorded.once, ?_, ?_⟩
    · have births : (h.worldSteps.map (·.mark.birth)).Nodup :=
        ((enrolled.increasing.sublist (WorldStep.births_ofCosts_sublist _ _ _)).imp Nat.ne_of_lt)
      refine List.Nodup.of_map Prod.snd ?_
      rw [List.map_map]
      exact births
    · intro key old new
      obtain ⟨s, first, rfl⟩ := List.mem_map.mp old
      obtain ⟨t, second, same⟩ := List.mem_map.mp new
      have now : t.clock = h.colony.clock := (WorldStep.mem_ofCosts_iff.mp second).1
      have earlier := recorded.past s first
      rw [← (Prod.mk.inj same).1, now] at earlier
      exact Nat.lt_irrefl _ earlier
  settled := by
    intro s member
    rcases List.mem_append.mp member with old | new
    · exact recorded.settled s old
    · have paid := (WorldStep.mem_ofCosts_iff.mp new).2
      rw [Colony.costs_eq] at paid
      exact Mark.settled_of_mem_zip enrolled.marked paid
  told := by
    have lengths : h.marks.length = (Colony.costs h.colony.settings.scentDeposit h.colony.grid
        h.colony.workers).length := by
      rw [Colony.costs_eq, List.length_map]
      exact enrolled.marked.length_eq
    rw [List.length_append, recorded.told]
    unfold worldSteps
    rw [WorldStep.length_ofCosts _ lengths, Colony.countP_costs turns]

theorem Recorded.keep (recorded : h.Recorded) {c : Colony} {marks : List Mark} {births : Nat}
    (same : c.clock = h.colony.clock) : Recorded { h with colony := c, marks, births } where
  past := by
    show ∀ s ∈ h.steps, s.clock < c.clock
    rw [same]
    exact recorded.past
  once := recorded.once
  settled := recorded.settled
  told := recorded.told

end Parts

/-- What holds of a chronicle after some parts of ticks and any other calls between them. -/
structure Sound (h : Chronicle) (ps : List Colony.Part) : Prop where
  enrolled : h.Enrolled
  recorded : h.Recorded
  clock : h.colony.clock = ps.count .runWorld
  phase : h.colony.phase = Colony.phaseAfter ps

theorem sound_start {grid : Grid} {settings : Settings} {c : Colony}
    (made : Colony.new grid settings = .ok c) : (start c).Sound [] := by
  obtain ⟨settings, -, rfl⟩ := map_eq_ok_iff.mp made
  exact ⟨⟨.nil, rfl, .nil, nofun⟩, ⟨nofun, .nil, nofun, rfl⟩, rfl, rfl⟩

section Calls

variable {h : Chronicle} {ps : List Colony.Part}

theorem Sound.edit (sound : h.Sound ps) {c : Colony} {marks : List Mark} {births : Nat}
    (enrolled : Enrolled { h with colony := c, marks, births })
    (clock : c.clock = h.colony.clock) (phase : c.phase = h.colony.phase) :
    Sound { h with colony := c, marks, births } ps :=
  ⟨enrolled, sound.recorded.keep clock, clock.trans sound.clock, phase.trans sound.phase⟩

theorem Sound.part (sound : h.Sound ps) {c : Colony} {marks : List Mark} {p : Colony.Part}
    (enrolled : Enrolled { h with colony := c, marks }) (clock : c.clock = h.colony.clock)
    (phase : c.phase = Colony.phaseAfter [p]) (other : p ≠ .runWorld) :
    Sound { h with colony := c, marks } (ps ++ [p]) where
  enrolled := enrolled
  recorded := sound.recorded.keep clock
  clock := by
    rw [List.count_append, List.count_singleton, if_neg (by simpa using other)]
    exact clock.trans sound.clock
  phase := by
    rw [Colony.phaseAfter_concat]
    exact phase

/-- Calls that are no part of a tick are never refused for the phase and do not change it. -/
theorem Sound.exists_edit (sound : h.Sound ps) {op : Colony.Operation} (edits : op.part? = none) :
    ∃ h', h.perform op = .ok h' ∧ h'.Sound ps := by
  cases op with
  | part p => cases edits
  | spawn code =>
    simp only [perform]
    split
    · next c id spawned =>
      have enrolled := sound.enrolled.spawn spawned
      obtain ⟨program, rfl⟩ := Colony.spawn_cases spawned
      exact ⟨_, rfl, sound.edit enrolled rfl rfl⟩
    · exact ⟨h, rfl, sound⟩
  | despawn id =>
    simp only [perform]
    split
    · next c w despawned =>
      have enrolled := sound.enrolled.despawn despawned
      rw [Colony.despawn_cases despawned] at enrolled ⊢
      exact ⟨_, rfl, sound.edit enrolled rfl rfl⟩
    · exact ⟨h, rfl, sound⟩
  | assign id code =>
    simp only [perform]
    split
    · next c assigned =>
      have enrolled := sound.enrolled.assign assigned
      obtain ⟨program, rfl⟩ := Colony.assign_cases assigned
      exact ⟨_, rfl, sound.edit enrolled rfl rfl⟩
    · exact ⟨h, rfl, sound⟩
  | reloadAll code =>
    simp only [perform]
    split
    · next c reloaded =>
      have enrolled := sound.enrolled.reloadAll reloaded
      obtain ⟨program, rfl⟩ := Colony.reloadAll_cases reloaded
      exact ⟨_, rfl, sound.edit enrolled rfl rfl⟩
    · exact ⟨h, rfl, sound⟩

/-- A part that comes right after the one it needs does not fault. -/
theorem Sound.exists_part (sound : h.Sound ps) {p : Colony.Part}
    (last : ∀ needed, p.needs? = some needed → ps.getLast? = some needed) :
    ∃ h', h.perform (.part p) = .ok h' ∧ h'.Sound (ps ++ [p]) := by
  have phase {needed : Colony.Part} (needs : p.needs? = some needed) :
      h.colony.phase = Colony.phaseAfter [needed] :=
    sound.phase.trans ((Colony.phaseAfter_eq_iff needs).mpr (last needed needs))
  cases p with
  | reset => exact ⟨_, rfl, sound.part sound.enrolled.reset rfl rfl nofun⟩
  | runLocal =>
    have ready : h.colony.phase = .ready := phase rfl
    obtain ⟨ws, ran, runs, related⟩ := Colony.exists_runLocalAll
      (Mark.forall_fits sound.enrolled.marked) h.colony.clock h.colony.settings.maxStepsPerTick
    have done := Colony.runLocal_eq_ok_iff.mpr ⟨ready, ws, ran, runs, rfl⟩
    exact ⟨_, map_eq_ok_iff.mpr ⟨_, done, rfl⟩,
      sound.part (sound.enrolled.runLocal related ran) rfl rfl nofun⟩
  | await =>
    have done : h.colony.phase = .localDone := phase rfl
    have waits := Colony.await_eq_ok_iff.mpr ⟨done, rfl⟩
    have enrolled : Enrolled { h with colony := { h.colony with phase := .awaited } } :=
      { sound.enrolled with }
    exact ⟨_, map_eq_ok_iff.mpr ⟨_, waits, rfl⟩, sound.part enrolled rfl rfl nofun⟩
  | runWorld =>
    have awaited : h.colony.phase = .awaited := phase rfl
    obtain ⟨g, ws, n, turns, -⟩ := Colony.exists_takeTurns h.colony.settings.scentDeposit
      h.colony.grid h.colony.workers
    have done := Colony.runWorld_eq_ok_iff.mpr ⟨awaited, g, ws, n, turns, rfl⟩
    refine ⟨_, map_eq_ok_iff.mpr ⟨_, done, rfl⟩, sound.enrolled.runWorld turns _ _,
      sound.recorded.runWorld sound.enrolled turns, ?_, ?_⟩
    · rw [List.count_append, ← sound.clock]
      rfl
    · rw [Colony.phaseAfter_concat]
      rfl

/-- A part that comes after another than the one it needs is refused. -/
theorem Sound.perform_eq_error (sound : h.Sound ps) {p needed : Colony.Part}
    (needs : p.needs? = some needed) (other : ps.getLast? ≠ some needed) :
    h.perform (.part p) = .error .partsOutOfOrder := by
  have busy : h.colony.phase ≠ Colony.phaseAfter [needed] := by
    rw [sound.phase]
    exact mt (Colony.phaseAfter_eq_iff needs).mp other
  cases p with
  | reset => cases needs
  | runLocal =>
    cases needs
    have busy : h.colony.phase ≠ .ready := busy
    simp only [perform, Colony.runLocal, if_neg busy]
    rfl
  | await =>
    cases needs
    have busy : h.colony.phase ≠ .localDone := busy
    simp only [perform, Colony.await, if_neg busy]
    rfl
  | runWorld =>
    cases needs
    have busy : h.colony.phase ≠ .awaited := busy
    simp only [perform, Colony.runWorld, if_neg busy]
    rfl

end Calls

section Runs

variable {h : Chronicle}

theorem performAll_concat (h : Chronicle) (ops : List Colony.Operation) (op : Colony.Operation) :
    h.performAll (ops ++ [op]) = h.performAll ops >>= (·.perform op) :=
  foldlM_concat perform h ops op

/-- Calls of a new colony end well exactly when the parts of ticks among them are in order. -/
theorem performAll_cases (sound : h.Sound []) (ops : List Colony.Operation) :
    (Colony.InOrder (Colony.parts ops) ∧
      ∃ h', h.performAll ops = .ok h' ∧ h'.Sound (Colony.parts ops)) ∨
    (¬Colony.InOrder (Colony.parts ops) ∧ h.performAll ops = .error .partsOutOfOrder) := by
  -- A part is judged by the parts before it; other calls do not count.
  induction ops using List.reverseRecOn with
  | nil => exact .inl ⟨Colony.inOrder_nil, h, rfl, sound⟩
  | append_singleton ops op ih =>
    rw [performAll_concat, Colony.parts_concat]
    rcases ih with ⟨ordered, before, performed, sound⟩ | ⟨disordered, refused⟩
    · rw [performed, ok_bind]
      cases called : op.part? with
      | none =>
        rw [Option.toList_none, List.append_nil]
        exact .inl ⟨ordered, sound.exists_edit called⟩
      | some p =>
        obtain rfl : op = .part p := by
          cases op <;> cases called
          rfl
        rw [Option.toList_some, Colony.inOrder_concat_iff]
        by_cases last : ∀ needed, p.needs? = some needed →
            (Colony.parts ops).getLast? = some needed
        · exact .inl ⟨⟨ordered, last⟩, sound.exists_part last⟩
        · refine .inr ⟨fun both => last both.2, ?_⟩
          simp only [not_forall] at last
          obtain ⟨needed, needs, other⟩ := last
          exact sound.perform_eq_error needs other
    · rw [refused, error_bind]
      refine .inr ⟨?_, rfl⟩
      cases op.part? with
      | none =>
        rw [Option.toList_none, List.append_nil]
        exact disordered
      | some p =>
        rw [Option.toList_some, Colony.inOrder_concat_iff]
        exact fun both => disordered both.1

end Runs

end Chronicle

namespace Colony

/-- Each of some calls that all end well was made of the colony that the calls before it left. -/
theorem exists_perform_of_performAll {c last : Colony} {front back : List Operation}
    {op : Operation} (performed : c.performAll (front ++ op :: back) = .ok last) :
    ∃ before after, c.performAll front = .ok before ∧ before.perform op = .ok after := by
  unfold performAll at performed
  rw [List.foldlM_append] at performed
  obtain ⟨before, first, rest⟩ := bind_eq_ok_iff.mp performed
  rw [List.foldlM_cons] at rest
  obtain ⟨after, second, -⟩ := bind_eq_ok_iff.mp rest
  exact ⟨before, after, first, second⟩

/-- A host may make any calls of a new colony. None is refused for its order exactly when every
part of a tick among them comes right after the part it needs. Then all calls end; the clock counts
the world parts; only they and despawning touch the grid; no worker runs two steps of world parts at
one clock; and a worker that was born or got its program after the last local part runs none. -/
theorem performAll_ne_error_iff_inOrder {grid : Grid} {settings : Settings} {c : Colony}
    (made : new grid settings = .ok c) (ops : List Operation) :
    (c.performAll ops ≠ .error .partsOutOfOrder ↔ InOrder (parts ops)) ∧
    (InOrder (parts ops) → ∃ h, (Chronicle.start c).performAll ops = .ok h ∧
      c.performAll ops = .ok h.colony ∧
      h.colony.clock = (parts ops).count .runWorld ∧
      (∀ front op back, ops = front ++ op :: back → ∃ before after,
        c.performAll front = .ok before ∧ before.perform op = .ok after ∧
        (after.grid = before.grid ∨ op = .part .runWorld ∨ ∃ id, op = .despawn id)) ∧
      h.colony.ids = h.marks.map Mark.id ∧ (h.marks.map Mark.birth).Nodup ∧
      h.steps.length = h.reported ∧
      (h.steps.map fun s => (s.clock, s.mark.birth)).Nodup ∧
      ∀ s ∈ h.steps, s.mark.renewed = false) := by
  have same := (Chronicle.start c).map_colony_performAll ops
  rcases Chronicle.performAll_cases (Chronicle.sound_start made) ops with
    ⟨ordered, h, performed, sound⟩ | ⟨disordered, refused⟩
  · have ends : c.performAll ops = .ok h.colony := by
      rw [performed] at same
      exact same.symm
    refine ⟨⟨fun _ => ordered, fun _ => by rw [ends]; nofun⟩, fun _ => ⟨h, performed, ends,
      sound.clock, ?_, Mark.map_id_eq sound.enrolled.marked, ?_, sound.recorded.told,
      sound.recorded.once, sound.recorded.settled⟩⟩
    · rintro front op back rfl
      obtain ⟨before, after, first, second⟩ := exists_perform_of_performAll ends
      exact ⟨before, after, first, second, grid_perform second⟩
    · exact sound.enrolled.increasing.imp Nat.ne_of_lt
  · have refused : c.performAll ops = .error .partsOutOfOrder := by
      rw [refused] at same
      exact same.symm
    exact ⟨⟨fun other => absurd refused other, fun ordered => absurd ordered disordered⟩,
      fun ordered => absurd ordered disordered⟩

/-- A new colony on two tiles. -/
def clearing : Colony :=
  ⟨Grid.clear 2 1, [], 0, 0, .standard, .idle, 0⟩

/-- A tick with two workers that move, the second of which comes after the local part. -/
def latecomer : List Operation :=
  let moves : MachineCode := ⟨Instruction.encode ⟨.move, .bare⟩, .empty⟩
  [.spawn moves, .part .reset, .part .runLocal, .spawn moves, .part .await, .part .runWorld]

theorem performAll_ne_error_iff_inOrder_latecomer :
    Colony.new (Grid.clear 2 1) .standard = .ok clearing ∧ InOrder (parts latecomer) ∧
      ∃ h, (Chronicle.start clearing).performAll latecomer = .ok h ∧ h.colony.clock = 1 ∧
        h.colony.ids = [0, 1] ∧
        h.steps.map (fun s => (s.clock, s.mark.birth, s.mark.renewed)) = [(0, 0, false)] := by
  have made : Colony.new (Grid.clear 2 1) .standard = .ok clearing := rfl
  have ordered : InOrder (parts latecomer) := by
    show InOrder (((([] ++ [.reset]) ++ [.runLocal]) ++ [.await]) ++ [.runWorld])
    simp only [inOrder_concat_iff]
    simp [inOrder_nil, Part.needs?]
  obtain ⟨h, performed, -, clock, -, ids, -⟩ :=
    (performAll_ne_error_iff_inOrder made latecomer).2 ordered
  have seen : ((Chronicle.start clearing).performAll latecomer).toOption.map (fun h =>
      (h.marks.map Mark.id, h.steps.map (fun s => (s.clock, s.mark.birth, s.mark.renewed)))) =
        some ([0, 1], [(0, 0, false)]) := by
    decide +kernel
  rw [performed] at seen
  obtain ⟨marks, steps⟩ := Prod.mk.inj (Option.some.inj seen)
  exact ⟨made, ordered, h, performed, clock, ids.trans marks, steps⟩

end Colony

end Formicary
