import Formicary.Proofs.Encoding
import Formicary.Proofs.LocalSteps
import Formicary.Proofs.Occupancy
import Formicary.Proofs.Turns

/-!
# What becomes of a colony

Everything a host can do to a colony short of writing to a worker's state. Along all such histories
every worker's stack lies in its memory, so no tick ever faults. Where only whole ticks are taken,
the numbers of the workers increase along their list and no worker has a request between ticks.
-/

namespace Formicary

theorem Cpu.fits_initial : Cpu.initial.Fits :=
  ⟨by decide, by decide⟩

namespace Worker

/-- What a host can let a single worker do, on any grid. -/
inductive Call : Worker → Worker → Prop where
  | reset (w : Worker) : Call w w.reset
  | runLocal {w w' : Worker} {clock budget ran : Nat}
    (runs : w.runLocal clock budget = .ok (w', ran)) : Call w w'
  | runWorld {w w' : Worker} {g : Grid} {cost : Option Nat}
    (runs : w.runWorld g = .ok (w', cost)) : Call w w'
  | resolve (w : Worker) (g : Grid) (deposit : UInt8) : Call w (w.resolve g deposit).1

theorem Call.fits {w w' : Worker} (call : Call w w') (fits : w.cpu.Fits) : w'.cpu.Fits := by
  cases call with
  | reset => exact fits
  | runLocal runs =>
    obtain ⟨v, ran, same, kept⟩ := exists_runLocal fits _ _
    rw [runs] at same
    cases same
    exact kept.fits
  | runWorld runs =>
    rw [runWorld_eq_acted] at runs
    cases runs
    exact (keptBy_acted _).fits fits
  | resolve => exact keptBy_resolve.fits fits

theorem fits_new (id : WorkerId) (code : MachineCode) (program : Program) :
    (Worker.new id code program).cpu.Fits :=
  Cpu.fits_initial

theorem fits_load (w : Worker) (code : MachineCode) (program : Program) (fits : w.cpu.Fits) :
    (w.load code program).cpu.Fits :=
  ⟨Nat.zero_le _, fits.memory⟩

/-- What a turn makes of a worker. -/
structure TurnFrom (w w' : Worker) : Prop extends w.KeptBy w' where
  quiet : w'.cpu.Quiet

section Lists

variable {R : Worker → Worker → Prop} {ws ws' : List Worker}

theorem forall_of_forall₂ {P Q : Worker → Prop} (related : List.Forall₂ R ws ws')
    (all : ∀ w ∈ ws, P w) (step : ∀ w w', R w w' → P w → Q w') : ∀ w ∈ ws', Q w := by
  induction related with
  | nil => simp
  | cons first _ ih =>
    rw [List.forall_mem_cons] at all ⊢
    exact ⟨step _ _ first all.1, ih all.2⟩

theorem map_id_of_forall₂ (related : List.Forall₂ R ws ws') (same : ∀ w w', R w w' → w'.id = w.id) :
    ws'.map Worker.id = ws.map Worker.id := by
  induction related with
  | nil => rfl
  | cons first _ ih => rw [List.map_cons, List.map_cons, same _ _ first, ih]

theorem forall_cpu_reset {P : Cpu → Prop} (all : ∀ w ∈ ws, P w.cpu) :
    ∀ w ∈ ws.map reset, P w.cpu := by
  intro w member
  obtain ⟨v, old, rfl⟩ := List.mem_map.mp member
  exact all v old

end Lists

end Worker

section FirstMatch

variable {α β : Type} {p : α → Bool} {f : α → α}

theorem modify_findIdx_cons_of_pos {a : α} (here : p a = true) (l : List α) :
    (a :: l).modify ((a :: l).findIdx p) f = f a :: l := by
  rw [List.findIdx_cons, here]
  rfl

theorem modify_findIdx_cons_of_neg {a : α} (elsewhere : ¬p a = true) (l : List α) :
    (a :: l).modify ((a :: l).findIdx p) f = a :: l.modify (l.findIdx p) f := by
  rw [List.findIdx_cons, Bool.eq_false_iff.mpr elsewhere]
  rfl

theorem mem_modify_findIdx {l : List α} {b : α} (member : b ∈ l.modify (l.findIdx p) f) :
    b ∈ l ∨ ∃ a, l.find? p = some a ∧ b = f a := by
  induction l with
  | nil => cases member
  | cons a l ih =>
    by_cases here : p a = true
    · rw [modify_findIdx_cons_of_pos here, List.mem_cons] at member
      rcases member with rfl | old
      · exact .inr ⟨a, List.find?_cons_of_pos here, rfl⟩
      · exact .inl (List.mem_cons_of_mem a old)
    · rw [modify_findIdx_cons_of_neg here, List.mem_cons] at member
      rw [List.find?_cons_of_neg here, List.mem_cons]
      rcases member with rfl | later
      · exact .inl (.inl rfl)
      · exact (ih later).imp_left .inr

/-- What the change of an element keeps is kept all along the list. -/
theorem map_modify_findIdx {k : α → β} {l : List α}
    (same : ∀ a, l.find? p = some a → k (f a) = k a) :
    (l.modify (l.findIdx p) f).map k = l.map k := by
  induction l with
  | nil => rfl
  | cons a l ih =>
    by_cases here : p a = true
    · rw [modify_findIdx_cons_of_pos here, List.map_cons, List.map_cons,
        same a (List.find?_cons_of_pos here)]
    · rw [modify_findIdx_cons_of_neg here, List.map_cons, List.map_cons, ih]
      rw [List.find?_cons_of_neg here] at same
      exact same

end FirstMatch

namespace Colony

/-- What a host can do to a colony apart from the parts of a tick. -/
inductive Edit : Colony → Colony → Prop where
  | spawn {c c' : Colony} {code : MachineCode} {id : WorkerId}
    (spawned : c.spawn code = .ok (c', id)) : Edit c c'
  | despawn {c c' : Colony} {id : WorkerId} {w : Worker}
    (despawned : c.despawn id = some (c', w)) : Edit c c'
  | assign {c c' : Colony} {id : WorkerId} {code : MachineCode}
    (assigned : c.assign id code = .ok c') : Edit c c'
  | reloadAll {c c' : Colony} {code : MachineCode}
    (reloaded : c.reloadAll code = .ok c') : Edit c c'
  | grid (c : Colony) (a : Grid.Action) : Edit c { c with grid := (c.grid.perform a).1 }

/-- The colonies that a host gets to without writing to a worker's state, within a tick or between
ticks. A worker that is called by itself may be left in the middle of its turn. -/
inductive Reachable : Colony → Prop where
  | new {grid : Grid} {settings : Settings} {c : Colony} (consistent : grid.Consistent)
    (made : new grid settings = .ok c) : Reachable c
  | edit {c c' : Colony} (before : Reachable c) (edit : Edit c c') : Reachable c'
  | regrid {c : Colony} {grid : Grid} (before : Reachable c) (consistent : grid.Consistent) :
    Reachable { c with grid }
  | call {c : Colony} {id : WorkerId} {w w' : Worker} (before : Reachable c)
    (found : c.worker? id = some w) (call : w.Call w') :
    Reachable (c.modifyWorker id fun _ => w')
  | reset {c : Colony} (before : Reachable c) : Reachable c.reset
  | runLocal {c c' : Colony} (before : Reachable c) (runs : c.runLocal = .ok c') : Reachable c'
  | await {c c' : Colony} (before : Reachable c) (waits : c.await = .ok c') : Reachable c'
  | runWorld {c c' : Colony} {stats : TickStats} (before : Reachable c)
    (runs : c.runWorld = .ok (c', stats)) : Reachable c'

/-- The colonies that a host gets to between ticks. The numbers given to workers do not start again
from zero. -/
inductive BetweenTicks : Colony → Prop where
  | new {grid : Grid} {settings : Settings} {c : Colony} (built : grid.Built)
    (made : new grid settings = .ok c) : BetweenTicks c
  | edit {c c' : Colony} (before : BetweenTicks c) (edit : Edit c c')
    (counted : c.nextId ≤ c'.nextId) : BetweenTicks c'
  | tick {c c' : Colony} {stats : TickStats} (before : BetweenTicks c)
    (ticks : c.tick = .ok (c', stats)) : BetweenTicks c'

section Parts

variable {c c' : Colony}

theorem runLocal_eq_ok_iff :
    c.runLocal = .ok c' ↔ c.phase = .ready ∧ ∃ ws ran,
      runLocalAll c.clock c.settings.maxStepsPerTick c.workers = .ok (ws, ran) ∧
      c' = { c with workers := ws, phase := .localDone, localSteps := ran } := by
  unfold runLocal
  split
  · next ready =>
    rw [map_eq_ok_iff]
    constructor
    · rintro ⟨⟨ws, ran⟩, runs, rfl⟩
      exact ⟨ready, ws, ran, runs, rfl⟩
    · rintro ⟨-, ws, ran, runs, rfl⟩
      exact ⟨(ws, ran), runs, rfl⟩
  · next busy => simp [busy]

theorem await_eq_ok_iff :
    c.await = .ok c' ↔ c.phase = .localDone ∧ c' = { c with phase := .awaited } := by
  unfold await
  split
  · next done => simp [done, eq_comm]
  · next busy => simp [busy]

theorem runWorld_eq_ok_iff {r : Colony × TickStats} :
    c.runWorld = .ok r ↔ c.phase = .awaited ∧ ∃ g ws worldSteps,
      takeTurns c.settings.scentDeposit c.grid c.workers = .ok (g, ws, worldSteps) ∧
      r = ({ c with grid := g, workers := ws, clock := c.clock + 1, phase := .idle },
        ⟨c.clock, c.localSteps, worldSteps⟩) := by
  unfold runWorld
  split
  · next awaited =>
    rw [map_eq_ok_iff]
    constructor
    · rintro ⟨⟨g, ws, worldSteps⟩, turns, rfl⟩
      exact ⟨awaited, g, ws, worldSteps, turns, rfl⟩
    · rintro ⟨-, g, ws, worldSteps, turns, rfl⟩
      exact ⟨(g, ws, worldSteps), turns, rfl⟩
  · next busy => simp [busy]

/-- A tick is the local part of all workers and then their turns. -/
theorem tick_eq_ok_iff {r : Colony × TickStats} :
    c.tick = .ok r ↔ ∃ ready ran g ws worldSteps,
      runLocalAll c.clock c.settings.maxStepsPerTick (c.workers.map Worker.reset) =
        .ok (ready, ran) ∧
      takeTurns c.settings.scentDeposit c.grid ready = .ok (g, ws, worldSteps) ∧
      r = ({ c with
        grid := g
        workers := ws
        clock := c.clock + 1
        phase := .idle
        localSteps := ran }, ⟨c.clock, ran, worldSteps⟩) := by
  unfold tick
  simp only [bind_eq_ok_iff, runLocal_eq_ok_iff, await_eq_ok_iff, runWorld_eq_ok_iff]
  constructor
  · rintro ⟨-, ⟨-, ready, ran, runs, rfl⟩, -, ⟨-, rfl⟩, -, g, ws, worldSteps, turns, rfl⟩
    exact ⟨ready, ran, g, ws, worldSteps, runs, turns, rfl⟩
  · rintro ⟨ready, ran, g, ws, worldSteps, runs, turns, rfl⟩
    exact ⟨_, ⟨rfl, ready, ran, runs, rfl⟩, _, ⟨rfl, rfl⟩, rfl, g, ws, worldSteps, turns, rfl⟩

theorem exists_takeTurns (deposit : UInt8) (g : Grid) (ws : List Worker) :
    ∃ g' ws' worldSteps, takeTurns deposit g ws = .ok (g', ws', worldSteps) ∧
      List.Forall₂ Worker.TurnFrom ws ws' := by
  induction ws generalizing g with
  | nil => exact ⟨g, [], 0, rfl, .nil⟩
  | cons w ws ih =>
    have turn := w.takeTurn_eq g deposit
    obtain ⟨kept, quiet⟩ := Worker.keptBy_takeTurn turn
    obtain ⟨g', ws', worldSteps, turns, later⟩ :=
      ih ((w.acted (g.surroundings w.id)).resolve g deposit).2
    unfold takeTurns
    rw [turn]
    simp only [turns]
    exact ⟨_, _, _, rfl, .cons ⟨kept, quiet⟩ later⟩

end Parts

section Edits

variable {c c' : Colony}

theorem mem_modifyWorker {id : WorkerId} {f : Worker → Worker} {w' : Worker}
    (member : w' ∈ (c.modifyWorker id f).workers) :
    w' ∈ c.workers ∨ ∃ w, c.worker? id = some w ∧ w' = f w :=
  mem_modify_findIdx member

/-- An edit only adds new workers and gives other programs to workers that are there. -/
theorem Edit.mem_workers (edit : Edit c c') {w' : Worker} (member : w' ∈ c'.workers) :
    (∃ id code program, w' = Worker.new id code program) ∨ w' ∈ c.workers ∨
      ∃ w ∈ c.workers, ∃ code program, w' = w.load code program := by
  cases edit with
  | spawn spawned =>
    unfold Colony.spawn at spawned
    split at spawned
    · cases spawned
    · cases spawned
      rcases List.mem_append.mp member with old | new
      · exact .inr (.inl old)
      · rw [List.mem_singleton] at new
        exact .inl ⟨_, _, _, new⟩
  | despawn despawned =>
    obtain ⟨w, -, same⟩ := Option.map_eq_some_iff.mp despawned
    cases same
    exact .inr (.inl (List.mem_of_mem_eraseP member))
  | assign assigned =>
    unfold Colony.assign at assigned
    split at assigned
    · cases assigned
    · split at assigned
      · cases assigned
        rcases mem_modifyWorker member with old | ⟨w, found, rfl⟩
        · exact .inr (.inl old)
        · exact .inr (.inr ⟨w, List.mem_of_find?_eq_some found, _, _, rfl⟩)
      · cases assigned
  | reloadAll reloaded =>
    unfold Colony.reloadAll at reloaded
    split at reloaded
    · cases reloaded
      exact .inr (.inl member)
    · split at reloaded
      · cases reloaded
      · cases reloaded
        obtain ⟨w, old, rfl⟩ := List.mem_map.mp member
        exact .inr (.inr ⟨w, old, _, _, rfl⟩)
  | grid => exact .inr (.inl member)

/-- What new workers have and a new program does not take away survives all edits. -/
theorem Edit.forall_workers (edit : Edit c c') {P : Worker → Prop}
    (new : ∀ id code program, P (Worker.new id code program))
    (load : ∀ w code program, P w → P (w.load code program)) (all : ∀ w ∈ c.workers, P w) :
    ∀ w ∈ c'.workers, P w := by
  intro w' member
  rcases edit.mem_workers member with ⟨id, code, program, rfl⟩ | old | ⟨w, old, code, program, rfl⟩
  · exact new id code program
  · exact all w' old
  · exact load w code program (all w old)

/-- The numbers of a colony's workers, in the order of their turns. -/
def ids (c : Colony) : List WorkerId :=
  c.workers.map Worker.id

theorem ids_modifyWorker {id : WorkerId} {f : Worker → Worker}
    (same : ∀ w, c.worker? id = some w → (f w).id = w.id) : (c.modifyWorker id f).ids = c.ids :=
  map_modify_findIdx same

theorem Edit.ids (edit : Edit c c') :
    (c'.nextId = c.nextId + 1 ∧ c'.ids = c.ids ++ [c.nextId]) ∨
      (c'.nextId = c.nextId ∧ c'.ids.Sublist c.ids) := by
  cases edit with
  | spawn spawned =>
    unfold Colony.spawn at spawned
    split at spawned
    · cases spawned
    · cases spawned
      exact .inl ⟨rfl, List.map_append⟩
  | despawn despawned =>
    obtain ⟨w, -, same⟩ := Option.map_eq_some_iff.mp despawned
    cases same
    exact .inr ⟨rfl, List.eraseP_sublist.map _⟩
  | assign assigned =>
    unfold Colony.assign at assigned
    split at assigned
    · cases assigned
    · split at assigned
      · cases assigned
        refine .inr ⟨rfl, ?_⟩
        rw [ids_modifyWorker]
        intro w _
        rfl
      · cases assigned
  | reloadAll reloaded =>
    unfold Colony.reloadAll at reloaded
    split at reloaded
    · cases reloaded
      exact .inr ⟨rfl, .refl _⟩
    · split at reloaded
      · cases reloaded
      · cases reloaded
        refine .inr ⟨rfl, ?_⟩
        unfold Colony.ids
        rw [List.map_map]
        exact .refl _
  | grid => exact .inr ⟨rfl, .refl _⟩

end Edits

/-- Along every history each worker's stack lies in its memory. -/
theorem Reachable.fits {c : Colony} (reachable : c.Reachable) : ∀ w ∈ c.workers, w.cpu.Fits := by
  induction reachable with
  | new consistent made =>
    obtain ⟨settings, -, rfl⟩ := map_eq_ok_iff.mp made
    simp
  | edit before edit ih => exact edit.forall_workers Worker.fits_new Worker.fits_load ih
  | regrid before consistent ih => exact ih
  | call before found call ih =>
    intro w member
    rcases mem_modifyWorker member with old | ⟨v, -, rfl⟩
    · exact ih w old
    · exact call.fits (ih _ (List.mem_of_find?_eq_some found))
  | reset before ih => exact Worker.forall_cpu_reset ih
  | runLocal before runs ih =>
    obtain ⟨-, ws, ran, ends, rfl⟩ := runLocal_eq_ok_iff.mp runs
    obtain ⟨ws', ran', same, related⟩ := exists_runLocalAll ih _ _
    cases ends.symm.trans same
    exact Worker.forall_of_forall₂ related ih fun _ _ first _ => first.fits
  | await before waits ih =>
    obtain ⟨-, rfl⟩ := await_eq_ok_iff.mp waits
    exact ih
  | runWorld before runs ih =>
    obtain ⟨-, g, ws, worldSteps, turns, made⟩ := runWorld_eq_ok_iff.mp runs
    obtain ⟨g', ws', worldSteps', same, related⟩ := exists_takeTurns _ _ _
    cases made
    cases turns.symm.trans same
    exact Worker.forall_of_forall₂ related ih fun _ _ first => first.fits

section Ticks

variable {c c' : Colony}

/-- A tick of a colony whose workers' stacks lie in their memories does not fault. -/
theorem exists_tick (fits : ∀ w ∈ c.workers, w.cpu.Fits) :
    ∃ ready ran g ws worldSteps,
      runLocalAll c.clock c.settings.maxStepsPerTick (c.workers.map Worker.reset) =
        .ok (ready, ran) ∧
      List.Forall₂ Worker.LocallyFrom (c.workers.map Worker.reset) ready ∧
      takeTurns c.settings.scentDeposit c.grid ready = .ok (g, ws, worldSteps) ∧
      List.Forall₂ Worker.TurnFrom ready ws ∧
      c.tick = .ok ({ c with
        grid := g
        workers := ws
        clock := c.clock + 1
        phase := .idle
        localSteps := ran }, ⟨c.clock, ran, worldSteps⟩) := by
  obtain ⟨ready, ran, runs, locals⟩ :=
    exists_runLocalAll (Worker.forall_cpu_reset fits) c.clock c.settings.maxStepsPerTick
  obtain ⟨g, ws, worldSteps, turns, later⟩ := exists_takeTurns c.settings.scentDeposit c.grid ready
  exact ⟨ready, ran, g, ws, worldSteps, runs, locals, turns, later,
    tick_eq_ok_iff.mpr ⟨ready, ran, g, ws, worldSteps, runs, turns, rfl⟩⟩

theorem map_id_of_tick {ready ws : List Worker}
    (locals : List.Forall₂ Worker.LocallyFrom (c.workers.map Worker.reset) ready)
    (turns : List.Forall₂ Worker.TurnFrom ready ws) : ws.map Worker.id = c.ids := by
  rw [Worker.map_id_of_forall₂ turns fun _ _ turn => turn.id,
    Worker.map_id_of_forall₂ locals fun _ _ first => first.id, List.map_map]
  rfl

/-- Every tick of a colony that a host gets to ends, with as many workers as before it. -/
theorem Reachable.tick (reachable : c.Reachable) :
    ∃ c' stats, c.tick = .ok (c', stats) ∧ c'.Reachable ∧
      c'.workers.length = c.workers.length ∧ c'.settings = c.settings := by
  obtain ⟨ready, ran, g, ws, worldSteps, -, locals, -, turns, ticks⟩ := exists_tick reachable.fits
  have parts := ticks
  unfold Colony.tick at parts
  obtain ⟨done, runs, rest⟩ := bind_eq_ok_iff.mp parts
  obtain ⟨awaited, waits, ends⟩ := bind_eq_ok_iff.mp rest
  refine ⟨_, _, ticks, (((reachable.reset).runLocal runs).await waits).runWorld ends, ?_, rfl⟩
  simpa [ids] using congrArg List.length (map_id_of_tick locals turns)

/-- What holds of every colony between ticks. -/
structure Settled (c : Colony) : Prop where
  increasing : c.ids.Pairwise (· < ·)
  below : ∀ id ∈ c.ids, id < c.nextId
  fits : ∀ w ∈ c.workers, w.cpu.Fits
  quiet : ∀ w ∈ c.workers, w.cpu.Quiet

theorem Settled.edit (settled : c.Settled) (edit : Edit c c') (counted : c.nextId ≤ c'.nextId) :
    c'.Settled where
  increasing := by
    rcases edit.ids with ⟨-, ids⟩ | ⟨-, ids⟩
    · rw [ids, List.pairwise_append]
      refine ⟨settled.increasing, List.pairwise_singleton _ _, fun id member new last => ?_⟩
      rw [List.mem_singleton.mp last]
      exact settled.below id member
    · exact settled.increasing.sublist ids
  below := by
    rcases edit.ids with ⟨next, ids⟩ | ⟨next, ids⟩
    · have more : c.nextId < c'.nextId := by
        rw [next] at counted ⊢
        exact UInt32.lt_of_le_of_ne counted (by simp)
      intro id member
      rw [ids, List.mem_append, List.mem_singleton] at member
      rcases member with old | rfl
      · exact UInt32.lt_trans (settled.below id old) more
      · exact more
    · rw [next]
      exact fun id member => settled.below id (ids.mem member)
  fits := edit.forall_workers Worker.fits_new Worker.fits_load settled.fits
  quiet := edit.forall_workers (fun _ _ _ => ⟨rfl, rfl⟩) (fun _ _ _ _ => ⟨rfl, rfl⟩) settled.quiet

theorem Settled.tick {stats : TickStats} (settled : c.Settled) (ticks : c.tick = .ok (c', stats)) :
    c'.Settled := by
  obtain ⟨ready, ran, g, ws, worldSteps, -, locals, -, turns, same⟩ := exists_tick settled.fits
  cases ticks.symm.trans same
  have ids := (map_id_of_tick locals turns).symm
  have fits : ∀ w ∈ ready, w.cpu.Fits :=
    Worker.forall_of_forall₂ locals (Worker.forall_cpu_reset settled.fits) fun _ _ first _ => first.fits
  exact {
    increasing := (congrArg (List.Pairwise (· < ·)) ids).mp settled.increasing
    below := fun id member => settled.below id (ids ▸ member)
    fits := Worker.forall_of_forall₂ turns fits fun _ _ turn => turn.fits
    quiet := Worker.forall_of_forall₂ turns fits fun _ _ turn _ => turn.quiet }

end Ticks

theorem BetweenTicks.settled {c : Colony} (between : c.BetweenTicks) : c.Settled := by
  induction between with
  | new built made =>
    obtain ⟨settings, -, rfl⟩ := map_eq_ok_iff.mp made
    exact ⟨.nil, by simp [ids], by simp, by simp⟩
  | edit before edit counted ih => exact ih.edit edit counted
  | tick before ticks ih => exact ih.tick ticks

/-- A colony with one more worker, whose program has some steps. -/
def joinedBy (c : Colony) (steps : List Instruction) : Colony :=
  let code : MachineCode := ⟨steps.flatMap Instruction.encode, .empty⟩
  { c with
    workers := c.workers ++ [Worker.new c.nextId code steps.toArray]
    nextId := c.nextId + 1 }

theorem Edit.joinedBy (c : Colony) (steps : List Instruction) : Edit c (c.joinedBy steps) := by
  have compiles : MachineCode.compile ⟨steps.flatMap Instruction.encode, .empty⟩ =
      .ok steps.toArray := by
    rw [MachineCode.compile, instructions_flatMap_encode]
    rfl
  have spawned : c.spawn ⟨steps.flatMap Instruction.encode, .empty⟩ =
      .ok (c.joinedBy steps, c.nextId) := by
    rw [Colony.spawn, compiles]
    rfl
  exact .spawn spawned

end Colony

end Formicary
