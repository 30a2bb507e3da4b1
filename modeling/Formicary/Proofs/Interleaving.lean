import Formicary.Proofs.ColonyHistory

/-!
# Interleaved workers

The first two parts of a tick as jobs, one for each worker, of which a schedule runs one single step
after the other. A schedule names the place of the worker whose job is next. Since a job works on
its own worker only, what becomes of it depends on how often it is named and not on when; so all
schedules after which no job is left agree with running the workers one after the other, in every
tick of a run.
-/

namespace Formicary

/-- Work that is not done yet, or its result. -/
inductive Job (σ ρ : Type) where
  | active (state : σ)
  | ended (result : ρ)

/-- Jobs side by side, and the total to which each one adds when it ends. -/
structure Pool (σ ρ : Type) where
  jobs : List (Job σ ρ)
  total : Nat

section Jobs

variable {α σ ρ : Type} (step : σ → Job σ ρ) (count : ρ → Nat)

namespace Job

/-- One step of a job. A job that has ended stays as it is. -/
def advance : Job σ ρ → Job σ ρ
  | .active s => step s
  | .ended r => .ended r

/-- What a job has added to the total. -/
def tally : Job σ ρ → Nat
  | .active _ => 0
  | .ended r => count r

/-- What a job adds to the total with its next step. -/
def gain : Job σ ρ → Nat
  | .active s => (step s).tally count
  | .ended _ => 0

theorem iterate_advance_ended (n : Nat) (r : ρ) : (advance step)^[n] (.ended r) = .ended r :=
  Function.iterate_fixed rfl n

theorem tally_advance (j : Job σ ρ) :
    (j.advance step).tally count = j.tally count + j.gain step count := by
  cases j with
  | active s => exact (Nat.zero_add _).symm
  | ended r => rfl

variable {step}

theorem iterate_advance_of_le {j : Job σ ρ} {r : ρ} {m n : Nat} (le : m ≤ n)
    (ends : (advance step)^[m] j = .ended r) : (advance step)^[n] j = .ended r := by
  obtain ⟨k, rfl⟩ := Nat.exists_eq_add_of_le' le
  rw [Function.iterate_add_apply, ends, iterate_advance_ended]

/-- A job has one result, however many steps it is given. -/
theorem ended_unique {j : Job σ ρ} {r r' : ρ} {m n : Nat} (ends : (advance step)^[m] j = .ended r)
    (ends' : (advance step)^[n] j = .ended r') : r = r' := by
  have first := iterate_advance_of_le (Nat.le_add_right m n) ends
  have second := iterate_advance_of_le (Nat.le_add_left n m) ends'
  exact Job.ended.inj (first.symm.trans second)

end Job

namespace Pool

open Job

/-- What jobs have added to the total. -/
def tallyAll : List (Job σ ρ) → Nat
  | [] => 0
  | j :: js => j.tally count + tallyAll js

/-- The results of jobs that have all ended. -/
def results? : List (Job σ ρ) → Option (List ρ)
  | [] => some []
  | .active _ :: _ => none
  | .ended r :: js => (results? js).map (r :: ·)

/-- One step of the job at a place. -/
def advance (p : Pool σ ρ) (place : Nat) : Pool σ ρ where
  jobs := p.jobs.modify place (Job.advance step)
  total := p.total + (p.jobs[place]?.map (gain step count)).getD 0

/-- Single steps of jobs, in the order of a schedule. -/
def follow (p : Pool σ ρ) (schedule : List Nat) : Pool σ ρ :=
  schedule.foldl (advance step count) p

/-- One new job for each of some things. -/
def start (init : α → σ) (things : List α) : Pool σ ρ :=
  ⟨things.map fun a => .active (init a), 0⟩

variable {step count} {p : Pool σ ρ} {rs : List ρ} {schedule : List Nat}

theorem results?_eq_some_iff {js : List (Job σ ρ)} :
    results? js = some rs ↔ js = rs.map .ended := by
  induction js generalizing rs with
  | nil => cases rs <;> simp [results?]
  | cons j js ih =>
    cases j with
    | active s => cases rs <;> simp [results?]
    | ended r =>
      cases rs with
      | nil => simp [results?]
      | cons r' rs => simp [results?, ih, and_comm]

variable (step count) in
/-- How far a job gets depends only on how often the schedule names it. -/
theorem getElem?_follow (p : Pool σ ρ) (schedule : List Nat) (i : Nat) :
    (p.follow step count schedule).jobs[i]? =
      p.jobs[i]?.map (Job.advance step)^[schedule.count i] := by
  induction schedule generalizing p with
  | nil => simp [follow]
  | cons place schedule ih =>
    have rest := ih (p.advance step count place)
    unfold follow at rest ⊢
    rw [List.foldl_cons, rest, advance, List.getElem?_modify]
    by_cases named : place = i
    · subst named
      rw [List.count_cons_self]
      cases p.jobs[place]? <;> simp
    · rw [List.count_cons_of_ne named]
      simp [named]

theorem tallyAll_modify (js : List (Job σ ρ)) (place : Nat) :
    tallyAll count (js.modify place (Job.advance step)) =
      tallyAll count js + (js[place]?.map (gain step count)).getD 0 := by
  induction js generalizing place with
  | nil => simp [tallyAll]
  | cons j js ih =>
    cases place with
    | zero =>
      simp [tallyAll, tally_advance]
      omega
    | succ place =>
      simp [tallyAll, ih]
      omega

variable (step schedule) in
/-- The total is what the jobs that have ended have added to it, in whatever order they ended. -/
theorem total_follow (added : p.total = tallyAll count p.jobs) :
    (p.follow step count schedule).total = tallyAll count (p.follow step count schedule).jobs := by
  induction schedule generalizing p with
  | nil => exact added
  | cons place schedule ih =>
    refine ih (p := p.advance step count place) ?_
    rw [advance, tallyAll_modify, added]

variable {init : α → σ} {things : List α} {f : α → ρ} {n : Nat}

variable (count init things) in
theorem total_start :
    (start init things : Pool σ ρ).total = tallyAll count (start init things).jobs := by
  unfold start
  induction things with
  | nil => rfl
  | cons a things ih =>
    rw [List.map_cons, tallyAll, tally, Nat.zero_add]
    exact ih

/-- All schedules that end all jobs give the same results and the same total. -/
theorem follow_of_results? (ends : ∀ a, (Job.advance step)^[n] (.active (init a)) = .ended (f a))
    (finished : results? ((start init things).follow step count schedule).jobs = some rs) :
    rs = things.map f ∧ ((start init things).follow step count schedule).total =
      tallyAll count (rs.map (.ended : ρ → Job σ ρ)) := by
  have total := total_follow step schedule (total_start count init things)
  rw [results?_eq_some_iff] at finished
  rw [finished] at total
  refine ⟨List.ext_getElem? fun i => ?_, total⟩
  have job := getElem?_follow step count (start init things) schedule i
  rw [finished, start, List.getElem?_map, List.getElem?_map] at job
  rw [List.getElem?_map]
  cases started : things[i]? with
  | none =>
    rw [started] at job
    exact Option.map_eq_none_iff.mp job
  | some a =>
    rw [started] at job
    obtain ⟨r, found, same⟩ := Option.map_eq_some_iff.mp job
    rw [found, Job.ended_unique same.symm (ends a), Option.map_some]

/-- A schedule that names every job often enough ends them all. -/
theorem results?_follow_of_count
    (ends : ∀ a, (Job.advance step)^[n] (.active (init a)) = .ended (f a))
    (often : ∀ i < things.length, n ≤ schedule.count i) :
    results? ((start init things).follow step count schedule).jobs = some (things.map f) := by
  rw [results?_eq_some_iff]
  refine List.ext_getElem? fun i => ?_
  rw [getElem?_follow, start, List.getElem?_map, List.getElem?_map, List.getElem?_map]
  cases started : things[i]? with
  | none => rfl
  | some a =>
    obtain ⟨inside, -⟩ := List.getElem?_eq_some_iff.mp started
    exact congrArg some (Job.iterate_advance_of_le (often i inside) (ends a))

end Pool

end Jobs

section LocalPart

/-- The job that makes a worker ready. -/
def Worker.resetJob (w : Worker) : Job Worker Worker :=
  .ended w.reset

/-- Where a worker is in its job of the local part of a tick. -/
inductive LocalWork where
  /-- It has not been asked yet whether it is due. -/
  | waiting (w : Worker)
  /-- It is due and has run some steps. -/
  | running (w : Worker) (ran : Nat)

/-- How the local part of a tick ends for a worker. -/
abbrev LocalEnd := Except Fault (Worker × Nat)

/-- A worker that ends the local part of a tick after some steps. -/
def Worker.rest (w : Worker) (ran : Nat) : Worker :=
  { w with routine := w.routine.note (if 0 < ran then .executing else .halted) }

/-- One step of a worker's job: the question whether it is due, or one round of its loop. -/
def LocalWork.step (clock budget : Nat) : LocalWork → Job LocalWork LocalEnd
  | .waiting w =>
    if w.routine.isDue clock then
      .active (.running { w with routine := { w.routine with localDone := true, divisor := 1 } } 0)
    else .ended (.ok (w, 0))
  | .running w ran =>
    if ran < budget then
      match Routine.nextLocal? w.routine.program w.cpu with
      | none => .ended (.ok (w.rest ran, ran))
      | some i =>
        match i.runLocal w.cpu with
        | .error fault => .ended (.error fault)
        | .ok cpu => .active (.running { w with cpu := cpu.advance } (ran + 1))
    else .ended (.ok (w.rest ran, ran))

/-- The steps a worker ran. -/
def LocalEnd.ran : LocalEnd → Nat
  | .error _ => 0
  | .ok (_, ran) => ran

theorem iterate_resetJob (w : Worker) :
    (Job.advance Worker.resetJob)^[1] (.active (id w)) = .ended w.reset :=
  rfl

theorem LocalWork.iterate_running {clock budget : Nat} (w : Worker) {left ran : Nat}
    (sum : left + ran = budget) :
    (Job.advance (step clock budget))^[left + 1] (.active (.running w ran)) =
      .ended (match Routine.runSteps w.routine.program left w.cpu with
        | .error fault => .error fault
        | .ok (cpu, rest) =>
          .ok (({ w with cpu } : Worker).rest (budget - rest), budget - rest)) := by
  -- The job counts the steps it ran, the worker alone what is left of its budget.
  induction left generalizing w ran with
  | zero =>
    have spent : ran = budget := by omega
    simp [Job.advance, step, Routine.runSteps, spent]
  | succ left ih =>
    have more : ran < budget := by omega
    rw [Function.iterate_succ_apply, Job.advance, step, if_pos more, Routine.runSteps]
    cases next : Routine.nextLocal? w.routine.program w.cpu with
    | none =>
      have same : budget - (left + 1) = ran := by omega
      dsimp only
      rw [Job.iterate_advance_ended, same]
    | some i =>
      dsimp only
      cases i.runLocal w.cpu with
      | error fault => exact Job.iterate_advance_ended _ _ _
      | ok cpu => exact ih { w with cpu := cpu.advance } (by omega)

/-- A worker's job does what the worker does alone. -/
theorem LocalWork.iterate_waiting (clock budget : Nat) (w : Worker) :
    (Job.advance (step clock budget))^[budget + 2] (.active (.waiting w)) =
      .ended (w.runLocal clock budget) := by
  rw [Function.iterate_succ_apply, Job.advance, step]
  unfold Worker.runLocal Routine.runLocal
  by_cases due : w.routine.isDue clock = true
  · rw [if_pos due, if_pos due, iterate_running _ (Nat.add_zero budget)]
    dsimp only
    cases Routine.runSteps w.routine.program budget w.cpu <;> rfl
  · rw [if_neg due, if_neg due, Job.iterate_advance_ended]
    rfl

/-- The workers of jobs that did not fault. -/
def LocalEnd.workers : List LocalEnd → Except Fault (List Worker)
  | [] => .ok []
  | .error fault :: _ => .error fault
  | .ok (w, _) :: ends => (workers ends).map (w :: ·)

theorem Colony.runLocalAll_eq (clock budget : Nat) (ws : List Worker) :
    runLocalAll clock budget ws =
      (LocalEnd.workers (ws.map fun w => w.runLocal clock budget)).map fun workers =>
        (workers, Pool.tallyAll LocalEnd.ran ((ws.map fun w => w.runLocal clock budget).map
          (.ended : LocalEnd → Job LocalWork LocalEnd))) := by
  induction ws with
  | nil => rfl
  | cons w ws ih =>
    rw [runLocalAll, ih, List.map_cons, List.map_cons]
    cases w.runLocal clock budget with
    | error fault => rfl
    | ok done =>
      obtain ⟨w', ran⟩ := done
      rw [LocalEnd.workers]
      cases LocalEnd.workers (ws.map fun w => w.runLocal clock budget) <;> rfl

end LocalPart

namespace Colony

/-- Makes all workers ready, each by a job of one step. There is no colony while a job is left. -/
def resetUnder (c : Colony) (schedule : List Nat) : Option Colony :=
  let pool := (Pool.start id c.workers).follow Worker.resetJob (fun _ => 0) schedule
  (Pool.results? pool.jobs).map fun workers =>
    { c with workers, phase := .ready, localSteps := 0 }

/-- The local part of a tick, with single steps of different workers in the order of a schedule. -/
def runLocalUnder (c : Colony) (schedule : List Nat) : Option (Except Fault Colony) :=
  if c.phase = .ready then
    let pool := (Pool.start .waiting c.workers).follow
      (LocalWork.step c.clock c.settings.maxStepsPerTick) LocalEnd.ran schedule
    (Pool.results? pool.jobs).map fun ends => (LocalEnd.workers ends).map fun workers =>
      { c with workers, phase := .localDone, localSteps := pool.total }
  else some (.error .partsOutOfOrder)

/-- How the jobs of one tick are interleaved. -/
structure TickSchedule where
  resets : List Nat
  locals : List Nat

/-- One whole tick under a schedule. -/
def tickUnder (c : Colony) (s : TickSchedule) : Option (Except Fault (Colony × TickStats)) :=
  (c.resetUnder s.resets).bind fun c => (c.runLocalUnder s.locals).map fun outcome => do
    let c ← outcome
    let c ← c.await
    c.runWorld

/-- Adds ticks under their schedules to a colony and what they did to a total. -/
def runTicksUnder : List TickSchedule → Colony → TickStats →
    Option (Except Fault (Colony × TickStats))
  | [], c, total => some (.ok (c, total))
  | s :: schedules, c, total =>
    match c.tickUnder s with
    | none => none
    | some (.error fault) => some (.error fault)
    | some (.ok (c, stats)) =>
      runTicksUnder schedules c { total with
        localSteps := total.localSteps + stats.localSteps
        worldSteps := total.worldSteps + stats.worldSteps }

/-- Runs one tick for each schedule and adds up what they did. -/
def runUnder (c : Colony) (schedules : List TickSchedule) :
    Option (Except Fault (Colony × TickStats)) :=
  runTicksUnder schedules c ⟨c.clock, 0, 0⟩

section Agreement

variable {c c' : Colony} {schedule : List Nat} {s : TickSchedule}

theorem resetUnder_eq (ends : c.resetUnder schedule = some c') : c' = c.reset := by
  obtain ⟨workers, finished, rfl⟩ := Option.map_eq_some_iff.mp ends
  obtain ⟨rfl, -⟩ := Pool.follow_of_results? iterate_resetJob finished
  rfl

theorem runLocalUnder_eq {outcome : Except Fault Colony}
    (ends : c.runLocalUnder schedule = some outcome) : outcome = c.runLocal := by
  unfold runLocalUnder at ends
  unfold runLocal
  split at ends
  · next ready =>
    obtain ⟨results, finished, rfl⟩ := Option.map_eq_some_iff.mp ends
    obtain ⟨rfl, total⟩ := Pool.follow_of_results? (LocalWork.iterate_waiting _ _) finished
    rw [if_pos ready, runLocalAll_eq, total]
    cases LocalEnd.workers
      (c.workers.map fun w => w.runLocal c.clock c.settings.maxStepsPerTick) <;> rfl
  · next busy =>
    rw [if_neg busy]
    exact (Option.some.inj ends).symm

/-- A tick does not depend on its schedule. -/
theorem tickUnder_eq {outcome : Except Fault (Colony × TickStats)}
    (ends : c.tickUnder s = some outcome) : outcome = c.tick := by
  obtain ⟨ready, resets, rest⟩ := Option.bind_eq_some_iff.mp ends
  obtain ⟨done, locals, rfl⟩ := Option.map_eq_some_iff.mp rest
  rw [runLocalUnder_eq locals, resetUnder_eq resets]
  rfl

theorem runTicksUnder_eq {schedules : List TickSchedule} {total : TickStats}
    {outcome : Except Fault (Colony × TickStats)}
    (ends : runTicksUnder schedules c total = some outcome) :
    outcome = runTicks schedules.length c total := by
  induction schedules generalizing c total with
  | nil => exact (Option.some.inj ends).symm
  | cons s schedules ih =>
    rw [runTicksUnder] at ends
    rw [List.length_cons, runTicks]
    split at ends
    · cases ends
    · next fault ticks =>
      rw [← tickUnder_eq ticks]
      exact (Option.some.inj ends).symm
    · next after stats ticks =>
      rw [← tickUnder_eq ticks]
      exact ih ends

/-- A schedule that names every worker often enough for its jobs in a tick. -/
structure TickSchedule.Ample (s : TickSchedule) (workers budget : Nat) : Prop where
  resets : ∀ i < workers, 1 ≤ s.resets.count i
  locals : ∀ i < workers, budget + 2 ≤ s.locals.count i

theorem exists_resetUnder (often : ∀ i < c.workers.length, 1 ≤ schedule.count i) :
    ∃ c', c.resetUnder schedule = some c' :=
  ⟨_, Option.map_eq_some_iff.mpr ⟨_, Pool.results?_follow_of_count iterate_resetJob often, rfl⟩⟩

theorem exists_runLocalUnder
    (often : ∀ i < c.workers.length, c.settings.maxStepsPerTick + 2 ≤ schedule.count i) :
    ∃ outcome, c.runLocalUnder schedule = some outcome := by
  unfold runLocalUnder
  split
  · have finished : Pool.results? ((Pool.start .waiting c.workers).follow
        (LocalWork.step c.clock c.settings.maxStepsPerTick) LocalEnd.ran schedule).jobs = some _ :=
      Pool.results?_follow_of_count (LocalWork.iterate_waiting _ _) often
    exact ⟨_, Option.map_eq_some_iff.mpr ⟨_, finished, rfl⟩⟩
  · exact ⟨_, rfl⟩

theorem tickUnder_of_ample (ample : s.Ample c.workers.length c.settings.maxStepsPerTick) :
    c.tickUnder s = some c.tick := by
  obtain ⟨ready, resets⟩ := exists_resetUnder ample.resets
  obtain rfl := resetUnder_eq resets
  have often : ∀ i < c.reset.workers.length, c.reset.settings.maxStepsPerTick + 2 ≤
      s.locals.count i := by
    simpa [reset] using ample.locals
  obtain ⟨outcome, locals⟩ := exists_runLocalUnder often
  rw [tickUnder, resets, Option.bind_some, locals, runLocalUnder_eq locals]
  rfl

theorem Reachable.exists_runTicks (reachable : c.Reachable) (ticks : Nat) (total : TickStats) :
    ∃ r, runTicks ticks c total = .ok r := by
  induction ticks generalizing c total with
  | zero => exact ⟨_, rfl⟩
  | succ ticks ih =>
    obtain ⟨after, stats, ends, next, -⟩ := reachable.tick
    rw [runTicks, ends]
    exact ih next _

/-- Runs of ample schedules end. -/
theorem exists_runTicksUnder (reachable : c.Reachable) {schedules : List TickSchedule}
    (ample : ∀ s ∈ schedules, s.Ample c.workers.length c.settings.maxStepsPerTick)
    (total : TickStats) : ∃ r, runTicksUnder schedules c total = some (.ok r) := by
  induction schedules generalizing c total with
  | nil => exact ⟨_, rfl⟩
  | cons s schedules ih =>
    rw [List.forall_mem_cons] at ample
    obtain ⟨after, stats, ticks, next, many, settings⟩ := reachable.tick
    rw [runTicksUnder, tickUnder_of_ample ample.1, ticks]
    refine ih next ?_ _
    rw [many, settings]
    exact ample.2

end Agreement

/-- How the single steps of different workers are interleaved makes no difference: every schedule
that ends all jobs gives the workers and the total that the workers give one after the other, and so
all runs of ticks agree. Nothing faults, and schedules that name every worker often enough do end.
-/
theorem runUnder_eq_run {c : Colony} (reachable : c.Reachable) :
    (∀ schedule c', c.resetUnder schedule = some c' → c' = c.reset) ∧
      (c.phase = .ready → ∃ c', c.runLocal = .ok c' ∧
        ∀ schedule outcome, c.runLocalUnder schedule = some outcome → outcome = .ok c') ∧
      ∀ ticks, ∃ r, c.run ticks = .ok r ∧
        (∀ schedules outcome, schedules.length = ticks →
          c.runUnder schedules = some outcome → outcome = .ok r) ∧
        ∀ schedules, schedules.length = ticks →
          (∀ s ∈ schedules, TickSchedule.Ample s c.workers.length c.settings.maxStepsPerTick) →
          c.runUnder schedules = some (.ok r) := by
  refine ⟨fun schedule c' ends => resetUnder_eq ends, fun ready => ?_, fun ticks => ?_⟩
  · obtain ⟨ws, ran, runs, -⟩ :=
      exists_runLocalAll reachable.fits c.clock c.settings.maxStepsPerTick
    have ends := runLocal_eq_ok_iff.mpr ⟨ready, ws, ran, runs, rfl⟩
    exact ⟨_, ends, fun schedule outcome finished => (runLocalUnder_eq finished).trans ends⟩
  · obtain ⟨r, ends⟩ := reachable.exists_runTicks ticks ⟨c.clock, 0, 0⟩
    refine ⟨r, ends, ?_, ?_⟩
    · rintro schedules outcome rfl finished
      exact (runTicksUnder_eq finished).trans ends
    · rintro schedules rfl ample
      obtain ⟨outcome, finished⟩ := exists_runTicksUnder reachable ample ⟨c.clock, 0, 0⟩
      rw [runUnder, finished, runTicksUnder_eq finished, ends]

/-- Two workers that run two local steps each in a tick, of which only the first then moves. -/
def pair : Colony :=
  ((Colony.mk ((Grid.clear 3 1).perform (.place 0 ⟨0, 0⟩)).1 [] 0 0 ⟨2, 4, 1⟩ .idle 0).joinedBy
    [⟨.nop, .bare⟩, ⟨.nop, .bare⟩, ⟨.move, .bare⟩]).joinedBy [⟨.nop, .bare⟩, ⟨.jmp, .target 0⟩]

theorem runUnder_eq_run_pair :
    pair.Reachable ∧ ∃ r, pair.runUnder [⟨[1, 0], [0, 1, 1, 0, 1, 0, 0, 1]⟩] = some (.ok r) ∧
      r.1.grid.position? 0 = some ⟨1, 0⟩ ∧ r.2 = ⟨0, 4, 1⟩ := by
  have made : Colony.new ((Grid.clear 3 1).perform (.place 0 ⟨0, 0⟩)).1 ⟨2, 4, 1⟩ = .ok _ := rfl
  have reachable : pair.Reachable :=
    ((Reachable.new ((Grid.Built.clear 3 1).perform _).consistent made).edit (.joinedBy _ _)).edit
      (.joinedBy _ _)
  obtain ⟨-, -, runs⟩ := runUnder_eq_run reachable
  obtain ⟨r, run, -, ends⟩ := runs 1
  have ample : ∀ s ∈ [TickSchedule.mk [1, 0] [0, 1, 1, 0, 1, 0, 0, 1]],
      s.Ample pair.workers.length pair.settings.maxStepsPerTick := by
    rintro s member
    rw [List.mem_singleton.mp member]
    exact ⟨by decide +kernel, by decide +kernel⟩
  have seen : (pair.run 1).toOption.map (fun r => (r.1.grid.position? 0, r.2)) =
      some (some ⟨1, 0⟩, ⟨0, 4, 1⟩) := by
    decide +kernel
  rw [run] at seen
  obtain ⟨moved, stats⟩ := Prod.mk.inj (Option.some.inj seen)
  exact ⟨reachable, r, ends _ rfl ample, moved, stats⟩

end Colony

end Formicary
