import Formicary.Proofs.Pauses

/-!
# What comes of a turn

In its turn a worker runs one step and settles what it asks for, on the grid as the workers before
it in the list left it. A move succeeds exactly when the tile ahead is there, open and without a
worker; a dig exactly when the tile ahead is dirt. Later turns change nothing of the worker and do
not move it, so what its turn came to is still there when the tick ends.
-/

namespace Formicary

namespace Grid

/-- The tile ahead of a worker can be entered: it is there, it is open, and nobody stands on it. -/
structure OpenAhead (g : Grid) (id : WorkerId) (h : Heading) (q : Point) : Prop where
  ahead : g.ahead? id h = some q
  clear : g.tile? q = some .clear
  vacant : ∀ other, g.position? other ≠ some q

/-- The tile ahead of a worker can be dug. -/
structure DirtAhead (g : Grid) (id : WorkerId) (h : Heading) (q : Point) : Prop where
  ahead : g.ahead? id h = some q
  dirt : g.tile? q = some .dirt

section Ahead

variable {g : Grid} {id : WorkerId} {h : Heading} {q : Point}

/-- Where the two records of who stands where agree, a tile is free when nobody's place is there. -/
theorem Consistent.isFree_iff (consistent : g.Consistent) :
    g.isFree q = true ↔ g.tile? q = some .clear ∧ ∀ other, g.position? other ≠ some q := by
  rw [Grid.isFree_iff]
  constructor
  · intro free
    obtain ⟨i, index, clear, vacant⟩ := free
    constructor
    · rw [tile?, cell?, index, Option.bind_some]
      exact clear
    · intro other stands
      rw [consistent.occupant.mpr ⟨q, stands, index⟩] at vacant
      cases vacant
  · intro free
    obtain ⟨clear, vacant⟩ := free
    rw [tile?, cell?] at clear
    cases index : g.index? q with
    | none => simp [index] at clear
    | some i =>
      rw [index, Option.bind_some] at clear
      refine ⟨i, rfl, clear, ?_⟩
      by_contra taken
      obtain ⟨other, occupies⟩ := Option.ne_none_iff_exists'.mp taken
      obtain ⟨p, stands, same⟩ := consistent.occupant.mp occupies
      rw [index?_inj same index] at stands
      exact vacant other stands

theorem destination?_eq_some_iff (consistent : g.Consistent) :
    g.destination? id h = some q ↔ g.OpenAhead id h q := by
  rw [destination?, Option.filter_eq_some_iff, consistent.isFree_iff]
  exact ⟨fun found => ⟨found.1, found.2.1, found.2.2⟩, fun found => ⟨found.1, found.2, found.3⟩⟩

theorem dirtAhead?_eq_some_iff : g.dirtAhead? id h = some q ↔ g.DirtAhead id h q := by
  rw [dirtAhead?, Option.filter_eq_some_iff, decide_eq_true_eq]
  exact ⟨fun found => ⟨found.1, found.2⟩, fun found => ⟨found.1, found.2⟩⟩

/-- A worker senses that it can go on exactly when a step ahead leads somewhere. -/
theorem isOpen_surroundings :
    (g.surroundings id).isOpen.get h = (g.destination? id h).isSome := by
  unfold surroundings destination? ahead?
  cases g.position? id with
  | none => simp [Surroundings.none]
  | some p => by_cases free : g.isFree (p.ahead h) <;> simp [free]

end Ahead

theorem toNat_addLevels (a b : UInt8) : (addLevels a b).toNat = min (a.toNat + b.toNat) 255 := by
  have small : min (a.toNat + b.toNat) 255 < 256 := by omega
  rw [addLevels, Nat.toUInt8_eq, UInt8.toNat_ofNat_of_lt' small]

end Grid

namespace Worker

variable {w w' : Worker} {g g' : Grid} {amount : UInt8} {cost : Option Nat} {q : Point}

/-- The levels of a tile after a worker has come to it and laid its scent. -/
structure LaysOn (w : Worker) (amount : UInt8) (levels levels' : Levels) : Prop where
  raised : ∀ bits, w.cpu.nose.writeChannel = some bits →
    (levels'.get (Channel.ofBits bits)).toNat =
      min ((levels.get (Channel.ofBits bits)).toNat + amount.toNat) 255
  kept : ∀ channel, (∀ bits, w.cpu.nose.writeChannel = some bits → Channel.ofBits bits ≠ channel) →
    levels'.get channel = levels.get channel

/-- What comes of the turn of a worker on a grid. -/
structure Outcome (w : Worker) (g : Grid) (amount : UInt8) (w' : Worker) (g' : Grid) : Prop where
  /-- Only these three operations are run in the world part of a tick. -/
  runs : ∀ op, w.worldOp? = some op → op = .move ∨ op = .dig ∨ op = .chk
  moves : w.worldOp? = some .move → ∀ q, g.OpenAhead w.id w.cpu.heading q →
    w'.cpu.failed = false ∧ g'.position? w.id = some q ∧
      (∀ id, id ≠ w.id → g'.position? id = g.position? id) ∧ (∀ p, g'.tile? p = g.tile? p) ∧
      (∀ p, p ≠ q → g'.scent? p = g.scent? p) ∧
      ∃ levels levels', g.scent? q = some levels ∧ g'.scent? q = some levels' ∧
        w.LaysOn amount levels levels'
  stays : w.worldOp? = some .move → (∀ q, ¬g.OpenAhead w.id w.cpu.heading q) →
    w'.cpu.failed = true ∧ g' = g
  digs : w.worldOp? = some .dig → ∀ q, g.DirtAhead w.id w.cpu.heading q →
    w'.cpu.failed = false ∧ g'.tile? q = some .clear ∧ (∀ p, p ≠ q → g'.tile? p = g.tile? p) ∧
      (∀ p, g'.scent? p = g.scent? p) ∧ ∀ id, g'.position? id = g.position? id
  misses : w.worldOp? = some .dig → (∀ q, ¬g.DirtAhead w.id w.cpu.heading q) →
    w'.cpu.failed = true ∧ g' = g
  checks : w.worldOp? = some .chk →
    (w'.cpu.failed = false ↔ ∃ q, g.OpenAhead w.id w.cpu.heading q) ∧ g' = g
  waits : w.worldOp? = none → g' = g
  /-- At the end of its turn the worker has looked around. -/
  senses : w'.cpu.isOpen = (g'.surroundings w.id).isOpen ∧
    w'.cpu.nose.neighbors = (g'.surroundings w.id).scents

section Settling

theorem consistent_settleMove (consistent : g.Consistent) :
    (w.settleMove g amount).2.Consistent := by
  unfold settleMove
  split
  · split
    · next p leads =>
      have placed : (g.put w.id p).Consistent :=
        consistent.put (Option.filter_eq_some_iff.mp leads).2
      unfold layScent
      split
      · exact placed.perform (.deposit w.id _ amount)
      · exact placed
    · exact consistent
  · exact consistent

theorem consistent_settleDig (consistent : g.Consistent) : (w.settleDig g).2.Consistent := by
  unfold settleDig
  split
  · split
    · exact consistent.modify fun _ => rfl
    · exact consistent
  · exact consistent

/-- Whatever a worker asks for, its turn keeps both records of who stands where. -/
theorem consistent_takeTurn (consistent : g.Consistent)
    (turn : w.takeTurn g amount = .ok (w', g', cost)) : g'.Consistent := by
  rw [takeTurn_eq] at turn
  cases turn
  exact consistent_settleDig (consistent_settleMove consistent)

end Settling

section Outcomes

/-- Whether the last action counts as failed after the turn of a worker that asks for nothing before
it. -/
def failsOn (w : Worker) (g : Grid) : Bool :=
  match w.worldOp? with
  | some .move => (g.destination? w.id w.cpu.heading).isNone
  | some .dig => (g.dirtAhead? w.id w.cpu.heading).isNone
  | some .chk => (g.destination? w.id w.cpu.heading).isNone
  | _ => w.cpu.failed

theorem failed_takeTurn (quiet : w.cpu.Quiet) (turn : w.takeTurn g amount = .ok (w', g', cost)) :
    w'.cpu.failed = w.failsOn g := by
  rw [takeTurn_eq] at turn
  cases turn
  obtain ⟨still, calm⟩ := quiet
  unfold acted failsOn resolve settleMove settleDig
  cases runs : w.worldOp? with
  | none => simp [still, calm, Cpu.observe]
  | some op =>
    have costs := Routine.isLocal_of_worldOp? runs
    cases op with
    | move =>
      simp only [Op.outcome, Cpu.advance, if_true]
      cases g.destination? w.id w.cpu.heading <;> simp [calm, Cpu.observe]
    | dig =>
      simp only [Op.outcome, Cpu.advance, still, Bool.false_eq_true, if_false, if_true]
      cases g.dirtAhead? w.id w.cpu.heading <;> rfl
    | chk =>
      simp [Op.outcome, Cpu.advance, Cpu.checkAhead, Cpu.observe, still, calm,
        Grid.isOpen_surroundings]
    | _ => cases costs

theorem senses_takeTurn (turn : w.takeTurn g amount = .ok (w', g', cost)) :
    w'.cpu.isOpen = (g'.surroundings w.id).isOpen ∧
      w'.cpu.nose.neighbors = (g'.surroundings w.id).scents := by
  rw [takeTurn_eq] at turn
  obtain ⟨failed, after, settled⟩ := (w.acted (g.surroundings w.id)).exists_resolve g amount
  rw [settled] at turn
  cases turn
  rw [(keptBy_acted _).id]
  exact ⟨rfl, rfl⟩

/-- What laying scent does to the tile a worker has come to. -/
theorem laysOn_layScent (stands : g.position? w.id = some q) {levels : Levels}
    (found : g.scent? q = some levels) :
    ∃ levels', (w.layScent g amount).scent? q = some levels' ∧ w.LaysOn amount levels levels' := by
  unfold layScent
  cases channel : w.cpu.nose.writeChannel with
  | none => exact ⟨levels, found, by simp [channel], fun _ _ => rfl⟩
  | some bits =>
    refine ⟨Grid.raiseLevel levels (Channel.ofBits bits) amount, ?_, ?_, ?_⟩
    · simp [Grid.scent?_deposit q stands, found]
    · intro bits' same
      obtain rfl : bits = bits' := Option.some.inj (channel.symm.trans same)
      rw [Grid.raiseLevel, Channel.get_set, if_pos rfl, Grid.toNat_addLevels]
    · intro other apart
      rw [Grid.raiseLevel, Channel.get_set, if_neg (apart bits channel)]

theorem scent?_layScent_of_ne (stands : g.position? w.id = some q) {p : Point} (apart : p ≠ q) :
    (w.layScent g amount).scent? p = g.scent? p := by
  unfold layScent
  split
  · rw [Grid.scent?_deposit p stands, if_neg apart]
  · rfl

theorem position?_layScent (id : WorkerId) :
    (w.layScent g amount).position? id = g.position? id := by
  unfold layScent
  split
  · exact Grid.position?_deposit ..
  · rfl

theorem tile?_layScent (p : Point) : (w.layScent g amount).tile? p = g.tile? p := by
  unfold layScent
  split
  · exact Grid.tile?_deposit ..
  · rfl

/-- A move to a tile that can be entered. -/
theorem moves_deed (consistent : g.Consistent) (runs : w.worldOp? = some .move)
    (openAhead : g.OpenAhead w.id w.cpu.heading q) :
    w.failsOn g = false ∧ (w.deed g amount).position? w.id = some q ∧
      (∀ id, id ≠ w.id → (w.deed g amount).position? id = g.position? id) ∧
      (∀ p, (w.deed g amount).tile? p = g.tile? p) ∧
      (∀ p, p ≠ q → (w.deed g amount).scent? p = g.scent? p) ∧
      ∃ levels levels', g.scent? q = some levels ∧ (w.deed g amount).scent? q = some levels' ∧
        w.LaysOn amount levels levels' := by
  have leads := (Grid.destination?_eq_some_iff consistent).mpr openAhead
  have moved : w.deed g amount = w.layScent (g.put w.id q) amount := by
    simp only [deed, runs, leads]
  have stands : (g.put w.id q).position? w.id = some q := by simp [Grid.position?_put]
  obtain ⟨cell, there, -⟩ := Option.map_eq_some_iff.mp openAhead.clear
  have found : g.scent? q = some cell.scent := by simp [Grid.scent?, there]
  rw [moved]
  obtain ⟨levels', laid, lays⟩ := laysOn_layScent stands ((g.scent?_put ..).trans found)
  refine ⟨by simp [failsOn, runs, leads], ?_, ?_, ?_, ?_, _, levels', found, laid, lays⟩
  · rw [position?_layScent, stands]
  · intro id other
    rw [position?_layScent, Grid.position?_put, if_neg other]
  · intro p
    rw [tile?_layScent, Grid.tile?_put]
  · intro p apart
    rw [scent?_layScent_of_ne stands apart, Grid.scent?_put]

theorem stays_deed (consistent : g.Consistent) (runs : w.worldOp? = some .move)
    (shut : ∀ q, ¬g.OpenAhead w.id w.cpu.heading q) :
    w.failsOn g = true ∧ w.deed g amount = g := by
  have nowhere : g.destination? w.id w.cpu.heading = none := by
    rw [Option.eq_none_iff_forall_ne_some]
    intro q leads
    exact shut q ((Grid.destination?_eq_some_iff consistent).mp leads)
  exact ⟨by simp [failsOn, runs, nowhere], by simp only [deed, runs, nowhere]⟩

/-- A dig into dirt. -/
theorem digs_deed (runs : w.worldOp? = some .dig) (dirtAhead : g.DirtAhead w.id w.cpu.heading q) :
    w.failsOn g = false ∧ (w.deed g amount).tile? q = some .clear ∧
      (∀ p, p ≠ q → (w.deed g amount).tile? p = g.tile? p) ∧
      (∀ p, (w.deed g amount).scent? p = g.scent? p) ∧
      ∀ id, (w.deed g amount).position? id = g.position? id := by
  have leads := Grid.dirtAhead?_eq_some_iff.mpr dirtAhead
  have dug : w.deed g amount = g.setTile q .clear := by simp only [deed, runs, leads]
  rw [dug]
  refine ⟨by simp [failsOn, runs, leads], ?_, ?_, ?_, ?_⟩
  · simp [Grid.tile?_setTile, dirtAhead.dirt]
  · intro p apart
    rw [Grid.tile?_setTile, if_neg apart]
  · intro p
    exact Grid.scent?_setTile ..
  · intro id
    exact Grid.position?_modify ..

theorem misses_deed (runs : w.worldOp? = some .dig)
    (firm : ∀ q, ¬g.DirtAhead w.id w.cpu.heading q) :
    w.failsOn g = true ∧ w.deed g amount = g := by
  have nothing : g.dirtAhead? w.id w.cpu.heading = none := by
    rw [Option.eq_none_iff_forall_ne_some]
    intro q leads
    exact firm q (Grid.dirtAhead?_eq_some_iff.mp leads)
  exact ⟨by simp [failsOn, runs, nothing], by simp only [deed, runs, nothing]⟩

theorem checks_deed (consistent : g.Consistent) (runs : w.worldOp? = some .chk) :
    (w.failsOn g = false ↔ ∃ q, g.OpenAhead w.id w.cpu.heading q) ∧ w.deed g amount = g := by
  refine ⟨?_, by simp only [deed, runs]⟩
  simp only [failsOn, runs, ← Grid.destination?_eq_some_iff consistent]
  rw [Option.isNone_eq_false_iff, Option.isSome_iff_exists]

/-- A turn of a worker that asks for nothing before it comes to what its step asks for. -/
theorem outcome_takeTurn (consistent : g.Consistent) (quiet : w.cpu.Quiet)
    (turn : w.takeTurn g amount = .ok (w', g', cost)) : w.Outcome g amount w' g' := by
  have failed := failed_takeTurn quiet turn
  have senses := senses_takeTurn turn
  obtain rfl : w.deed g amount = g' := by
    obtain ⟨v, same⟩ := w.takeTurn_of_quiet g amount quiet
    rw [same] at turn
    cases turn
    rfl
  refine ⟨?_, ?_, ?_, ?_, ?_, ?_, ?_, senses⟩
  · intro op runs
    have costs := Routine.isLocal_of_worldOp? runs
    cases op with
    | move | dig | chk => simp
    | _ => cases costs
  · intro runs q openAhead
    rw [failed]
    exact moves_deed consistent runs openAhead
  · intro runs shut
    rw [failed]
    exact stays_deed consistent runs shut
  · intro runs q dirtAhead
    rw [failed]
    exact digs_deed runs dirtAhead
  · intro runs firm
    rw [failed]
    exact misses_deed runs firm
  · intro runs
    rw [failed]
    exact checks_deed consistent runs
  · intro runs
    simp only [deed, runs]

end Outcomes

theorem Call.id (call : w.Call w') : w'.id = w.id := by
  cases call with
  | reset => rfl
  | runLocal runs =>
    obtain ⟨r, cpu, -, rfl⟩ := runLocal_eq_ok_iff.mp runs
    rfl
  | runWorld runs =>
    rw [runWorld_eq_acted] at runs
    cases runs
    exact (keptBy_acted _).id
  | resolve => exact keptBy_resolve.id

end Worker

namespace Colony

section Turns

variable {g g' : Grid} {w : Worker} {ws ws' front back : List Worker} {amount : UInt8}
  {worldSteps : Nat}

theorem takeTurns_cons_eq_ok_iff :
    takeTurns amount g (w :: ws) = .ok (g', ws', worldSteps) ↔
      ∃ w' g₁ cost rest others, w.takeTurn g amount = .ok (w', g₁, cost) ∧
        takeTurns amount g₁ ws = .ok (g', rest, others) ∧ ws' = w' :: rest ∧
        worldSteps = (if cost.isSome then 1 else 0) + others := by
  rw [takeTurns, w.takeTurn_eq g amount]
  obtain ⟨last, rest, others, later, -⟩ :=
    exists_takeTurns amount ((w.acted (g.surroundings w.id)).resolve g amount).2 ws
  simp only [later, Except.ok.injEq, Prod.mk.injEq]
  constructor
  · intro same
    obtain ⟨rfl, rfl, rfl⟩ := same
    exact ⟨_, _, _, _, _, ⟨rfl, rfl, rfl⟩, later, rfl, rfl⟩
  · intro parts
    obtain ⟨w', g₁, cost, rest', others', ⟨rfl, rfl, rfl⟩, later', rfl, rfl⟩ := parts
    cases later.symm.trans later'
    exact ⟨rfl, rfl, rfl⟩

/-- The turns of some workers come one after the other: first those of a front part, and the others
on the grid that these leave. -/
theorem takeTurns_append (turns : takeTurns amount g (front ++ back) = .ok (g', ws', worldSteps)) :
    ∃ g₁ vs n us m, takeTurns amount g front = .ok (g₁, vs, n) ∧
      takeTurns amount g₁ back = .ok (g', us, m) ∧ ws' = vs ++ us := by
  induction front generalizing g ws' worldSteps with
  | nil => exact ⟨g, [], 0, ws', worldSteps, rfl, turns, rfl⟩
  | cons w front ih =>
    obtain ⟨w', g₁, cost, rest, others, turn, later, rfl, -⟩ := takeTurns_cons_eq_ok_iff.mp turns
    obtain ⟨g₂, vs, n, us, m, first, second, rfl⟩ := ih later
    exact ⟨g₂, w' :: vs, _, us, m,
      takeTurns_cons_eq_ok_iff.mpr ⟨w', g₁, cost, vs, n, turn, first, rfl, rfl⟩, second, rfl⟩

theorem consistent_takeTurns (consistent : g.Consistent)
    (turns : takeTurns amount g ws = .ok (g', ws', worldSteps)) : g'.Consistent := by
  induction ws generalizing g ws' worldSteps with
  | nil =>
    cases turns
    exact consistent
  | cons w ws ih =>
    obtain ⟨w', g₁, cost, rest, others, turn, later, -, -⟩ := takeTurns_cons_eq_ok_iff.mp turns
    exact ih (Worker.consistent_takeTurn consistent turn) later

end Turns

/-- The reachable colonies that a host gets to when no call of a worker by itself leaves a request to
move or to dig open, and the numbers given to workers do not start again from zero. -/
inductive Undisturbed : Colony → Prop where
  | new {grid : Grid} {settings : Settings} {c : Colony} (consistent : grid.Consistent)
    (made : new grid settings = .ok c) : Undisturbed c
  | edit {c c' : Colony} (before : Undisturbed c) (edit : Edit c c')
    (counted : c.nextId ≤ c'.nextId) : Undisturbed c'
  | regrid {c : Colony} {grid : Grid} (before : Undisturbed c) (consistent : grid.Consistent) :
    Undisturbed { c with grid }
  | call {c : Colony} {id : WorkerId} {w w' : Worker} (before : Undisturbed c)
    (found : c.worker? id = some w) (call : w.Call w') (settled : w'.cpu.Quiet) :
    Undisturbed (c.modifyWorker id fun _ => w')
  | part {c c' : Colony} {p : Part} (before : Undisturbed c)
    (performed : c.perform (.part p) = .ok c') : Undisturbed c'

section Histories

variable {c c' : Colony}

theorem Edit.consistent (edit : Edit c c') (consistent : c.grid.Consistent) :
    c'.grid.Consistent := by
  cases edit with
  | spawn spawned =>
    obtain ⟨program, rfl⟩ := spawn_cases spawned
    exact consistent
  | despawn despawned =>
    rw [despawn_cases despawned]
    exact consistent.remove _
  | assign assigned =>
    obtain ⟨program, rfl⟩ := assign_cases assigned
    exact consistent
  | reloadAll reloaded =>
    obtain ⟨program, rfl⟩ := reloadAll_cases reloaded
    exact consistent
  | grid a => exact consistent.perform a

/-- Nothing but the workers' numbers, stacks and requests matters between ticks. -/
theorem Settled.update (settled : c.Settled) (ids : c'.ids = c.ids) (next : c'.nextId = c.nextId)
    (fits : ∀ w ∈ c'.workers, w.cpu.Fits) (quiet : ∀ w ∈ c'.workers, w.cpu.Quiet) : c'.Settled where
  increasing := ids ▸ settled.increasing
  below := by
    rw [ids, next]
    exact settled.below
  fits := fits
  quiet := quiet

theorem Settled.call {id : WorkerId} {w w' : Worker} (settled : c.Settled)
    (found : c.worker? id = some w) (call : w.Call w') (quiet : w'.cpu.Quiet) :
    (c.modifyWorker id fun _ => w').Settled := by
  have ids : (c.modifyWorker id fun _ => w').ids = c.ids := by
    apply ids_modifyWorker
    intro v also
    cases found.symm.trans also
    exact call.id
  have each {P : Worker → Prop} (all : ∀ v ∈ c.workers, P v) (changed : P w') :
      ∀ v ∈ (c.modifyWorker id fun _ => w').workers, P v := by
    intro v member
    rcases mem_modifyWorker member with old | ⟨u, -, rfl⟩
    · exact all v old
    · exact changed
  have fits := call.fits (settled.fits w (List.mem_of_find?_eq_some found))
  exact settled.update ids rfl (each settled.fits fits) (each settled.quiet quiet)

/-- No part of a tick makes a worker's request outlast its turn. -/
theorem Settled.part (settled : c.Settled) {p : Part} (performed : c.perform (.part p) = .ok c') :
    c'.Settled := by
  cases p with
  | reset =>
    cases performed
    have ids : c.reset.ids = c.ids := by
      unfold Colony.ids reset
      rw [List.map_map]
      rfl
    exact settled.update ids rfl (Worker.forall_cpu_reset settled.fits)
      (Worker.forall_cpu_reset settled.quiet)
  | runLocal =>
    obtain ⟨-, ws, ran, runs, rfl⟩ := runLocal_eq_ok_iff.mp performed
    obtain ⟨ws', ran', same, related⟩ :=
      exists_runLocalAll settled.fits c.clock c.settings.maxStepsPerTick
    cases runs.symm.trans same
    have ids : ws.map Worker.id = c.ids :=
      Worker.map_id_of_forall₂ related fun _ _ first => first.id
    have quiet (v v' : Worker) (first : v.LocallyFrom v') (quiet : v.cpu.Quiet) : v'.cpu.Quiet :=
      ⟨first.keeps.movePending.trans quiet.move, first.keeps.digPending.trans quiet.dig⟩
    exact settled.update ids rfl
      (Worker.forall_of_forall₂ related settled.fits fun _ _ first _ => first.fits)
      (Worker.forall_of_forall₂ related settled.quiet quiet)
  | await =>
    obtain ⟨-, rfl⟩ := await_eq_ok_iff.mp performed
    exact settled.update rfl rfl settled.fits settled.quiet
  | runWorld =>
    obtain ⟨⟨e, stats⟩, runs, rfl⟩ := map_eq_ok_iff.mp performed
    obtain ⟨-, g, ws, worldSteps, turns, made⟩ := runWorld_eq_ok_iff.mp runs
    obtain ⟨g', ws', worldSteps', same, related⟩ :=
      exists_takeTurns c.settings.scentDeposit c.grid c.workers
    cases made
    cases turns.symm.trans same
    have ids : ws.map Worker.id = c.ids :=
      Worker.map_id_of_forall₂ related fun _ _ turn => turn.id
    exact settled.update ids rfl
      (Worker.forall_of_forall₂ related settled.fits fun _ _ turn => turn.fits)
      (Worker.forall_of_forall₂ related settled.fits fun _ _ turn _ => turn.quiet)

theorem Reachable.part (reachable : c.Reachable) {p : Part}
    (performed : c.perform (.part p) = .ok c') : c'.Reachable := by
  cases p with
  | reset =>
    cases performed
    exact reachable.reset
  | runLocal => exact reachable.runLocal performed
  | await => exact reachable.await performed
  | runWorld =>
    obtain ⟨⟨e, stats⟩, runs, rfl⟩ := map_eq_ok_iff.mp performed
    exact reachable.runWorld runs

/-- Along every history both records of who stands where agree. -/
theorem Reachable.consistent (reachable : c.Reachable) : c.grid.Consistent := by
  induction reachable with
  | new consistent made =>
    obtain ⟨settings, -, rfl⟩ := map_eq_ok_iff.mp made
    exact consistent
  | edit before edit ih => exact edit.consistent ih
  | regrid before consistent ih => exact consistent
  | call before found call ih => exact ih
  | reset before ih => exact ih
  | runLocal before runs ih =>
    obtain ⟨-, ws, ran, -, rfl⟩ := runLocal_eq_ok_iff.mp runs
    exact ih
  | await before waits ih =>
    obtain ⟨-, rfl⟩ := await_eq_ok_iff.mp waits
    exact ih
  | runWorld before runs ih =>
    obtain ⟨-, g, ws, worldSteps, turns, made⟩ := runWorld_eq_ok_iff.mp runs
    cases made
    exact consistent_takeTurns ih turns

theorem Undisturbed.reachable (undisturbed : c.Undisturbed) : c.Reachable := by
  induction undisturbed with
  | new consistent made => exact .new consistent made
  | edit before edit counted ih => exact ih.edit edit
  | regrid before consistent ih => exact ih.regrid consistent
  | call before found call settled ih => exact ih.call found call
  | part before performed ih => exact ih.part performed

theorem Undisturbed.settled (undisturbed : c.Undisturbed) : c.Settled := by
  induction undisturbed with
  | new consistent made =>
    obtain ⟨settings, -, rfl⟩ := map_eq_ok_iff.mp made
    exact ⟨.nil, by simp [ids], by simp, by simp⟩
  | edit before edit counted ih => exact ih.edit edit counted
  | regrid before consistent ih => exact ih.update rfl rfl ih.fits ih.quiet
  | call before found call settled ih => exact ih.call found call settled
  | part before performed ih => exact ih.part performed

theorem worker?_of_mem {w : Worker} (distinct : c.ids.Nodup) (member : w ∈ c.workers) :
    c.worker? w.id = some w := by
  cases found : c.worker? w.id with
  | none =>
    have absent := List.find?_eq_none.mp found w member
    simp at absent
  | some x => rw [eq_of_worker? distinct found member rfl]

end Histories

/-- The turns that took one colony to another, worker by worker. Each comes to what the worker's
step asks for, on the grid that the workers before it left, and what it comes to is still there at
the end: the worker is as its turn left it, and where its turn left it. -/
def TurnsTaken (c c' : Colony) : Prop :=
  ∀ front w back, c.workers = front ++ w :: back → ∃ g vs n w' g',
    takeTurns c.settings.scentDeposit c.grid front = .ok (g, vs, n) ∧
    w.takeTurn g c.settings.scentDeposit = .ok (w', g', w.worldOp?.map Op.ticks) ∧
    g.position? w.id = c.grid.position? w.id ∧ w.Outcome g c.settings.scentDeposit w' g' ∧
    c'.worker? w.id = some w' ∧ c'.grid.position? w.id = g'.position? w.id

section Ticks

variable {c : Colony}

/-- A tick comes to its world part with every worker's local part done, and no host in between. -/
theorem Undisturbed.tick_eq (undisturbed : c.Undisturbed) :
    ∃ ready ran, runLocalAll c.clock c.settings.maxStepsPerTick (c.workers.map Worker.reset) =
        .ok (ready, ran) ∧
      Undisturbed { c with workers := ready, phase := .awaited, localSteps := ran } ∧
      c.tick = runWorld { c with workers := ready, phase := .awaited, localSteps := ran } := by
  have fits := Worker.forall_cpu_reset undisturbed.reachable.fits
  obtain ⟨ready, ran, runs, -⟩ :=
    exists_runLocalAll fits c.clock c.settings.maxStepsPerTick
  have done : c.reset.runLocal =
      .ok { c with workers := ready, phase := .localDone, localSteps := ran } :=
    runLocal_eq_ok_iff.mpr ⟨rfl, ready, ran, runs, rfl⟩
  refine ⟨ready, ran, runs, ?_, ?_⟩
  · have opened : c.reset.Undisturbed := undisturbed.part (p := .reset) rfl
    have ran := opened.part (p := .runLocal) done
    exact ran.part (p := .await) (await_eq_ok_iff.mpr ⟨rfl, rfl⟩)
  · unfold Colony.tick
    rw [done]
    rfl

/-- The place of a worker is not changed by the turns of others. -/
theorem position?_takeTurns_of_not_mem {ws ws' : List Worker} {g g' : Grid} {amount : UInt8}
    {worldSteps : Nat} {id : WorkerId} (absent : id ∉ ws.map Worker.id)
    (turns : takeTurns amount g ws = .ok (g', ws', worldSteps)) :
    g'.position? id = g.position? id := by
  apply position?_takeTurns ?_ turns
  intro v member same
  exact absurd (same ▸ List.mem_map_of_mem member) absent

/-- What comes of a turn is still there at the end of the tick. -/
theorem Undisturbed.exists_runWorld (undisturbed : c.Undisturbed) (awaited : c.phase = .awaited) :
    ∃ c' stats, c.runWorld = .ok (c', stats) ∧ c.TurnsTaken c' := by
  have settled := undisturbed.settled
  have consistent := undisturbed.reachable.consistent
  obtain ⟨last, ws, worldSteps, turns, related⟩ :=
    exists_takeTurns c.settings.scentDeposit c.grid c.workers
  refine ⟨_, _, runWorld_eq_ok_iff.mpr ⟨awaited, last, ws, worldSteps, turns, rfl⟩, ?_⟩
  intro front w back split
  have distinct : c.ids.Nodup := settled.increasing.imp UInt32.ne_of_lt
  have ids : ws.map Worker.id = c.ids := Worker.map_id_of_forall₂ related fun _ _ turn => turn.id
  -- No other worker has the number of this one, before it or behind it.
  obtain ⟨before, behind⟩ : w.id ∉ front.map Worker.id ∧ w.id ∉ back.map Worker.id := by
    have apart := distinct
    rw [Colony.ids, split, List.map_append, List.map_cons, List.nodup_middle, List.nodup_cons,
      List.mem_append, not_or] at apart
    exact apart.1
  rw [split] at turns
  obtain ⟨g, vs, n, us, m, first, second, rfl⟩ := takeTurns_append turns
  obtain ⟨w', g', cost, rest, others, turn, later, rfl, -⟩ := takeTurns_cons_eq_ok_iff.mp second
  obtain rfl := (Worker.takeTurn_cases turn).1
  have quiet := settled.quiet w (by simp [split])
  refine ⟨g, vs, n, w', g', first, turn, position?_takeTurns_of_not_mem before first,
    Worker.outcome_takeTurn (consistent_takeTurns consistent first) quiet turn, ?_,
    position?_takeTurns_of_not_mem behind later⟩
  rw [← (Worker.keptBy_takeTurn turn).1.id]
  apply worker?_of_mem
  · show ((vs ++ w' :: rest).map Worker.id).Nodup
    rw [ids]
    exact distinct
  · simp

end Ticks

/-- However a host has got a colony, as long as it has not written to a worker's state and no call of
a worker by itself has left a request open, every tick succeeds, taken at once or part by part, and
in it each worker's turn comes to what its step asks for, on the grid that the workers before it
left. A move brings it to the tile ahead exactly when that tile is there, open and without a worker;
it then lays its scent on that tile, and no other scent changes. A dig opens the tile ahead exactly
when it is dirt. A check says whether the tile ahead can be entered. Failure is noted exactly
otherwise, and then, as after a check and in a turn without a step, the grid is as before. At the
end of the tick the worker is where it was at the end of its turn, with what it then sensed. -/
theorem outcome_of_turn {c : Colony} (undisturbed : c.Undisturbed) :
    (∃ ready ran c' stats,
      runLocalAll c.clock c.settings.maxStepsPerTick (c.workers.map Worker.reset) =
        .ok (ready, ran) ∧
      c.tick = .ok (c', stats) ∧ TurnsTaken { c with workers := ready } c') ∧
    (c.phase = .awaited → ∃ c' stats, c.runWorld = .ok (c', stats) ∧ c.TurnsTaken c') := by
  refine ⟨?_, undisturbed.exists_runWorld⟩
  obtain ⟨ready, ran, runs, awaited, ticks⟩ := undisturbed.tick_eq
  obtain ⟨c', stats, ends, taken⟩ := awaited.exists_runWorld rfl
  exact ⟨ready, ran, c', stats, runs, ticks.trans ends, taken⟩

/-- Two workers on both sides of one tile; the first comes to it, laying scent, and the second finds
it taken. -/
def contest : Colony :=
  ((Colony.mk (((Grid.clear 3 1).perform (.place 0 ⟨0, 0⟩)).1.perform (.place 1 ⟨2, 0⟩)).1
    [] 0 0 ⟨5, 1, 7⟩ .idle 0).joinedBy [⟨.swn, .channel (.ofBits 0)⟩, ⟨.move, .bare⟩]).joinedBy
      [⟨.lt, .bare⟩, ⟨.lt, .bare⟩, ⟨.move, .bare⟩]

theorem outcome_of_turn_contest :
    contest.Undisturbed ∧ ∃ c' stats, contest.tick = .ok (c', stats) ∧
      c'.grid.position? 0 = some ⟨1, 0⟩ ∧
      ∃ w, c'.worker? 1 = some w ∧ w.cpu.failed = true := by
  have built := (Grid.Built.clear 3 1).perform (.place 0 ⟨0, 0⟩) |>.perform (.place 1 ⟨2, 0⟩)
  have made : Colony.new (((Grid.clear 3 1).perform (.place 0 ⟨0, 0⟩)).1.perform
    (.place 1 ⟨2, 0⟩)).1 ⟨5, 1, 7⟩ = .ok _ := rfl
  have undisturbed : contest.Undisturbed :=
    ((Undisturbed.new built.consistent made).edit (.joinedBy _ _) (by decide)).edit
      (.joinedBy _ _) (by decide)
  obtain ⟨⟨ready, ran, c', stats, runs, ticks, each⟩, -⟩ := outcome_of_turn undisturbed
  have seen : (runLocalAll contest.clock contest.settings.maxStepsPerTick
      (contest.workers.map Worker.reset)).toOption.map
        (fun r => r.1.map fun w => (w.id, w.worldOp?, w.cpu.heading)) =
          some [(0, some .move, .right), (1, some .move, .left)] := by
    decide +kernel
  rw [runs] at seen
  obtain ⟨a, rest, rfl, isA, seen⟩ := List.map_eq_cons_iff.mp (Option.some.inj seen)
  obtain ⟨b, rest, rfl, isB, seen⟩ := List.map_eq_cons_iff.mp seen
  obtain rfl := List.map_eq_nil_iff.mp seen
  simp only [Prod.mk.injEq] at isA isB
  obtain ⟨idA, runsA, headingA⟩ := isA
  obtain ⟨idB, runsB, headingB⟩ := isB
  -- The first worker's turn is on the grid at the start of the tick.
  obtain ⟨g, vs, n, a', g', none, turn, -, outcome, -, stays⟩ := each [] a [b] rfl
  cases none
  have free := built.consistent.isFree_iff.mp (show contest.grid.isFree ⟨1, 0⟩ = true by
    decide +kernel)
  have ahead : contest.grid.ahead? a.id a.cpu.heading = some ⟨1, 0⟩ := by
    rw [idA, headingA]
    decide +kernel
  have moved := (outcome.moves runsA ⟨1, 0⟩ ⟨ahead, free.1, free.2⟩).2.1
  -- The second one's is on the grid that the first left.
  obtain ⟨g₁, vs, n, b', g₂, first, -, place, outcome, found, -⟩ := each [a] b [] rfl
  obtain ⟨v, g₃, cost, us, m, again, none, -, -⟩ := takeTurns_cons_eq_ok_iff.mp first
  cases none
  cases turn.symm.trans again
  have shut : ∀ q, ¬g'.OpenAhead b.id b.cpu.heading q := by
    intro q openAhead
    have start : contest.grid.position? 1 = some ⟨2, 0⟩ := by decide +kernel
    have target := openAhead.ahead
    rw [Grid.ahead?, place, headingB, idB, start] at target
    cases target
    exact openAhead.vacant a.id moved
  refine ⟨undisturbed, c', stats, ticks, ?_, b', ?_, (outcome.stays runsB shut).1⟩
  · rw [← idA, stays, moved]
  · rw [← idB, found]

/-- A worker with a program of one move. -/
def lone : Worker :=
  Worker.new 0 ⟨[⟨.move, .bare⟩].flatMap Instruction.encode, .empty⟩ #[⟨.move, .bare⟩]

/-- A colony with that worker on the first of two open tiles. -/
def mover : Colony :=
  (Colony.mk ((Grid.clear 2 1).perform (.place 0 ⟨0, 0⟩)).1 [] 0 0 ⟨5, 1, 7⟩ .idle 0).joinedBy
    [⟨.move, .bare⟩]

/-- The same colony after the worker's local part and its world part were called by themselves, the
latter on another grid: the program is behind the worker, and its request to move is open. -/
def leftover : Colony :=
  mover.modifyWorker 0 fun _ =>
    { lone with
      cpu := { lone.cpu with pc := 1, movePending := true }
      routine := ⟨lone.routine.program, 2, true, true, .halted⟩ }

theorem reachable_leftover : leftover.Reachable := by
  have made : Colony.new ((Grid.clear 2 1).perform (.place 0 ⟨0, 0⟩)).1 ⟨5, 1, 7⟩ = .ok _ := rfl
  have started : mover.Reachable :=
    (Reachable.new ((Grid.Built.clear 2 1).perform _).consistent made).edit (.joinedBy _ _)
  have ready : lone.runLocal 0 5 =
      .ok ({ lone with routine := ⟨lone.routine.program, 1, true, false, .halted⟩ }, 0) := rfl
  have asks : { lone with routine := ⟨lone.routine.program, 1, true, false, .halted⟩ }.runWorld
      (Grid.clear 1 1) = .ok (_, some 1) := rfl
  have ran := started.call (show mover.worker? 0 = some lone from rfl) (.runLocal ready)
  exact ran.call (show (mover.modifyWorker 0 fun _ => _).worker? 0 = some _ from rfl)
    (.runWorld asks)

/-- A request that a call of a worker by itself has left open is settled in the worker's next turn:
this worker moves in a tick in which it runs no step. -/
theorem leftover_request_moves :
    leftover.Reachable ∧ ¬leftover.Undisturbed ∧ ∃ ready ran c' stats,
      runLocalAll leftover.clock leftover.settings.maxStepsPerTick
        (leftover.workers.map Worker.reset) = .ok (ready, ran) ∧
      leftover.tick = .ok (c', stats) ∧ ready.map Worker.worldOp? = [none] ∧
      leftover.grid.position? 0 = some ⟨0, 0⟩ ∧ c'.grid.position? 0 = some ⟨1, 0⟩ ∧
      ¬TurnsTaken { leftover with workers := ready } c' := by
  have disturbed : ¬leftover.Undisturbed := by
    intro undisturbed
    have quiet := undisturbed.settled.quiet _ (List.mem_singleton_self _)
    cases quiet.move
  obtain ⟨ready, ran, g, ws, worldSteps, runs, -, -, -, ticks⟩ :=
    exists_tick reachable_leftover.fits
  have seen : (runLocalAll leftover.clock leftover.settings.maxStepsPerTick
      (leftover.workers.map Worker.reset)).toOption.map
        (fun r => r.1.map fun w => (w.id, w.worldOp?)) = some [(0, none)] := by
    decide +kernel
  have before : leftover.grid.position? 0 = some ⟨0, 0⟩ := by decide +kernel
  have after : leftover.tick.toOption.map (fun r => r.1.grid.position? 0) =
      some (some ⟨1, 0⟩) := by
    decide +kernel
  rw [runs] at seen
  rw [ticks] at after
  have moved := Option.some.inj after
  obtain ⟨w, rest, rfl, isW, seen⟩ := List.map_eq_cons_iff.mp (Option.some.inj seen)
  obtain rfl := List.map_eq_nil_iff.mp seen
  obtain ⟨number, waits⟩ := Prod.mk.inj isW
  refine ⟨reachable_leftover, disturbed, _, _, _, _, runs, ticks, by simp [waits], before, moved, ?_⟩
  -- A turn without a step would have left the worker where it stood.
  intro taken
  obtain ⟨g, vs, n, w', g', none, -, -, outcome, -, place⟩ := taken [] w [] rfl
  cases none
  rw [outcome.waits waits, number] at place
  cases moved.symm.trans (place.trans before)

end Colony

end Formicary
