import Mathlib.Data.Set.Card
import Formicary.Proofs.ColonyHistory

/-!
# What ticks do to the grid

A turn of a worker that asks for nothing can do two things to the grid: put the worker one tile
ahead and lay scent there, or dig away the dirt ahead. What the turns of several workers do together
is bounded by what each of them runs, as long as no two have the same number; and so is a tick,
since no worker has a request when it starts.
-/

namespace Formicary

theorem Point.ahead_ne (p : Point) (h : Heading) : p.ahead h ≠ p := by
  obtain ⟨x, y⟩ := p
  cases h <;> simp [Point.ahead, Heading.offset]

/-- What the turns of some workers can do to the grid. -/
structure Effects (ws : List Worker) (g g' : Grid) : Prop where
  tile : ∀ p, g'.tile? p = g.tile? p ∨ g.tile? p = some .dirt ∧ g'.tile? p = some .clear
  dug : {p | g'.tile? p ≠ g.tile? p}.encard ≤ ws.countP (·.worldOp? = some .dig)
  scent : ∀ p levels, g.scent? p = some levels → ∃ levels', g'.scent? p = some levels' ∧
    ∀ channel, levels.get channel ≤ levels'.get channel
  trail : ∀ p, (∀ id, g'.position? id = some p → g.position? id = some p) →
    g'.scent? p = g.scent? p
  moved : ∀ id, g'.position? id = g.position? id ∨ ∃ w ∈ ws, w.id = id ∧
    w.worldOp? = some .move ∧ ∃ p, g.position? id = some p ∧
      g'.position? id = some (p.ahead w.cpu.heading)

namespace Effects

variable {vs ws : List Worker} {g g₁ g₂ : Grid}

theorem refl (ws : List Worker) (g : Grid) : Effects ws g g where
  tile _ := .inl rfl
  dug := by simp
  scent _ levels found := ⟨levels, found, fun _ => UInt8.le_refl _⟩
  trail _ _ := rfl
  moved _ := .inl rfl

theorem position?_eq (effects : Effects ws g g₁) {id : WorkerId}
    (absent : id ∉ ws.map Worker.id) : g₁.position? id = g.position? id := by
  rcases effects.moved id with same | ⟨w, member, rfl, -⟩
  · exact same
  · exact absurd (List.mem_map_of_mem member) absent

/-- Effects add up, if no worker is in both parts. -/
theorem append (first : Effects vs g g₁) (second : Effects ws g₁ g₂)
    (apart : ∀ id, id ∉ vs.map Worker.id ∨ id ∉ ws.map Worker.id) : Effects (vs ++ ws) g g₂ where
  tile p := by
    rcases first.tile p with same | ⟨dirt, clear⟩
    · rw [← same]
      exact second.tile p
    · rcases second.tile p with same | ⟨dirt', -⟩
      · exact .inr ⟨dirt, same.trans clear⟩
      · cases clear.symm.trans dirt'
  dug := by
    have both : {p | g₂.tile? p ≠ g.tile? p} ⊆
        {p | g₁.tile? p ≠ g.tile? p} ∪ {p | g₂.tile? p ≠ g₁.tile? p} := by
      intro p changed
      by_cases same : g₁.tile? p = g.tile? p
      · exact .inr fun same' => changed (same'.trans same)
      · exact .inl same
    calc {p | g₂.tile? p ≠ g.tile? p}.encard
        ≤ {p | g₁.tile? p ≠ g.tile? p}.encard + {p | g₂.tile? p ≠ g₁.tile? p}.encard :=
          (Set.encard_le_encard both).trans (Set.encard_union_le _ _)
      _ ≤ vs.countP (·.worldOp? = some .dig) + ws.countP (·.worldOp? = some .dig) :=
          add_le_add first.dug second.dug
      _ = (vs ++ ws).countP (·.worldOp? = some .dig) := by
          rw [List.countP_append, Nat.cast_add]
  scent p levels found := by
    obtain ⟨between, found, higher⟩ := first.scent p levels found
    obtain ⟨after, found, higher'⟩ := second.scent p between found
    exact ⟨after, found, fun channel => UInt8.le_trans (higher channel) (higher' channel)⟩
  trail p unvisited := by
    rw [second.trail p, first.trail p]
    · intro id stands
      rcases apart id with absent | absent
      · rw [← first.position?_eq absent, stands]
      · exact unvisited id ((second.position?_eq absent).trans stands)
    · intro id stands
      rcases apart id with absent | absent
      · rw [first.position?_eq absent, unvisited id stands]
      · rw [← second.position?_eq absent, stands]
  moved id := by
    rcases apart id with absent | absent
    · rcases second.moved id with same | ⟨w, member, rest⟩
      · exact .inl (same.trans (first.position?_eq absent))
      · rw [first.position?_eq absent] at rest
        exact .inr ⟨w, List.mem_append_right vs member, rest⟩
    · rw [second.position?_eq absent]
      rcases first.moved id with same | ⟨w, member, rest⟩
      · exact .inl same
      · exact .inr ⟨w, List.mem_append_left ws member, rest⟩

/-- Scent may be laid where a worker has newly come to. -/
theorem deposit (effects : Effects ws g g₁) {id : WorkerId} {p : Point}
    (after : g₁.position? id = some p) (before : g.position? id ≠ some p) (c : Channel)
    (amount : UInt8) : Effects ws g (g₁.deposit id c amount) where
  tile q := by
    rw [Grid.tile?_deposit]
    exact effects.tile q
  dug := by
    simp only [Grid.tile?_deposit]
    exact effects.dug
  scent q levels found := by
    obtain ⟨between, found, higher⟩ := effects.scent q levels found
    rw [Grid.scent?_deposit q after, found]
    split
    · exact ⟨_, rfl, fun channel =>
        UInt8.le_trans (higher channel) (Grid.le_raiseLevel between c channel amount)⟩
    · exact ⟨between, rfl, higher⟩
  trail q unvisited := by
    simp only [Grid.position?_deposit] at unvisited
    have elsewhere : q ≠ p := by
      rintro rfl
      exact before (unvisited id after)
    rw [Grid.scent?_deposit q after, if_neg elsewhere]
    exact effects.trail q unvisited
  moved a := by
    rw [Grid.position?_deposit]
    exact effects.moved a

end Effects

namespace Worker

variable {w : Worker} {g : Grid} {p : Point}

theorem effects_put (runs : w.worldOp? = some .move)
    (leads : g.destination? w.id w.cpu.heading = some p) : Effects [w] g (g.put w.id p) where
  tile q := .inl (g.tile?_put ..)
  dug := by simp [Grid.tile?_put]
  scent q levels found := ⟨levels, (g.scent?_put ..).trans found, fun _ => UInt8.le_refl _⟩
  trail q _ := g.scent?_put ..
  moved id := by
    obtain ⟨q, stands, rfl⟩ := Option.map_eq_some_iff.mp (Option.filter_eq_some_iff.mp leads).1
    rw [Grid.position?_put]
    split
    · next same =>
      subst same
      exact .inr ⟨w, List.mem_singleton_self w, rfl, runs, q, stands, rfl⟩
    · exact .inl rfl

theorem effects_layScent (runs : w.worldOp? = some .move)
    (leads : g.destination? w.id w.cpu.heading = some p) (amount : UInt8) :
    Effects [w] g (w.layScent (g.put w.id p) amount) := by
  have moves := effects_put runs leads
  unfold layScent
  split
  · refine moves.deposit (p := p) (by rw [Grid.position?_put, if_pos rfl]) ?_ _ _
    obtain ⟨q, stands, rfl⟩ := Option.map_eq_some_iff.mp (Option.filter_eq_some_iff.mp leads).1
    rw [stands]
    exact fun same => Point.ahead_ne q _ (Option.some.inj same).symm
  · exact moves

theorem effects_setTile (runs : w.worldOp? = some .dig)
    (dirt : g.dirtAhead? w.id w.cpu.heading = some p) :
    Effects [w] g (g.setTile p .clear) := by
  have dirt : g.tile? p = some .dirt := by simpa using (Option.filter_eq_some_iff.mp dirt).2
  have one : {q | (g.setTile p .clear).tile? q ≠ g.tile? q} ⊆ {p} := by
    intro q changed
    by_cases here : q = p
    · exact here
    · exact absurd (by rw [Grid.tile?_setTile, if_neg here]) changed
  exact {
    tile := fun q => by
      rw [Grid.tile?_setTile]
      split
      · next same =>
        subst same
        exact .inr ⟨dirt, by rw [dirt, Option.map_some]⟩
      · exact .inl rfl
    dug := by
      calc {q | (g.setTile p .clear).tile? q ≠ g.tile? q}.encard
          ≤ ({p} : Set Point).encard := Set.encard_le_encard one
        _ = 1 := Set.encard_singleton p
        _ = [w].countP (·.worldOp? = some .dig) := by simp [runs]
    scent := fun q levels found =>
      ⟨levels, (g.scent?_setTile ..).trans found, fun _ => UInt8.le_refl _⟩
    trail := fun q _ => g.scent?_setTile ..
    moved := fun _ => .inl (Grid.position?_modify ..) }

/-- What one worker's turn does to the grid. -/
theorem effects_deed (w : Worker) (g : Grid) (amount : UInt8) :
    Effects [w] g (w.deed g amount) := by
  unfold deed
  split
  · next runs =>
    split
    · next p leads => exact effects_layScent runs leads amount
    · exact .refl _ g
  · next runs =>
    split
    · next p dirt => exact effects_setTile runs dirt
    · exact .refl _ g
  · exact .refl _ g

end Worker

namespace Colony

/-- What the turns of workers do to the grid, and how many of them run a step. -/
theorem effects_takeTurns {ws ws' : List Worker} {g g' : Grid} {amount : UInt8} {worldSteps : Nat}
    (quiet : ∀ w ∈ ws, w.cpu.Quiet) (distinct : (ws.map Worker.id).Nodup)
    (turns : takeTurns amount g ws = .ok (g', ws', worldSteps)) :
    Effects ws g g' ∧ worldSteps = ws.countP (·.worldOp?.isSome) := by
  induction ws generalizing g g' ws' worldSteps with
  | nil =>
    cases turns
    exact ⟨.refl _ _, rfl⟩
  | cons w ws ih =>
    rw [List.forall_mem_cons] at quiet
    rw [List.map_cons, List.nodup_cons] at distinct
    obtain ⟨w', turn⟩ := w.takeTurn_of_quiet g amount quiet.1
    obtain ⟨last, others, rest, later, -⟩ := exists_takeTurns amount (w.deed g amount) ws
    obtain ⟨effects, count⟩ := ih quiet.2 distinct.2 later
    rw [takeTurns, turn] at turns
    simp only [later] at turns
    cases turns
    constructor
    · refine (w.effects_deed g amount).append effects fun id => ?_
      by_cases same : id = w.id
      · exact .inr (same ▸ distinct.1)
      · exact .inl (by simpa using same)
    · rw [List.countP_cons, ← count, Nat.add_comm, Option.isSome_map]

/-- What a tick can never do to the grid, whatever the workers' programs are: it turns no tile but
dirt into open ground, and no more of them than workers run a dig; it lowers no scent, and raises
none but on tiles that a worker came to; it takes no worker off the grid and puts none on it; and it
moves no worker but one that runs a move, by one tile along its heading. -/
theorem tick_effects {c : Colony} (between : c.BetweenTicks) :
    ∃ ready ran c' stats,
      runLocalAll c.clock c.settings.maxStepsPerTick (c.workers.map Worker.reset) =
        .ok (ready, ran) ∧
      c.tick = .ok (c', stats) ∧ List.Forall₂ Worker.KeptBy ready c'.workers ∧
      stats.worldSteps = ready.countP (·.worldOp?.isSome) ∧
      (∀ p, c'.grid.tile? p = c.grid.tile? p ∨
        c.grid.tile? p = some .dirt ∧ c'.grid.tile? p = some .clear) ∧
      {p | c'.grid.tile? p ≠ c.grid.tile? p}.encard ≤ ready.countP (·.worldOp? = some .dig) ∧
      (∀ p levels, c.grid.scent? p = some levels → ∃ levels', c'.grid.scent? p = some levels' ∧
        ∀ channel, levels.get channel ≤ levels'.get channel) ∧
      (∀ p, (∀ id, c'.grid.position? id = some p → c.grid.position? id = some p) →
        c'.grid.scent? p = c.grid.scent? p) ∧
      (∀ id, (c'.grid.position? id).isSome = (c.grid.position? id).isSome) ∧
      ∀ id, c'.grid.position? id = c.grid.position? id ∨ ∃ w ∈ ready, w.id = id ∧
        w.worldOp? = some .move ∧ ∃ p, c.grid.position? id = some p ∧
          c'.grid.position? id = some (p.ahead w.cpu.heading) := by
  have settled := between.settled
  obtain ⟨ready, ran, g, ws, worldSteps, runs, locals, turns, kept, ticks⟩ :=
    exists_tick settled.fits
  have quiet : ∀ w ∈ ready, w.cpu.Quiet :=
    Worker.forall_of_forall₂ locals (Worker.forall_cpu_reset settled.quiet) fun _ _ first quiet =>
      ⟨first.keeps.movePending.trans quiet.move, first.keeps.digPending.trans quiet.dig⟩
  have distinct : (ready.map Worker.id).Nodup := by
    rw [Worker.map_id_of_forall₂ locals fun _ _ first => first.id, List.map_map]
    exact settled.increasing.imp UInt32.ne_of_lt
  obtain ⟨effects, count⟩ := effects_takeTurns quiet distinct turns
  refine ⟨ready, ran, _, _, runs, ticks, kept.imp fun _ _ turn => turn.toKeptBy, count,
    effects.tile, effects.dug, effects.scent, effects.trail, fun id => ?_, effects.moved⟩
  rcases effects.moved id with same | ⟨w, -, -, -, p, before, after⟩
  · rw [same]
  · rw [before, after, Option.isSome_some, Option.isSome_some]

/-- One worker that lays scent and moves, and one that digs. -/
def crew : Colony :=
  ((Colony.mk ((((Grid.clear 4 1).perform (.setTile ⟨3, 0⟩ .dirt)).1.perform
    (.place 0 ⟨0, 0⟩)).1.perform (.place 1 ⟨2, 0⟩)).1 [] 0 0 ⟨5, 1, 7⟩ .idle 0).joinedBy
      [⟨.swn, .channel (.ofBits 0)⟩, ⟨.move, .bare⟩]).joinedBy [⟨.dig, .bare⟩]

theorem tick_effects_crew :
    crew.BetweenTicks ∧ ∃ c' stats, crew.tick = .ok (c', stats) ∧
      c'.grid.tile? ⟨3, 0⟩ = some .clear ∧
      {p | c'.grid.tile? p ≠ crew.grid.tile? p}.encard ≤ 1 ∧
      c'.grid.position? 0 = some ⟨1, 0⟩ := by
  have made : Colony.new ((((Grid.clear 4 1).perform (.setTile ⟨3, 0⟩ .dirt)).1.perform
    (.place 0 ⟨0, 0⟩)).1.perform (.place 1 ⟨2, 0⟩)).1 ⟨5, 1, 7⟩ = .ok _ := rfl
  have between : crew.BetweenTicks :=
    ((BetweenTicks.new ((((Grid.Built.clear 4 1).perform _).perform _).perform _) made).edit
      (.joinedBy _ _) (by decide)).edit (.joinedBy _ _) (by decide)
  obtain ⟨ready, ran, c', stats, runs, ticks, -, -, -, dug, -⟩ := tick_effects between
  have digs : (runLocalAll crew.clock crew.settings.maxStepsPerTick
      (crew.workers.map Worker.reset)).toOption.map
        (fun r => r.1.countP (·.worldOp? = some .dig)) = some 1 := by
    decide +kernel
  rw [runs] at digs
  have seen : crew.tick.toOption.map
      (fun r => (r.1.grid.tile? ⟨3, 0⟩, r.1.grid.position? 0)) =
        some (some .clear, some ⟨1, 0⟩) := by
    decide +kernel
  rw [ticks] at seen
  obtain ⟨cleared, moved⟩ := Prod.mk.inj (Option.some.inj seen)
  refine ⟨between, c', stats, ticks, cleared, dug.trans_eq ?_, moved⟩
  exact congrArg Nat.cast (Option.some.inj digs)

end Colony

end Formicary
