import Formicary.Proofs.TickOrder

/-!
# Replacing programs

A program is replaced as a whole or not at all. To see that, spawning, assigning and reloading are
also written as changes of a colony in place, one assignment after the other, where a failure leaves
whatever has been changed up to it. They turn out to be the plain functions: nothing is changed
before the last thing that may fail. Reloading all workers is the same as assigning to each of them,
in any order, and what a worker is told apart by, its number, is never given twice.
-/

namespace Formicary

namespace Worker

/-- What a new program makes of a worker: the place in the program, the stack, the requests and the
routine start again, all else is kept. -/
structure Reloaded (code : MachineCode) (program : Program) (w w' : Worker) : Prop where
  id : w'.id = w.id
  code : w'.code = code
  cpu : w'.cpu =
    { w.cpu with pc := 0, bp := 0, sp := 0, movePending := false, digPending := false }
  routine : w'.routine =
    { program, divisor := 1, localDone := false, worldDone := false,
      progress := if program = #[] then .idle else .compiled }

theorem reloaded_load (w : Worker) (code : MachineCode) (program : Program) :
    Reloaded code program w (w.load code program) where
  id := rfl
  code := rfl
  cpu := rfl
  routine := by
    unfold load Routine.start
    simp only [Array.isEmpty_iff]

/-- A program that is given twice is given once. -/
theorem load_load (w : Worker) (code : MachineCode) (program : Program) :
    (w.load code program).load code program = w.load code program :=
  rfl

/-- Loading into some workers and then into one more. -/
theorem load_of_mem_cons (w : Worker) (code : MachineCode) (program : Program) (id : WorkerId)
    (ids : List WorkerId) :
    (let v := if w.id = id then w.load code program else w
      if v.id ∈ ids then v.load code program else v) =
      if w.id ∈ id :: ids then w.load code program else w := by
  by_cases first : w.id = id
  · simp [first, load_load]
  · simp [first]

end Worker

namespace Colony

/-- A change of a colony in place. Where it fails, it leaves the colony as far as it has come. -/
abbrev Change (α : Type) : Type :=
  EStateM ColonyError Colony α

namespace Change

/-- The program that some code stands for. -/
def compile (code : MachineCode) : Change Program :=
  match code.compile with
  | .ok program => pure program
  | .error error => throw (.code error)

/-- Adds a worker: a number is taken first, the worker is added then. -/
def spawn (code : MachineCode) : Change WorkerId := do
  let program ← compile code
  let id := (← get).nextId
  modify fun c => { c with nextId := c.nextId + 1 }
  modify fun c => { c with workers := c.workers ++ [Worker.new id code program] }
  return id

/-- Gives a worker another program: the program is made first, the worker is looked for then. -/
def assign (id : WorkerId) (code : MachineCode) : Change Unit := do
  let program ← compile code
  match (← get).worker? id with
  | none => throw (.unknownWorker id)
  | some _ => modify fun c => c.modifyWorker id (·.load code program)

/-- Gives programs to the workers from a place on. -/
def loadFrom (code : MachineCode) : (place : Nat) → List Program → Change Unit
  | _, [] => pure ()
  | place, program :: programs => do
    modify fun c => { c with workers := c.workers.modify place (·.load code program) }
    loadFrom code (place + 1) programs

/-- Gives every worker a new program: a program is made for each of them first, then one worker
after the other gets its own. -/
def reloadAll (code : MachineCode) : Change Unit := do
  let programs ← (← get).workers.mapM fun _ => compile code
  loadFrom code 0 programs

/-- The end of a change that either happens as a whole or not at all. -/
def whole {α : Type} (c : Colony) : Except ColonyError (Colony × α) →
    EStateM.Result ColonyError Colony α
  | .ok (c', a) => .ok a c'
  | .error error => .error error c

section Runs

variable {c : Colony} {code : MachineCode} {program : Program} {error : CodeError}

theorem run_compile (made : code.compile = .ok program) : (compile code).run c = .ok program c := by
  unfold compile
  rw [made]
  rfl

theorem run_compile_error (fails : code.compile = .error error) :
    (compile code).run c = .error (.code error) c := by
  unfold compile
  rw [fails]
  rfl

theorem run_get : (get : Change Colony).run c = .ok c c :=
  rfl

/-- As many programs are made as there are workers. -/
theorem run_mapM_compile (made : code.compile = .ok program) (ws : List Worker) :
    (ws.mapM fun _ => compile code).run c = .ok (ws.map fun _ => program) c := by
  induction ws with
  | nil => rfl
  | cons w ws ih =>
    rw [List.mapM_cons, run_bind_ok (run_compile made), run_bind_ok ih]
    rfl

/-- Without any workers no program has to be made. -/
theorem run_mapM_compile_error (fails : code.compile = .error error) {ws : List Worker}
    (some : ws ≠ []) : (ws.mapM fun _ => compile code).run c = .error (.code error) c := by
  cases ws with
  | nil => exact absurd rfl some
  | cons w ws => rw [List.mapM_cons, run_bind_error (run_compile_error fails)]

/-- The workers before the place have their programs already. -/
theorem run_loadFrom {front ws : List Worker} (workers : c.workers = front ++ ws) :
    (loadFrom code front.length (ws.map fun _ => program)).run c =
      .ok () { c with workers := front ++ ws.map (·.load code program) } := by
  induction ws generalizing c front with
  | nil =>
    rw [List.append_nil] at workers
    rw [List.map_nil, List.map_nil, List.append_nil, ← workers]
    rfl
  | cons w ws ih =>
    have next : c.workers.modify front.length (·.load code program) =
        (front ++ [w.load code program]) ++ ws := by
      rw [workers, List.modify_eq_take_cons_drop (by simp)]
      simp
    have rest := ih
      (c := { c with workers := c.workers.modify front.length (·.load code program) }) next
    rw [List.length_append, List.length_singleton, List.append_assoc] at rest
    exact rest

/-- Adding a worker in place. -/
theorem run_spawn (c : Colony) (code : MachineCode) :
    (spawn code).run c = whole c (c.spawn code) := by
  unfold spawn Colony.spawn
  cases made : code.compile with
  | error error => exact run_bind_error (run_compile_error made)
  | ok program => exact run_bind_ok (run_compile made)

/-- Giving a worker another program in place. -/
theorem run_assign (c : Colony) (id : WorkerId) (code : MachineCode) :
    (assign id code).run c = whole c ((c.assign id code).map (·, ())) := by
  unfold assign Colony.assign
  cases made : code.compile with
  | error error => exact run_bind_error (run_compile_error made)
  | ok program =>
    rw [run_bind_ok (run_compile made), run_bind_ok run_get]
    cases found : c.worker? id with
    | none => rfl
    | some w => rfl

/-- Giving all workers a new program in place. -/
theorem run_reloadAll (c : Colony) (code : MachineCode) :
    (reloadAll code).run c = whole c ((c.reloadAll code).map (·, ())) := by
  unfold reloadAll Colony.reloadAll
  rw [run_bind_ok run_get]
  by_cases empty : c.workers = []
  · rw [empty, if_pos List.isEmpty_nil]
    rfl
  · rw [if_neg (by simpa using empty)]
    cases made : code.compile with
    | error error => exact run_bind_error (run_mapM_compile_error made empty)
    | ok program =>
      rw [run_bind_ok (run_mapM_compile made c.workers)]
      exact run_loadFrom (show c.workers = [] ++ c.workers from rfl)

end Runs

end Change

section Bulk

variable {c : Colony} {code : MachineCode} {program : Program}

theorem isSome_worker?_iff {id : WorkerId} : (c.worker? id).isSome ↔ id ∈ c.ids := by
  unfold worker? ids
  simp [List.find?_isSome]

theorem assign_eq_ok (made : code.compile = .ok program) {id : WorkerId} (known : id ∈ c.ids) :
    c.assign id code = .ok (c.modifyWorker id (·.load code program)) := by
  unfold assign
  rw [made]
  exact if_pos (isSome_worker?_iff.mpr known)

theorem reloadAll_eq_ok (made : code.compile = .ok program) :
    c.reloadAll code = .ok { c with workers := c.workers.map (·.load code program) } := by
  unfold reloadAll
  rw [made]
  by_cases empty : c.workers = []
  · rw [if_pos (by simpa using empty), empty, List.map_nil, ← empty]
  · rw [if_neg (by simpa using empty)]

/-- Where all numbers differ, the first worker with a number is the only one with it. -/
theorem modify_findIdx_eq_map {ws : List Worker} (distinct : (ws.map Worker.id).Nodup)
    (id : WorkerId) (f : Worker → Worker) :
    ws.modify (ws.findIdx (·.id = id)) f = ws.map fun w => if w.id = id then f w else w := by
  induction ws with
  | nil => rfl
  | cons w ws ih =>
    rw [List.map_cons, List.nodup_cons] at distinct
    by_cases here : w.id = id
    · have others : ∀ v ∈ ws, (if v.id = id then f v else v) = v := by
        intro v member
        apply if_neg
        intro same
        rw [here, ← same] at distinct
        exact distinct.1 (List.mem_map_of_mem member)
      rw [modify_findIdx_cons_of_pos (by simpa using here), List.map_cons, if_pos here,
        List.map_congr_left others, List.map_id']
    · rw [modify_findIdx_cons_of_neg (by simpa using here), List.map_cons, if_neg here,
        ih distinct.2]

/-- Assigning to some workers, one after the other, changes these workers and no others. -/
theorem foldlM_assign (distinct : c.ids.Nodup) (made : code.compile = .ok program)
    {order : List WorkerId} (known : ∀ id ∈ order, id ∈ c.ids) :
    order.foldlM (fun d id => d.assign id code) c =
      .ok { c with
        workers := c.workers.map fun w => if w.id ∈ order then w.load code program else w } := by
  induction order generalizing c with
  | nil => simp [pure, Except.pure]
  | cons id order ih =>
    have same : (c.modifyWorker id (·.load code program)).ids = c.ids :=
      ids_modifyWorker fun _ _ => rfl
    rw [List.forall_mem_cons] at known
    rw [List.foldlM_cons, assign_eq_ok made known.1, ok_bind, ih]
    · unfold modifyWorker
      rw [modify_findIdx_eq_map distinct, List.map_map]
      simp only [Function.comp_def, Worker.load_of_mem_cons]
    · rw [same]
      exact distinct
    · rw [same]
      exact known.2

/-- Assigning to all workers, in any order, is reloading them. -/
theorem foldlM_assign_eq_reloadAll (distinct : c.ids.Nodup) (code : MachineCode)
    {order : List WorkerId} (all : order.Perm c.ids) :
    order.foldlM (fun d id => d.assign id code) c = c.reloadAll code := by
  cases made : code.compile with
  | ok program =>
    rw [foldlM_assign distinct made fun id => all.mem_iff.mp, reloadAll_eq_ok made]
    congr 2
    apply List.map_congr_left
    intro w member
    exact if_pos (all.mem_iff.mpr (List.mem_map_of_mem member))
  | error error =>
    unfold reloadAll
    rw [made]
    cases order with
    | nil =>
      have empty : c.workers = [] := List.map_eq_nil_iff.mp (List.nil_perm.mp all)
      rw [if_pos (by simpa using empty)]
      rfl
    | cons id order =>
      have known : c.workers ≠ [] := by
        intro empty
        have nowhere : c.ids = [] := List.map_eq_nil_iff.mpr empty
        rw [nowhere] at all
        exact List.cons_ne_nil _ _ all.eq_nil
      rw [if_neg (by simpa using known), List.foldlM_cons]
      unfold assign
      rw [made]
      rfl

end Bulk

section Numbers

/-- The number that a call gives to a new worker, if it makes one. -/
def given? (c : Colony) : Operation → Option WorkerId
  | .spawn code => (c.spawn code).toOption.map Prod.snd
  | _ => none

theorem given?_spawn (c : Colony) (code : MachineCode) :
    c.given? (.spawn code) = (c.spawn code).toOption.map Prod.snd :=
  rfl

/-- The numbers that some calls give to new workers, the earliest first. -/
def given (c : Colony) : List Operation → List WorkerId
  | [] => []
  | op :: ops =>
    match c.perform op with
    | .ok c' => (c.given? op).toList ++ c'.given ops
    | .error _ => []

theorem given_concat {c before : Colony} {ops : List Operation} {op : Operation}
    (performed : c.performAll ops = .ok before) {after : Colony}
    (called : before.perform op = .ok after) :
    c.given (ops ++ [op]) = c.given ops ++ (before.given? op).toList := by
  induction ops generalizing c with
  | nil =>
    cases performed
    simp [given, called]
  | cons first ops ih =>
    unfold performAll at performed
    rw [List.foldlM_cons] at performed
    obtain ⟨next, now, later⟩ := bind_eq_ok_iff.mp performed
    rw [List.cons_append, given, given, now]
    simp only [ih later, List.append_assoc]

end Numbers

end Colony

namespace Chronicle

variable {h h' : Chronicle}

/-- A call that makes a worker gives it the number of its birth. -/
theorem toList_given? (enrolled : h.Enrolled) {op : Colony.Operation}
    (performed : h.perform op = .ok h') :
    (List.range h'.births).map UInt32.ofNat =
      (List.range h.births).map UInt32.ofNat ++ (h.colony.given? op).toList := by
  cases op with
  | part p =>
    have kept : h'.births = h.births := by
      cases p with
      | reset =>
        cases performed
        rfl
      | runLocal | await | runWorld =>
        obtain ⟨c, -, rfl⟩ := map_eq_ok_iff.mp performed
        rfl
    simp [kept, Colony.given?]
  | spawn code =>
    simp only [perform] at performed
    rw [Colony.given?_spawn]
    split at performed
    · next c id spawned =>
      cases performed
      have number : id = h.colony.nextId := by
        unfold Colony.spawn at spawned
        split at spawned
        · cases spawned
        · cases spawned
          rfl
      rw [List.range_succ, List.map_append, spawned, number, enrolled.nextId]
      rfl
    · next error refused =>
      cases performed
      rw [refused]
      exact (List.append_nil _).symm
  | despawn | assign | reloadAll =>
    simp only [perform] at performed
    split at performed <;> cases performed <;> exact (List.append_nil _).symm

/-- Along every history the numbers that were given are those of the births. -/
theorem given_eq (sound : h.Sound []) (fresh : h.births = 0) (ops : List Colony.Operation)
    (performed : h.performAll ops = .ok h') :
    h.colony.given ops = (List.range h'.births).map UInt32.ofNat := by
  induction ops using List.reverseRecOn generalizing h' with
  | nil =>
    cases performed
    rw [fresh]
    rfl
  | append_singleton ops op ih =>
    rw [performAll_concat] at performed
    obtain ⟨before, earlier, last⟩ := bind_eq_ok_iff.mp performed
    rcases performAll_cases sound ops with ⟨-, before', same, kept⟩ | ⟨-, refused⟩
    · cases earlier.symm.trans same
      have plain : h.colony.performAll ops = .ok before.colony := by
        rw [← map_colony_performAll, earlier]
        rfl
      have call : before.colony.perform op = .ok h'.colony := by
        rw [← map_colony_perform, last]
        rfl
      rw [Colony.given_concat plain call, ih earlier, toList_given? kept.enrolled last]
    · cases earlier.symm.trans refused

end Chronicle

namespace Colony

/-- Births below the number of all numbers are told apart by their numbers. -/
theorem pairwise_map_ofNat {births : List Nat} {bound : Nat} (few : bound < UInt32.size)
    (increasing : births.Pairwise (· < ·)) (born : ∀ birth ∈ births, birth < bound) :
    (births.map UInt32.ofNat).Pairwise (· < ·) ∧
      ∀ id ∈ births.map UInt32.ofNat, id < UInt32.ofNat bound := by
  have less {m n : Nat} (lt : m < n) (le : n ≤ bound) : UInt32.ofNat m < UInt32.ofNat n := by
    rw [UInt32.lt_iff_toNat_lt, UInt32.toNat_ofNat_of_lt' (by omega),
      UInt32.toNat_ofNat_of_lt' (by omega)]
    exact lt
  constructor
  · rw [List.pairwise_map]
    refine increasing.imp_of_mem ?_
    intro m n _ there lt
    exact less lt (Nat.le_of_lt (born n there))
  · intro id member
    obtain ⟨birth, there, rfl⟩ := List.mem_map.mp member
    exact less (born birth there) (Nat.le_refl _)

/-- The numbers of the workers after any calls of a new colony, as long as numbers last. -/
theorem numbers_of_performAll {grid : Grid} {settings : Settings} {c : Colony}
    (made : new grid settings = .ok c) {ops : List Operation} (ordered : InOrder (parts ops))
    (few : (c.given ops).length < UInt32.size) :
    ∃ last, c.performAll ops = .ok last ∧ last.ids.Pairwise (· < ·) ∧
      (∀ id ∈ last.ids, id < last.nextId ∧ id ∈ c.given ops) ∧
      (c.given ops).Pairwise (· < ·) := by
  have sound := Chronicle.sound_start made
  rcases Chronicle.performAll_cases sound ops with ⟨-, h, performed, kept⟩ | ⟨disordered, -⟩
  · have numbers : c.given ops = (List.range h.births).map UInt32.ofNat :=
      Chronicle.given_eq sound rfl ops performed
    have plain : c.performAll ops = .ok h.colony := by
      have same := (Chronicle.start c).map_colony_performAll ops
      rw [performed] at same
      exact same.symm
    rw [numbers, List.length_map, List.length_range] at few
    have enrolled := kept.enrolled
    have ids : h.colony.ids = (h.marks.map Mark.birth).map UInt32.ofNat := by
      unfold Colony.ids
      rw [Mark.map_id_eq enrolled.marked, List.map_map]
      rfl
    obtain ⟨increasing, below⟩ := pairwise_map_ofNat few enrolled.increasing enrolled.born
    rw [← enrolled.nextId, ← ids] at below
    rw [← ids] at increasing
    refine ⟨h.colony, plain, increasing, ?_, ?_⟩
    · intro id member
      refine ⟨below id member, ?_⟩
      rw [ids] at member
      obtain ⟨birth, there, rfl⟩ := List.mem_map.mp member
      rw [numbers]
      exact List.mem_map_of_mem (List.mem_range.mpr (enrolled.born birth there))
    · rw [numbers]
      exact (pairwise_map_ofNat few List.pairwise_lt_range fun birth => List.mem_range.mp).1
  · exact absurd ordered disordered

/-- A program is replaced as a whole or not at all. Code that stands for no program changes nothing,
nor does a number that no worker has. Code that does gives all workers the same new start, whether
they are reloaded at once or, where no two have the same number, are assigned to one by one. No
history from a new colony gives a number twice as long as numbers last, so no two workers have the
same one. -/
theorem replaced_whole_or_not_at_all (c : Colony) (code : MachineCode) :
    ((Change.spawn code).run c = Change.whole c (c.spawn code) ∧
      (∀ id, (Change.assign id code).run c = Change.whole c ((c.assign id code).map (·, ()))) ∧
      (Change.reloadAll code).run c = Change.whole c ((c.reloadAll code).map (·, ()))) ∧
    (∀ error, code.compile = .error error →
      (Change.spawn code).run c = .error (.code error) c ∧
      (∀ id, (Change.assign id code).run c = .error (.code error) c) ∧
      (c.workers ≠ [] → (Change.reloadAll code).run c = .error (.code error) c)) ∧
    (∀ id, c.worker? id = none → ∃ error, (Change.assign id code).run c = .error error c) ∧
    (∀ program, code.compile = .ok program → ∃ c', c.reloadAll code = .ok c' ∧
      c' = { c with workers := c'.workers } ∧
      List.Forall₂ (Worker.Reloaded code program) c.workers c'.workers ∧
      (c.ids.Nodup → ∀ order : List WorkerId, order.Perm c.ids →
        order.foldlM (fun d id => d.assign id code) c = .ok c')) ∧
    ∀ grid settings ops, new grid settings = .ok c → InOrder (parts ops) →
      (c.given ops).length < UInt32.size →
      ∃ last, c.performAll ops = .ok last ∧ last.ids.Pairwise (· < ·) ∧
        (∀ id ∈ last.ids, id < last.nextId ∧ id ∈ c.given ops) ∧
        (c.given ops).Pairwise (· < ·) ∧
        ∀ order : List WorkerId, order.Perm last.ids →
          order.foldlM (fun d id => d.assign id code) last = last.reloadAll code := by
  refine ⟨⟨Change.run_spawn c code, fun id => Change.run_assign c id code,
    Change.run_reloadAll c code⟩, ?_, ?_, ?_, ?_⟩
  · intro error fails
    rw [Change.run_spawn, Change.run_reloadAll]
    refine ⟨?_, ?_, ?_⟩
    · simp only [spawn, fails, Change.whole]
    · intro id
      rw [Change.run_assign]
      simp only [assign, fails, Change.whole, Except.map]
    · intro some
      simp only [reloadAll, List.isEmpty_iff, some, fails, Change.whole, Except.map, if_false]
  · intro id unknown
    rw [Change.run_assign]
    unfold assign
    split
    · exact ⟨_, rfl⟩
    · rw [unknown]
      exact ⟨_, rfl⟩
  · intro program made
    refine ⟨_, reloadAll_eq_ok made, rfl, ?_, ?_⟩
    · rw [List.forall₂_map_right_iff, List.forall₂_same]
      intro w _
      exact w.reloaded_load code program
    · intro distinct order all
      rw [foldlM_assign_eq_reloadAll distinct code all, reloadAll_eq_ok made]
  · intro grid settings ops made ordered few
    obtain ⟨last, performed, increasing, below, numbers⟩ :=
      numbers_of_performAll made ordered few
    have distinct : last.ids.Nodup := increasing.imp UInt32.ne_of_lt
    exact ⟨last, performed, increasing, below, numbers,
      fun order => foldlM_assign_eq_reloadAll distinct code⟩

/-- A worker that leaves after a tick, a program that cannot be read, and two more workers. -/
def succession : List Operation :=
  let moves : MachineCode := ⟨Instruction.encode ⟨.move, .bare⟩, .empty⟩
  [.spawn moves, .part .reset, .part .runLocal, .part .await, .part .runWorld, .despawn 0,
    .spawn ⟨[255], .empty⟩, .spawn moves, .spawn moves, .reloadAll moves]

theorem replaced_whole_or_not_at_all_succession :
    Colony.new (Grid.clear 2 1) .standard = .ok clearing ∧ InOrder (parts succession) ∧
      clearing.given succession = [0, 1, 2] ∧
      ∃ last, clearing.performAll succession = .ok last ∧ last.ids = [1, 2] ∧
        last.ids.Pairwise (· < ·) ∧ (∀ id ∈ last.ids, id < last.nextId) ∧
        (Change.reloadAll ⟨[255], .empty⟩).run last =
          .error (.code (.unknownOpcode 0 31)) last := by
  have made : Colony.new (Grid.clear 2 1) .standard = .ok clearing := rfl
  have ordered : InOrder (parts succession) := by
    show InOrder (((([] ++ [.reset]) ++ [.runLocal]) ++ [.await]) ++ [.runWorld])
    simp only [inOrder_concat_iff]
    simp [inOrder_nil, Part.needs?]
  have numbers : clearing.given succession = [0, 1, 2] := by decide +kernel
  obtain ⟨last, performed, increasing, below, -⟩ :=
    (replaced_whole_or_not_at_all clearing .empty).2.2.2.2 _ _ succession made ordered (by
      rw [numbers]
      decide)
  have seen : (clearing.performAll succession).toOption.map ids = some [1, 2] := by decide +kernel
  rw [performed] at seen
  have ids : last.ids = [1, 2] := Option.some.inj seen
  have someone : last.workers ≠ [] := by
    intro none
    rw [Colony.ids, none] at ids
    cases ids
  have fails : (MachineCode.mk [255] .empty).compile = .error (.unknownOpcode 0 31) := by
    decide +kernel
  have broken := (replaced_whole_or_not_at_all last ⟨[255], .empty⟩).2.1 _ fails
  exact ⟨made, ordered, numbers, last, performed, ids, increasing,
    fun id member => (below id member).1, broken.2.2 someone⟩

end Colony

end Formicary
