import Mathlib.Data.List.Induction
import Formicary.Proofs.Except
import Formicary.Shelf.Basic

/-!
# What a shelf remembers

Whatever happens to a shelf, a worker has the program that was the draft when it was last given one,
until it is taken away. The place a worker holds is taken in the archive or is the next one, and the
next one only while the draft is pinned; so the draft goes to that place before another replaces it.
-/

namespace Formicary

namespace Shelf

/-- What can be done with a shelf. -/
inductive Action where
  | edit (lines : List String)
  | assign (id : WorkerId)
  | unassign (id : WorkerId)

/-- The shelf after an action. A refused assignment leaves it as it was. -/
def perform (s : Shelf) : Action → Shelf
  | .edit lines => (s.edit lines).1
  | .assign id =>
    match s.assign id with
    | .ok t => t
    | .error _ => s
  | .unassign id => (s.unassign id).1

/-- The shelf after some actions, the earliest first. -/
def after (actions : List Action) : Shelf :=
  actions.foldl perform empty

/-- The place a worker holds is taken or is that of the pinned draft, and no program that was given
away is empty. -/
structure Kept (s : Shelf) : Prop where
  placed : ∀ (id : WorkerId) place, s.assignments[id]? = some place →
    place < s.archive.size ∨ s.pinned = true ∧ place = s.archive.size
  archived : ∀ m ∈ s.archive, m.isEmpty = false
  drafted : s.pinned = true → s.draft.isEmpty = false

section Steps

variable {s t : Shelf}

theorem assign_eq_ok_iff {id : WorkerId} :
    s.assign id = .ok t ↔ s.draft.isEmpty = false ∧
      t = { s with pinned := true, assignments := s.assignments.insert id s.archive.size } := by
  unfold assign hasCode
  cases s.draft.isEmpty <;> simp [eq_comm]

theorem exists_edit_eq (s : Shelf) (lines : List String) :
    ∃ draft, (s.edit lines).1 = { s.retireDraft with draft } := by
  unfold edit
  dsimp only
  cases assemble lines with
  | ok draft => exact ⟨draft, rfl⟩
  | error error => exact ⟨s.retireDraft.draft, rfl⟩

theorem pinned_retireDraft (s : Shelf) : s.retireDraft.pinned = false := by
  unfold retireDraft
  split
  · rfl
  · simp_all

theorem kept_empty : empty.Kept where
  placed := by
    intro id place found
    rw [empty, Std.ExtTreeMap.getElem?_empty] at found
    cases found
  archived := by simp [empty]
  drafted := by simp [empty]

theorem Kept.retireDraft (h : s.Kept) : s.retireDraft.Kept := by
  unfold Shelf.retireDraft
  split
  · next pinned =>
    refine ⟨?_, ?_, nofun⟩
    · intro id place found
      have := h.placed id place found
      simp only [Array.size_push]
      omega
    · intro m member
      rcases Array.mem_push.mp member with member | rfl
      · exact h.archived m member
      · exact h.drafted pinned
  · next free => exact ⟨h.placed, h.archived, fun pinned => absurd pinned free⟩

theorem Kept.edit (h : s.Kept) (lines : List String) : (s.edit lines).1.Kept := by
  obtain ⟨draft, same⟩ := exists_edit_eq s lines
  have kept := h.retireDraft
  have free := s.pinned_retireDraft
  rw [same]
  refine ⟨kept.placed, kept.archived, ?_⟩
  intro pinned
  rw [free] at pinned
  cases pinned

theorem Kept.assign (h : s.Kept) {id : WorkerId} (given : s.assign id = .ok t) : t.Kept := by
  obtain ⟨code, rfl⟩ := assign_eq_ok_iff.mp given
  refine ⟨?_, h.archived, fun _ => code⟩
  intro other place found
  simp only [Std.ExtTreeMap.getElem?_insert] at found
  split at found
  · cases found
    exact .inr ⟨rfl, rfl⟩
  · rcases h.placed other place found with inside | ⟨-, next⟩
    · exact .inl inside
    · exact .inr ⟨rfl, next⟩

theorem Kept.unassign (h : s.Kept) (id : WorkerId) : (s.unassign id).1.Kept := by
  refine ⟨?_, h.archived, h.drafted⟩
  intro other place found
  simp only [Shelf.unassign, Std.ExtTreeMap.getElem?_erase] at found
  split at found
  · cases found
  · exact h.placed other place found

theorem Kept.perform (h : s.Kept) (a : Action) : (s.perform a).Kept := by
  cases a with
  | edit lines => exact h.edit lines
  | assign id =>
    unfold Shelf.perform
    dsimp only
    split
    · next given => exact h.assign given
    · exact h
  | unassign id => exact h.unassign id

theorem programFor_eq_ok_iff {id : WorkerId} {m : MachineCode} :
    s.programFor id = .ok m ↔
      ∃ place, s.assignments[id]? = some place ∧ s.archive.getD place s.draft = m := by
  unfold programFor
  cases s.assignments[id]? <;> simp

theorem programFor_eq_error {id : WorkerId} {error : ShelfError}
    (h : s.programFor id = .error error) : error = .unknownWorker id := by
  unfold programFor at h
  split at h
  · cases h
  · exact (Except.error.inj h).symm

theorem Kept.isEmpty_eq_false (h : s.Kept) {id : WorkerId} {m : MachineCode}
    (has : s.programFor id = .ok m) : m.isEmpty = false := by
  obtain ⟨place, found, rfl⟩ := programFor_eq_ok_iff.mp has
  rcases h.placed id place found with inside | ⟨pinned, rfl⟩
  · rw [Array.getD, dif_pos inside]
    exact h.archived _ (Array.getElem_mem inside)
  · rw [Array.getD, dif_neg (Nat.lt_irrefl _)]
    exact h.drafted pinned

theorem assignments_retireDraft (s : Shelf) : s.retireDraft.assignments = s.assignments := by
  unfold retireDraft
  split <;> rfl

/-- A pinned draft moves to the place where the workers that were given it look for it. -/
theorem Kept.getD_retireDraft (h : s.Kept) {id : WorkerId} {place : Nat}
    (found : s.assignments[id]? = some place) (draft : MachineCode) :
    s.retireDraft.archive.getD place draft = s.archive.getD place s.draft := by
  unfold Shelf.retireDraft
  by_cases pinned : s.pinned = true
  · simp only [pinned, if_true]
    rcases h.placed id place found with inside | ⟨-, rfl⟩
    · have also : place < s.archive.size + 1 := Nat.lt_succ_of_lt inside
      simp [Array.getD, inside, also, Array.getElem_push_lt]
    · simp [Array.getD]
  · rcases h.placed id place found with inside | ⟨held, -⟩
    · simp [pinned, Array.getD, inside]
    · exact absurd held pinned

theorem Kept.programFor_edit (h : s.Kept) (lines : List String) (id : WorkerId) :
    (s.edit lines).1.programFor id = s.programFor id := by
  obtain ⟨draft, same⟩ := exists_edit_eq s lines
  rw [same]
  unfold programFor
  dsimp only
  rw [assignments_retireDraft]
  cases found : s.assignments[id]? with
  | none => rfl
  | some place =>
    dsimp only
    rw [h.getD_retireDraft found]

theorem programFor_assign {id : WorkerId} (given : s.assign id = .ok t) (other : WorkerId) :
    t.programFor other = if other = id then .ok s.draft else s.programFor other := by
  obtain ⟨-, rfl⟩ := assign_eq_ok_iff.mp given
  unfold programFor
  dsimp only
  rw [Std.ExtTreeMap.getElem?_insert]
  by_cases same : other = id
  · subst same
    simp [Array.getD]
  · simp [same, Ne.symm same]

theorem programFor_unassign (s : Shelf) (id other : WorkerId) :
    (s.unassign id).1.programFor other =
      if other = id then .error (.unknownWorker other) else s.programFor other := by
  unfold programFor unassign
  dsimp only
  rw [Std.ExtTreeMap.getElem?_erase]
  by_cases same : other = id
  · subst same
    simp
  · simp [same, Ne.symm same]

end Steps

/-- An action that gives the draft to a worker. -/
def Gives (s : Shelf) (id : WorkerId) (a : Action) : Prop :=
  a = .assign id ∧ ∃ t, s.assign id = .ok t

theorem Kept.programFor_perform {s : Shelf} (h : s.Kept) {a : Action} {id : WorkerId}
    {m : MachineCode} :
    (s.perform a).programFor id = .ok m ↔
      s.Gives id a ∧ s.draft = m ∨
        ¬s.Gives id a ∧ a ≠ .unassign id ∧ s.programFor id = .ok m := by
  cases a with
  | edit lines => simp [Shelf.perform, Gives, h.programFor_edit]
  | assign other =>
    unfold Shelf.perform
    dsimp only
    split
    · next t given =>
      rw [programFor_assign given]
      by_cases same : id = other
      · subst same
        simp [Gives, given]
      · simp [Gives, same, Ne.symm same]
    · next refused =>
      have kept : ¬s.Gives id (.assign other) := by
        rintro ⟨same, t, given⟩
        cases same
        rw [refused] at given
        cases given
      simp [kept]
  | unassign other =>
    rw [Shelf.perform, programFor_unassign]
    by_cases same : id = other
    · simp [Gives, same]
    · simp [Gives, same, Ne.symm same]

section History

variable {actions : List Action} {id : WorkerId} {m : MachineCode}

theorem after_concat (actions : List Action) (a : Action) :
    after (actions ++ [a]) = (after actions).perform a := by
  rw [after, List.foldl_append]
  rfl

theorem kept_after (actions : List Action) : (after actions).Kept := by
  induction actions using List.reverseRecOn with
  | nil => exact kept_empty
  | append_singleton actions a ih =>
    rw [after_concat]
    exact ih.perform a

/-- The draft was given to the worker by the action at some time, when it was `m`, and none of the
actions after that gave the worker a draft or took its program away. -/
def LastGiven (actions : List Action) (id : WorkerId) (m : MachineCode) : Prop :=
  ∃ (time : Nat) (given : Action), actions[time]? = some given ∧
    (after (actions.take time)).Gives id given ∧ (after (actions.take time)).draft = m ∧
    ∀ (later : Nat) (a : Action), time < later → actions[later]? = some a →
      ¬(after (actions.take later)).Gives id a ∧ a ≠ .unassign id

theorem lastGiven_concat {a : Action} :
    LastGiven (actions ++ [a]) id m ↔
      (after actions).Gives id a ∧ (after actions).draft = m ∨
        ¬(after actions).Gives id a ∧ a ≠ .unassign id ∧ LastGiven actions id m := by
  have earlier {time : Nat} (h : time < actions.length) :
      (actions ++ [a])[time]? = actions[time]? ∧
        (actions ++ [a]).take time = actions.take time :=
    ⟨List.getElem?_append_left h, List.take_append_of_le_length (Nat.le_of_lt h)⟩
  have last : (actions ++ [a])[actions.length]? = some a ∧
      (actions ++ [a]).take actions.length = actions :=
    ⟨List.getElem?_concat_length, List.take_left⟩
  constructor
  · rintro ⟨time, given, found, gives, draft, none⟩
    have bound : time < actions.length + 1 := by
      simpa using (List.getElem?_eq_some_iff.mp found).1
    rcases Nat.lt_succ_iff_lt_or_eq.mp bound with inside | rfl
    · rw [(earlier inside).1] at found
      rw [(earlier inside).2] at gives draft
      have now := none actions.length a inside last.1
      rw [last.2] at now
      refine .inr ⟨now.1, now.2, time, given, found, gives, draft, ?_⟩
      intro later b less happened
      have inside := (List.getElem?_eq_some_iff.mp happened).1
      have := none later b less ((earlier inside).1.trans happened)
      rwa [(earlier inside).2] at this
    · rw [last.1] at found
      cases found
      rw [last.2] at gives draft
      exact .inl ⟨gives, draft⟩
  · rintro (⟨gives, draft⟩ | ⟨quiet, kept, time, given, found, gives, draft, none⟩)
    · refine ⟨actions.length, a, last.1, by rwa [last.2], by rwa [last.2], ?_⟩
      intro later b less happened
      have := (List.getElem?_eq_some_iff.mp happened).1
      simp at this
      omega
    · have inside := (List.getElem?_eq_some_iff.mp found).1
      refine ⟨time, given, (earlier inside).1.trans found, ?_, ?_, ?_⟩
      · rwa [(earlier inside).2]
      · rwa [(earlier inside).2]
      · intro later b less happened
        have bound : later < actions.length + 1 := by
          simpa using (List.getElem?_eq_some_iff.mp happened).1
        rcases Nat.lt_succ_iff_lt_or_eq.mp bound with before | rfl
        · rw [(earlier before).2]
          exact none later b less ((earlier before).1.symm.trans happened)
        · rw [last.1] at happened
          cases happened
          rw [last.2]
          exact ⟨quiet, kept⟩

theorem programFor_after_eq_ok_iff (actions : List Action) :
    (after actions).programFor id = .ok m ↔ LastGiven actions id m := by
  induction actions using List.reverseRecOn with
  | nil => simp [after, LastGiven, programFor, empty]
  | append_singleton actions a ih =>
    rw [after_concat, (kept_after actions).programFor_perform, ih, lastGiven_concat]

/-- After every sequence of actions a worker has the program that was the draft when it was last
given one, and none if there was none or it was taken away since. What a worker has is never empty,
and no edit changes it, whether its lines are accepted or not. -/
theorem programFor_after (actions : List Action) (id : WorkerId) :
    (∀ m, (after actions).programFor id = .ok m ↔ LastGiven actions id m) ∧
      ((¬∃ m, LastGiven actions id m) →
        (after actions).programFor id = .error (.unknownWorker id)) ∧
      (∀ m, (after actions).programFor id = .ok m → m.isEmpty = false) ∧
      ∀ lines, ((after actions).edit lines).1.programFor id = (after actions).programFor id := by
  have kept := kept_after actions
  refine ⟨fun m => programFor_after_eq_ok_iff actions, ?_, fun m => kept.isEmpty_eq_false,
    fun lines => kept.programFor_edit lines id⟩
  intro never
  cases answer : (after actions).programFor id with
  | ok m => exact absurd ⟨m, (programFor_after_eq_ok_iff actions).mp answer⟩ never
  | error error => rw [programFor_eq_error answer]

/-- A worker is given a program, and the next edit is rejected before another worker asks. -/
def rejectedEdit : List Action :=
  [.edit ["MOVE"], .assign 0, .edit ["FLY"], .assign 1]

theorem programFor_after_rejectedEdit :
    (after rejectedEdit).programFor 0 = .ok ⟨[0x08], .empty⟩ ∧
      LastGiven rejectedEdit 0 ⟨[0x08], .empty⟩ ∧
      MachineCode.isEmpty ⟨[0x08], .empty⟩ = false ∧
      (¬∃ m, LastGiven rejectedEdit 1 m) ∧
      (after rejectedEdit).programFor 1 = .error (.unknownWorker 1) ∧
      ((after rejectedEdit).edit ["DIG"]).1.programFor 0 = .ok ⟨[0x08], .empty⟩ := by
  obtain ⟨given, -, code, frame⟩ := programFor_after rejectedEdit 0
  obtain ⟨other, none, -, -⟩ := programFor_after rejectedEdit 1
  have has : (after rejectedEdit).programFor 0 = .ok ⟨[0x08], .empty⟩ := by decide +kernel
  have lacks : (after rejectedEdit).programFor 1 = .error (.unknownWorker 1) := by decide +kernel
  have never : ¬∃ m, LastGiven rejectedEdit 1 m := by
    rintro ⟨m, gift⟩
    have has := (other m).mpr gift
    rw [lacks] at has
    cases has
  exact ⟨has, (given _).mp has, code _ has, never, none never, (frame _).trans has⟩

end History

end Shelf

end Formicary
