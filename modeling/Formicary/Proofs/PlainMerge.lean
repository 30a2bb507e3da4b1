import Formicary.Proofs.BlobRoundTrip
import Formicary.Proofs.Listing

/-!
# A listing is a plain merge

The lines of a program and those of its labels can be put together in two ways. They may be merged
in the order of steps, or the labels may be spliced into the lines of the program at the places of
their steps, the highest step first and the last name of a step first, so that no place moves before
it is used. Both give the listing.
-/

namespace Formicary

open Text

section Splicing

/-- Puts the lines of labels at a place, the last one first. -/
def splice (place : Nat) (names lines : List String) : List String :=
  names.reverse.foldl (fun lines name => lines.insertIdx place (name ++ ":")) lines

/-- Puts the lines of the labels of some steps at the places of these steps, one step after the
other; stops at a step beyond the end of the program. -/
def LabelTable.spliceAll (t : LabelTable) (count : Nat) :
    List UInt16 → List String → Except CodeError (List String)
  | [], lines => .ok lines
  | step :: steps, lines =>
    let names := t.namesAt step
    if count < step.toNat then
      .error (.labelOutOfRange (names.head?.getD "") step.toNat count)
    else
      t.spliceAll count steps (splice step.toNat names lines)

/-- The listing of a program with its labels spliced in, from the highest step down. -/
def MachineCode.splicedListing (m : MachineCode) : Except CodeError (List String) :=
  match instructions m.code with
  | .error error => .error error
  | .ok steps =>
    m.labels.spliceAll steps.length m.labels.stepsDescending
      (steps.map (·.toLine m.labels.nameAt?))

theorem splice_nil (place : Nat) (lines : List String) : splice place [] lines = lines :=
  rfl

theorem splice_cons (place : Nat) (name : String) (names lines : List String) :
    splice place (name :: names) lines =
      (splice place names lines).insertIdx place (name ++ ":") := by
  unfold splice
  rw [List.reverse_cons, List.foldl_append]
  rfl

theorem insertIdx_length_append (front back : List String) (line : String) :
    (front ++ back).insertIdx front.length line = front ++ line :: back := by
  induction front with
  | nil => rfl
  | cons first front ih => simp [ih]

/-- Lines put at one place, the last first, stand there in order. -/
theorem splice_append (front back names : List String) :
    splice front.length names (front ++ back) = front ++ (names.map (· ++ ":") ++ back) := by
  induction names with
  | nil => rfl
  | cons name names ih =>
    rw [splice_cons, ih, insertIdx_length_append]
    rfl

end Splicing

theorem pairwise_reverse_keys {β : Type} (index : Std.ExtTreeMap UInt16 β) :
    index.keys.reverse.Pairwise (· > ·) := by
  rw [List.pairwise_reverse]
  refine Std.ExtTreeMap.ordered_keys.imp ?_
  intro a b less
  exact Std.compare_eq_lt.mp less

namespace LabelTable

variable {t : LabelTable} {lines : List String}

/-- The lines of a program with the label lines from a step on. -/
def wovenFrom (t : LabelTable) (lines : List String) (step : Nat) : List String :=
  lines.take step ++ weave t.byStep step (lines.drop step)

/-- No label names a step after the one after the last. -/
def Within (t : LabelTable) (count : Nat) : Prop :=
  ∀ name step, t.stepOf? name = some step → step.toNat ≤ count

theorem within_iff {count : Nat} :
    t.Within count ↔ ∀ label ∈ t.entries, label.2.toNat ≤ count := by
  unfold Within
  simp only [← mem_entries, Prod.forall]

theorem not_within_iff {count : Nat} :
    ¬t.Within count ↔ ∃ label ∈ t.entries, count < label.2.toNat := by
  rw [within_iff]
  simp only [not_forall, Nat.not_le, exists_prop]

theorem namesBefore_eq_nil {step : Nat}
    (free : ∀ name s, t.stepOf? name = some s → s.toNat ≠ step) : t.namesBefore step = [] := by
  rw [List.eq_nil_iff_forall_not_mem]
  intro name member
  obtain ⟨s, named, same⟩ := mem_namesBefore.mp member
  exact free name s named same

theorem Within.namesBefore_succ {count : Nat} (within : t.Within count) :
    t.namesBefore (count + 1) = [] := by
  apply namesBefore_eq_nil
  intro name s named
  have := within name s named
  omega

theorem namesBefore_toNat (t : LabelTable) (step : UInt16) :
    t.namesBefore step.toNat = t.namesAt step := by
  unfold namesBefore
  rw [if_pos step.toNat_lt]
  simp

/-- The lines of the labels of one more step are put at the place of that step. -/
theorem splice_wovenFrom (within : t.Within lines.length) {step : Nat}
    (le : step ≤ lines.length) :
    splice step (t.namesBefore step) (t.wovenFrom lines (step + 1)) = t.wovenFrom lines step := by
  have place : (lines.take step).length = step := List.length_take_of_le le
  unfold wovenFrom
  by_cases last : step = lines.length
  · subst last
    rw [List.drop_eq_nil_of_le (Nat.le_succ _), List.drop_length, weave, weave,
      t.labelLines_byStep, t.labelLines_byStep, within.namesBefore_succ,
      List.take_of_length_le (Nat.le_succ _), List.take_length]
    have spliced := splice_append lines [] (t.namesBefore lines.length)
    simpa using spliced
  · have lt : step < lines.length := by omega
    rw [List.drop_eq_getElem_cons lt, weave, t.labelLines_byStep, ← List.take_append_getElem lt,
      List.append_assoc]
    have spliced := splice_append (lines.take step)
      ([lines[step]] ++ weave t.byStep (step + 1) (lines.drop (step + 1))) (t.namesBefore step)
    rw [place] at spliced
    exact spliced

/-- Steps without labels make no difference. -/
theorem wovenFrom_of_unlabelled (within : t.Within lines.length) {low high : Nat} (le : low ≤ high)
    (inside : high ≤ lines.length + 1)
    (free : ∀ name s, t.stepOf? name = some s → low ≤ s.toNat → high ≤ s.toNat) :
    t.wovenFrom lines high = t.wovenFrom lines low := by
  induction le with
  | refl => rfl
  | @step high le ih =>
    have le : low ≤ high := le
    have none : t.namesBefore high = [] := by
      apply namesBefore_eq_nil
      intro name s named same
      have := free name s named (by omega)
      omega
    have last := splice_wovenFrom within (show high ≤ lines.length by omega)
    rw [none, splice_nil] at last
    rw [last, ih (by omega)]
    intro name s named above
    have := free name s named above
    omega

/-- Beyond the end there is nothing to merge. -/
theorem wovenFrom_succ_length (within : t.Within lines.length) :
    t.wovenFrom lines (lines.length + 1) = lines := by
  unfold wovenFrom
  rw [List.take_of_length_le (Nat.le_succ _), List.drop_eq_nil_of_le (Nat.le_succ _), weave,
    t.labelLines_byStep, within.namesBefore_succ, List.map_nil, List.append_nil]

/-- Splicing goes down through the steps. Before it comes to the steps below `high`, the lines from
`high` on have their labels; the steps left are the labelled ones below. -/
theorem spliceAll_eq_ok (within : t.Within lines.length) {steps : List UInt16} {high : Nat}
    (inside : high ≤ lines.length + 1) (descending : steps.Pairwise (· > ·))
    (below : ∀ step ∈ steps, step.toNat < high)
    (all : ∀ name step, t.stepOf? name = some step → step.toNat < high → step ∈ steps) :
    t.spliceAll lines.length steps (t.wovenFrom lines high) = .ok (weave t.byStep 0 lines) := by
  induction steps generalizing high with
  | nil =>
    have whole : t.wovenFrom lines high = t.wovenFrom lines 0 := by
      apply wovenFrom_of_unlabelled within (Nat.zero_le _) inside
      intro name s named _
      by_contra lower
      exact List.not_mem_nil (all name s named (by omega))
    rw [whole]
    rfl
  | cons step steps ih =>
    obtain ⟨highest, descending⟩ := List.pairwise_cons.mp descending
    obtain ⟨first, below⟩ := List.forall_mem_cons.mp below
    have skipped : t.wovenFrom lines high = t.wovenFrom lines (step.toNat + 1) := by
      apply wovenFrom_of_unlabelled within first inside
      intro name s named above
      by_contra lower
      rcases List.mem_cons.mp (all name s named (by omega)) with rfl | later
      · omega
      · have := UInt16.lt_iff_toNat_lt.mp (highest s later)
        omega
    rw [spliceAll, if_neg (by omega), skipped, ← t.namesBefore_toNat,
      splice_wovenFrom within (by omega)]
    apply ih (by omega) descending
    · intro s later
      exact UInt16.lt_iff_toNat_lt.mp (highest s later)
    · intro name s named lower
      rcases List.mem_cons.mp (all name s named (by omega)) with rfl | later
      · omega
      · exact later

theorem mem_stepsDescending {step : UInt16} :
    step ∈ t.stepsDescending ↔ ∃ name, t.stepOf? name = some step := by
  unfold stepsDescending
  rw [List.mem_reverse, Std.ExtTreeMap.mem_keys, mem_byStep]

theorem pairwise_stepsDescending (t : LabelTable) : t.stepsDescending.Pairwise (· > ·) :=
  pairwise_reverse_keys t.byStep

theorem head?_stepsDescending (t : LabelTable) : t.stepsDescending.head? = t.byStep.maxKey? := by
  unfold stepsDescending
  rw [List.head?_reverse, Std.ExtTreeMap.maxKey?_eq_getLast?_keys]

section Highest

variable {first : String} {step : UInt16} {count : Nat}

/-- The first label of a step is one of its labels, and no other of them comes before it. -/
theorem first_of_nameAt? (named : t.nameAt? step = some first) :
    (first, step) ∈ t.entries ∧
      ∀ name, (name, step) ∈ t.entries → name = first ∨ toBytes first < toBytes name := by
  have ascending : (t.namesAt step).Pairwise fun a b => toBytes a < toBytes b := by
    rw [namesAt_eq, List.pairwise_map]
    exact t.pairwise_entries.sublist List.filter_sublist
  obtain ⟨others, names⟩ := List.head?_eq_some_iff.mp named
  refine ⟨mem_entries.mpr (stepOf?_of_nameAt? named), ?_⟩
  intro name entry
  have member := mem_namesAt.mpr (mem_entries.mp entry)
  rw [names] at member ascending
  rcases List.mem_cons.mp member with rfl | later
  · exact .inl rfl
  · exact .inr ((List.pairwise_cons.mp ascending).1 name later)

/-- Labelled steps come from the highest down. -/
theorem le_highest {name : String} {last : UInt16} {lower : List UInt16}
    (highest : t.stepsDescending = last :: lower) (named : t.stepOf? name = some step) :
    step ≤ last := by
  have labelled := mem_stepsDescending.mpr ⟨name, named⟩
  have descending := t.pairwise_stepsDescending
  rw [highest] at labelled descending
  rcases List.mem_cons.mp labelled with rfl | later
  · exact UInt16.le_refl _
  · exact UInt16.le_of_lt ((List.pairwise_cons.mp descending).1 step later)

/-- Where a label lies beyond the end, the highest labelled step does. -/
theorem exists_highest_of_not_within (beyond : ¬t.Within count) :
    ∃ first last lower, t.stepsDescending = last :: lower ∧ count < last.toNat ∧
      t.nameAt? last = some first := by
  obtain ⟨⟨name, step⟩, entry, far⟩ := not_within_iff.mp beyond
  have named := mem_entries.mp entry
  cases steps : t.stepsDescending with
  | nil =>
    have labelled := mem_stepsDescending.mpr ⟨name, named⟩
    rw [steps] at labelled
    cases labelled
  | cons last lower =>
    have le := UInt16.le_iff_toNat_le.mp (le_highest steps named)
    obtain ⟨other, found⟩ := mem_stepsDescending.mp (steps ▸ List.mem_cons_self)
    have member := mem_namesAt.mpr found
    unfold nameAt?
    cases names : t.namesAt last with
    | nil =>
      rw [names] at member
      cases member
    | cons first others =>
      exact ⟨first, last, lower, rfl, Nat.lt_of_lt_of_le far le, congrArg List.head? names⟩

end Highest

end LabelTable

namespace MachineCode

variable {m : MachineCode} {steps : List Instruction}

/-- Code with a label beyond its end has no listing. -/
theorem listing_of_highest (read : instructions m.code = .ok steps) {first : String}
    {last : UInt16} {lower : List UInt16} (highest : m.labels.stepsDescending = last :: lower)
    (beyond : steps.length < last.toNat) (named : m.labels.nameAt? last = some first) :
    m.listing = .error (.labelOutOfRange first last.toNat steps.length) := by
  have greatest : m.labels.byStep.maxKey? = some last := by
    rw [← m.labels.head?_stepsDescending, highest]
    rfl
  unfold LabelTable.nameAt? LabelTable.namesAt at named
  simp only [listing, read, greatest, if_pos beyond, named]
  rfl

/-- The error about a label beyond the end. -/
theorem listing_of_not_within (read : instructions m.code = .ok steps)
    (beyond : ¬m.labels.Within steps.length) :
    ∃ first last, m.listing = .error (.labelOutOfRange first last.toNat steps.length) ∧
      (first, last) ∈ m.labels.entries ∧ (∀ label ∈ m.labels.entries, label.2 ≤ last) ∧
      ∀ name, (name, last) ∈ m.labels.entries → name = first ∨ toBytes first < toBytes name := by
  obtain ⟨first, last, lower, highest, far, named⟩ :=
    LabelTable.exists_highest_of_not_within beyond
  obtain ⟨entry, least⟩ := LabelTable.first_of_nameAt? named
  refine ⟨first, last, listing_of_highest read highest far named, entry, ?_, least⟩
  intro label member
  exact LabelTable.le_highest highest (LabelTable.mem_entries.mp member)

/-- Splicing the labels in from the highest step down gives the listing. -/
theorem splicedListing_eq (m : MachineCode) : m.splicedListing = m.listing := by
  unfold splicedListing
  cases read : instructions m.code with
  | error e => simp only [listing, read]
  | ok steps =>
    have count : (steps.map (·.toLine m.labels.nameAt?)).length = steps.length := List.length_map ..
    by_cases within : m.labels.Within steps.length
    · rw [listing_eq_ok_iff.mpr ⟨steps, read, within, rfl⟩]
      rw [← count] at within
      have spliced := LabelTable.spliceAll_eq_ok within (Nat.le_refl _)
        m.labels.pairwise_stepsDescending
        (by
          intro step member
          obtain ⟨name, named⟩ := LabelTable.mem_stepsDescending.mp member
          exact Nat.lt_succ_of_le (within name step named))
        (by
          intro name step named _
          exact LabelTable.mem_stepsDescending.mpr ⟨name, named⟩)
      rw [LabelTable.wovenFrom_succ_length within, count] at spliced
      exact spliced
    · obtain ⟨first, last, lower, highest, beyond, named⟩ :=
        LabelTable.exists_highest_of_not_within within
      rw [listing_of_highest read highest beyond named, highest]
      unfold LabelTable.nameAt? at named
      simp only [LabelTable.spliceAll, if_pos beyond, named]
      rfl

end MachineCode

section Merging

variable {m : MachineCode} {steps : List Instruction}

/-- The lines of labels and steps in the order of steps, the labels of a step before it and in the
order of names, and the labels of the end after the last step. -/
def MachineCode.plainMerge (m : MachineCode) (steps : List Instruction) : List String :=
  (List.range (steps.length + 1)).flatMap fun k =>
    (m.labels.entries.filter (·.2.toNat = k)).map (·.1 ++ ":") ++
      (steps[k]?.map (·.toLine m.labels.nameAt?)).toList

theorem LabelTable.namesBefore_eq (t : LabelTable) (step : Nat) :
    t.namesBefore step = (t.entries.filter (·.2.toNat = step)).map Prod.fst := by
  unfold namesBefore
  split
  · next small =>
    have same (s : UInt16) : s = step.toUInt16 ↔ s.toNat = step := by
      rw [← UInt16.toNat_inj]
      simp [Nat.mod_eq_of_lt small]
    rw [namesAt_eq]
    simp only [same]
  · next large =>
    rw [List.filter_eq_nil_iff.mpr, List.map_nil]
    rintro ⟨name, s⟩ _
    have small : s.toNat < UInt16.size := s.toNat_lt
    simp only [decide_eq_true_eq]
    omega

/-- Weaving is merging, step by step. -/
theorem weave_eq_flatMap (t : LabelTable) (step : Nat) (lines : List String) :
    weave t.byStep step lines =
      (List.range' step (lines.length + 1)).flatMap fun k =>
        (t.namesBefore k).map (· ++ ":") ++ lines[k - step]?.toList := by
  induction lines generalizing step with
  | nil => simp [weave, t.labelLines_byStep]
  | cons line lines ih =>
    rw [weave, t.labelLines_byStep, ih, List.length_cons,
      List.range'_succ (n := lines.length + 1), List.flatMap_cons, Nat.sub_self,
      List.getElem?_cons_zero, Option.toList_some, List.append_assoc, List.singleton_append]
    congr 2
    apply List.flatMap_congr
    intro k member
    -- a later step is one place further on in the longer list
    have later : k - step = k - (step + 1) + 1 := by
      have := List.mem_range'_1.mp member
      omega
    rw [later, List.getElem?_cons_succ]

theorem length_weave (t : LabelTable) (step : Nat) (lines : List String) :
    (weave t.byStep step lines).length =
      lines.length + ((List.range' step (lines.length + 1)).flatMap t.namesBefore).length := by
  induction lines generalizing step with
  | nil => simp [weave, t.labelLines_byStep]
  | cons line lines ih =>
    rw [weave, List.length_append, List.length_cons, ih, t.labelLines_byStep, List.length_map,
      List.length_cons, List.range'_succ (n := lines.length + 1), List.flatMap_cons,
      List.length_append]
    omega

/-- Every label stands before exactly one step. -/
theorem LabelTable.Within.perm {t : LabelTable} {count : Nat} (within : t.Within count) :
    ((List.range' 0 (count + 1)).flatMap t.namesBefore).Perm (t.entries.map Prod.fst) := by
  rw [List.perm_ext_iff_of_nodup (nodup_flatMap_namesBefore t 0 _) t.nodup_entries]
  intro name
  rw [mem_flatMap_namesBefore]
  constructor
  · rintro ⟨step, named, -⟩
    exact List.mem_map.mpr ⟨_, LabelTable.mem_entries.mpr named, rfl⟩
  · intro member
    obtain ⟨⟨same, step⟩, entry, rfl⟩ := List.mem_map.mp member
    have named := LabelTable.mem_entries.mp entry
    exact ⟨step, named, Nat.lt_succ_of_le (within _ step named)⟩

namespace MachineCode

theorem weave_eq_plainMerge (m : MachineCode) (steps : List Instruction) :
    weave m.labels.byStep 0 (steps.map (·.toLine m.labels.nameAt?)) = m.plainMerge steps := by
  unfold plainMerge
  rw [weave_eq_flatMap, List.length_map, List.range_eq_range']
  simp only [LabelTable.namesBefore_eq, List.map_map, Nat.sub_zero, List.getElem?_map]
  rfl

theorem length_plainMerge (within : m.labels.Within steps.length) :
    (m.plainMerge steps).length = steps.length + m.labels.size := by
  rw [← weave_eq_plainMerge, length_weave, List.length_map, within.perm.length_eq, List.length_map,
    m.labels.length_entries]

/-- A program has a listing exactly when its code can be read to the end and no label lies beyond
it, and the listing is the plain merge of labels and steps: each label has one line, before the step
it names and after the labels of this step with smaller names. The error about a label beyond the
end names the highest labelled step and the first label there. Splicing the labels into the lines
gives the same in all cases. -/
theorem listing_eq_plainMerge (m : MachineCode) :
    m.splicedListing = m.listing ∧
    (m.labels.entries.Pairwise fun a b => toBytes a.1 < toBytes b.1) ∧
    (∀ error, instructions m.code = .error error → m.listing = .error error) ∧
    ∀ steps, instructions m.code = .ok steps →
      ((∃ name step count, m.listing = .error (.labelOutOfRange name step count)) ↔
        ∃ label ∈ m.labels.entries, steps.length < label.2.toNat) ∧
      (∀ error, m.listing = .error error → ∃ first last,
        error = .labelOutOfRange first last.toNat steps.length ∧
        (first, last) ∈ m.labels.entries ∧ (∀ label ∈ m.labels.entries, label.2 ≤ last) ∧
        ∀ name, (name, last) ∈ m.labels.entries → name = first ∨ toBytes first < toBytes name) ∧
      ((∀ label ∈ m.labels.entries, label.2.toNat ≤ steps.length) →
        m.listing = .ok (m.plainMerge steps) ∧
        (m.plainMerge steps).length = steps.length + m.labels.size ∧
        ((List.range (steps.length + 1)).flatMap fun k =>
          (m.labels.entries.filter (·.2.toNat = k)).map Prod.fst).Perm
            (m.labels.entries.map Prod.fst)) := by
  refine ⟨m.splicedListing_eq, m.labels.pairwise_entries, ?_, ?_⟩
  · intro error fails
    simp only [listing, fails]
  intro steps read
  have merged (within : m.labels.Within steps.length) : m.listing = .ok (m.plainMerge steps) :=
    listing_eq_ok_iff.mpr ⟨steps, read, within, (m.weave_eq_plainMerge steps).symm⟩
  have refused (beyond : ¬m.labels.Within steps.length) := listing_of_not_within read beyond
  refine ⟨⟨?_, ?_⟩, ?_, ?_⟩
  · intro fails
    obtain ⟨name, step, count, fails⟩ := fails
    rw [← LabelTable.not_within_iff]
    intro within
    cases fails.symm.trans (merged within)
  · intro beyond
    obtain ⟨first, last, fails, -⟩ := refused (LabelTable.not_within_iff.mpr beyond)
    exact ⟨first, last.toNat, steps.length, fails⟩
  · intro error fails
    by_cases within : m.labels.Within steps.length
    · cases fails.symm.trans (merged within)
    · obtain ⟨first, last, same, facts⟩ := refused within
      cases fails.symm.trans same
      exact ⟨first, last, rfl, facts⟩
  · intro inside
    have within := LabelTable.within_iff.mpr inside
    have once := within.perm
    rw [← List.range_eq_range', funext m.labels.namesBefore_eq] at once
    exact ⟨merged within, length_plainMerge within, once⟩

/-- Two steps, with two labels at the first one and one behind the last. -/
def sharedStep : MachineCode :=
  ⟨[⟨.nop, .bare⟩, ⟨.jmp, .target 0⟩].flatMap Instruction.encode,
    (((LabelTable.empty.insert? "b" 0).bind (·.insert? "a" 0)).bind
      (·.insert? "end" 2)).getD .empty⟩

theorem listing_eq_plainMerge_sharedStep :
    instructions sharedStep.code = .ok [⟨.nop, .bare⟩, ⟨.jmp, .target 0⟩] ∧
      sharedStep.labels.entries = [("a", 0), ("b", 0), ("end", 2)] ∧
      sharedStep.listing = .ok ["a:", "b:", "NOP", "JMP a", "end:"] ∧
      sharedStep.splicedListing = .ok ["a:", "b:", "NOP", "JMP a", "end:"] := by
  have read : instructions sharedStep.code = .ok [⟨.nop, .bare⟩, ⟨.jmp, .target 0⟩] :=
    instructions_flatMap_encode _
  have entries : sharedStep.labels.entries = [("a", 0), ("b", 0), ("end", 2)] := by decide +kernel
  have named : sharedStep.labels.nameAt? 0 = some "a" := by
    rw [LabelTable.nameAt?, LabelTable.namesAt_eq, entries]
    rfl
  have jump : Instruction.toLine sharedStep.labels.nameAt? ⟨.jmp, .target 0⟩ = "JMP a" := by
    show " ".intercalate ["JMP", (sharedStep.labels.nameAt? 0).getD _] = "JMP a"
    rw [named]
    rfl
  have merged : sharedStep.plainMerge [⟨.nop, .bare⟩, ⟨.jmp, .target 0⟩] =
      ["a:", "b:", "NOP", "JMP a", "end:"] := by
    rw [plainMerge, entries, ← jump]
    rfl
  obtain ⟨spliced, -, -, listed⟩ := listing_eq_plainMerge sharedStep
  have inside : ∀ label ∈ sharedStep.labels.entries, label.2.toNat ≤ 2 := by
    rw [entries]
    decide
  have same := ((listed _ read).2.2 inside).1
  rw [merged] at same
  exact ⟨read, entries, same, spliced.trans same⟩

end MachineCode

end Merging

end Formicary
