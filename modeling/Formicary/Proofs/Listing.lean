import Mathlib.Data.List.Nodup
import Mathlib.Data.List.Pairwise
import Formicary.Proofs.Labels
import Formicary.Proofs.Lines
import Formicary.Proofs.Survey

/-!
# What a listing says

A listing has one line for each step, and before it the lines of the labels that name the step.
Reading it finds the step texts of the step lines and the declarations of the label lines, as long
as no label line is taken for a step.
-/

namespace Formicary

open Text

/-- The labels whose lines stand before a step. -/
def LabelTable.namesBefore (t : LabelTable) (step : Nat) : List String :=
  if step < UInt16.size then t.namesAt step.toUInt16 else []

namespace LabelTable

theorem labelLines_byStep (t : LabelTable) (step : Nat) :
    labelLines t.byStep step = (t.namesBefore step).map (· ++ ":") := by
  unfold labelLines namesBefore namesAt
  split <;> rfl

theorem mem_namesBefore {t : LabelTable} {name : String} {step : Nat} :
    name ∈ t.namesBefore step ↔ ∃ s, t.stepOf? name = some s ∧ s.toNat = step := by
  unfold namesBefore
  split
  · next small =>
    rw [mem_namesAt]
    constructor
    · intro found
      exact ⟨_, found, by simpa using Nat.mod_eq_of_lt small⟩
    · rintro ⟨s, found, rfl⟩
      simpa using found
  · next large =>
    simp only [List.not_mem_nil, false_iff, not_exists, not_and]
    rintro s - rfl
    exact large s.toNat_lt

theorem nodup_namesBefore (t : LabelTable) (step : Nat) : (t.namesBefore step).Nodup := by
  unfold namesBefore
  split
  · exact t.nodup_namesAt _
  · exact List.nodup_nil

theorem stepOf?_of_nameAt? {t : LabelTable} {step : UInt16} {name : String}
    (h : t.nameAt? step = some name) : t.stepOf? name = some step :=
  mem_namesAt.mp (List.mem_of_mem_head? h)

end LabelTable

section Readable

theorem weave_of_no_labels {index : Std.ExtTreeMap UInt16 (List String)}
    (none : ∀ step, index.getD step [] = []) (step : Nat) (lines : List String) :
    weave index step lines = lines := by
  have before (step : Nat) : labelLines index step = [] := by
    simp [labelLines, none]
  induction lines generalizing step with
  | nil => exact before step
  | cons line lines ih => rw [weave, before, ih, List.nil_append]

/-- Code has a listing when it is readable to its end and no label lies beyond that. -/
theorem listing_eq_ok_iff {m : MachineCode} {lines : List String} :
    m.listing = .ok lines ↔
      ∃ steps, instructions m.code = .ok steps ∧
        (∀ name step, m.labels.stepOf? name = some step → step.toNat ≤ steps.length) ∧
        lines = weave m.labels.byStep 0 (steps.map (·.toLine m.labels.nameAt?)) := by
  unfold MachineCode.listing
  cases read : instructions m.code with
  | error e => simp
  | ok steps =>
    simp only [Except.ok.injEq, exists_eq_left']
    split
    · next empty =>
      have unlabelled : m.labels.byStep = ∅ := Std.ExtTreeMap.maxKey?_eq_none_iff.mp empty
      have inside : ∀ name step, m.labels.stepOf? name = some step → step.toNat ≤ steps.length := by
        intro name step found
        have member := LabelTable.mem_byStep.mpr ⟨name, found⟩
        rw [unlabelled] at member
        exact absurd member Std.ExtTreeMap.not_mem_empty
      have unnamed : ∀ step, m.labels.byStep.getD step [] = [] := by simp [unlabelled]
      rw [weave_of_no_labels unnamed]
      constructor
      · rintro ⟨rfl⟩
        exact ⟨inside, rfl⟩
      · rintro ⟨-, rfl⟩
        rfl
    · next last found =>
      -- Only the greatest labelled step is compared with the length; it bounds the others.
      obtain ⟨member, greatest⟩ :=
        Std.ExtTreeMap.maxKey?_eq_some_iff_mem_and_forall.mp found
      split
      · next beyond =>
        obtain ⟨name, named⟩ := LabelTable.mem_byStep.mp member
        simp only [reduceCtorEq, false_iff, not_and]
        intro inside
        have := inside name last named
        omega
      · next within =>
        have inside : ∀ name step, m.labels.stepOf? name = some step →
            step.toNat ≤ steps.length := by
          intro name step named
          have below := greatest step (LabelTable.mem_byStep.mpr ⟨name, named⟩)
          have := UInt16.le_iff_toNat_le.mp (Std.isLE_compare.mp below)
          omega
        constructor
        · rintro ⟨rfl⟩
          exact ⟨inside, rfl⟩
        · rintro ⟨-, rfl⟩
          rfl

end Readable

/-- The name that the line of a label declares. -/
def declared? (name : String) : Option String :=
  match Statement.ofLine (name ++ ":") with
  | .label word => some (String.ofList word)
  | _ => none

theorem declared?_eq_some_iff {name word : String} :
    declared? name = some word ↔ Statement.ofLine (name ++ ":") = .label word.toList := by
  unfold declared?
  split
  · next found means => simp [means, String.ext_iff]
  · next other =>
    simp only [reduceCtorEq, false_iff]
    exact other word.toList

/-- No line of a label is taken for a step. -/
def LabelTable.Quiet (t : LabelTable) : Prop :=
  ∀ name step, t.stepOf? name = some step → ∀ text, Statement.ofLine (name ++ ":") ≠ .step text

section Weaving

theorem statements_append (front back : List String) :
    statements (front ++ back) = statements front ++ statements back :=
  List.map_append

variable {names : List String}
  (quiet : ∀ name ∈ names, ∀ text, Statement.ofLine (name ++ ":") ≠ .step text)

include quiet in
theorem stepTexts_labelLines : stepTexts (statements (names.map (· ++ ":"))) = [] := by
  induction names with
  | nil => rfl
  | cons name names ih =>
    obtain ⟨first, rest⟩ := List.forall_mem_cons.mp quiet
    rw [List.map_cons, Survey.statements_cons]
    cases means : Statement.ofLine (name ++ ":") with
    | step text => exact absurd means (first text)
    | _ => exact ih rest

include quiet in
theorem declarations_labelLines (count : Nat) :
    declarations count (statements (names.map (· ++ ":"))) =
      (names.filterMap declared?).map (·, count) := by
  induction names with
  | nil => rfl
  | cons name names ih =>
    obtain ⟨first, rest⟩ := List.forall_mem_cons.mp quiet
    rw [List.map_cons, Survey.statements_cons, List.filterMap_cons]
    cases means : Statement.ofLine (name ++ ":") with
    | step text => exact absurd means (first text)
    | blank => simpa [declared?, means, declarations] using ih rest
    | label word => simpa [declared?, means, declarations] using ih rest

variable {t : LabelTable}

theorem quiet_namesBefore (h : t.Quiet) (step : Nat) :
    ∀ name ∈ t.namesBefore step, ∀ text, Statement.ofLine (name ++ ":") ≠ .step text := by
  intro name member
  obtain ⟨s, found, -⟩ := LabelTable.mem_namesBefore.mp member
  exact h name s found

/-- The labels add no steps to a listing. -/
theorem stepTexts_weave (h : t.Quiet) (step : Nat) (lines : List String) :
    stepTexts (statements (weave t.byStep step lines)) = stepTexts (statements lines) := by
  have before (step : Nat) : stepTexts (statements (labelLines t.byStep step)) = [] := by
    rw [t.labelLines_byStep]
    exact stepTexts_labelLines (quiet_namesBefore h step)
  induction lines generalizing step with
  | nil => exact before step
  | cons line lines ih =>
    rw [weave, statements_append, stepTexts_append, before, List.nil_append,
      Survey.statements_cons, Survey.statements_cons]
    cases Statement.ofLine line with
    | step text => simp only [stepTexts, ih]
    | _ => simp only [stepTexts, ih]

/-- Each label of a listing is declared at the step it names. -/
theorem declarations_weave (h : t.Quiet) (step : Nat) {lines : List String}
    (steps : ∀ line ∈ lines, ∃ text, Statement.ofLine line = .step text) :
    declarations step (statements (weave t.byStep step lines)) =
      (List.range' step (lines.length + 1)).flatMap fun k =>
        ((t.namesBefore k).filterMap declared?).map (·, k) := by
  induction lines generalizing step with
  | nil =>
    rw [weave, t.labelLines_byStep, declarations_labelLines (quiet_namesBefore h step)]
    simp
  | cons line lines ih =>
    obtain ⟨⟨text, first⟩, rest⟩ := List.forall_mem_cons.mp steps
    -- The lines of labels hold no steps, so the count moves on by the one step of `line`.
    have none := stepTexts_labelLines (quiet_namesBefore h step)
    rw [weave, t.labelLines_byStep, statements_append, declarations_append, none,
      declarations_labelLines (quiet_namesBefore h step), Survey.statements_cons, first]
    simp only [declarations, List.length_nil, Nat.add_zero, ih (step + 1) rest, List.length_cons]
    have unrolled : List.range' step (lines.length + 1 + 1) =
        step :: List.range' (step + 1) (lines.length + 1) := List.range'_succ
    rw [unrolled, List.flatMap_cons]

section Declarations

variable {lines : List String}
  (steps : ∀ line ∈ lines, ∃ text, Statement.ofLine line = .step text)

include steps

theorem mem_declarations_weave (h : t.Quiet) {word : String} {k : Nat} :
    (word, k) ∈ declarations 0 (statements (weave t.byStep 0 lines)) ↔
      k ≤ lines.length ∧ ∃ name ∈ t.namesBefore k, declared? name = some word := by
  rw [declarations_weave h 0 steps]
  simp only [List.mem_flatMap, List.mem_map, List.mem_filterMap, List.mem_range'_1, Prod.mk.injEq]
  constructor
  · rintro ⟨j, range, found, declares, rfl, rfl⟩
    exact ⟨by omega, declares⟩
  · rintro ⟨range, declares⟩
    exact ⟨k, by omega, word, declares, rfl, rfl⟩

theorem map_fst_declarations_weave (h : t.Quiet) :
    (declarations 0 (statements (weave t.byStep 0 lines))).map Prod.fst =
      ((List.range' 0 (lines.length + 1)).flatMap t.namesBefore).filterMap declared? := by
  have word (k : Nat) : (Prod.fst ∘ fun name : String => (name, k)) = id := rfl
  rw [declarations_weave h 0 steps, List.map_flatMap, List.filterMap_flatMap]
  simp only [List.map_map, word, List.map_id]

end Declarations

/-- No label has two lines in a listing. -/
theorem nodup_flatMap_namesBefore (t : LabelTable) (step count : Nat) :
    ((List.range' step count).flatMap t.namesBefore).Nodup := by
  have numbers : (List.range' step count).Nodup := List.nodup_range'
  rw [List.nodup_flatMap]
  refine ⟨fun k _ => t.nodup_namesBefore k, numbers.pairwise_of_forall_ne ?_⟩
  intro k _ j _ different
  apply List.disjoint_left.mpr
  intro name first second
  obtain ⟨s, found, rfl⟩ := LabelTable.mem_namesBefore.mp first
  obtain ⟨r, again, rfl⟩ := LabelTable.mem_namesBefore.mp second
  rw [found] at again
  cases again
  exact different rfl

theorem mem_flatMap_namesBefore {t : LabelTable} {count : Nat} {name : String} :
    name ∈ (List.range' 0 count).flatMap t.namesBefore ↔
      ∃ step, t.stepOf? name = some step ∧ step.toNat < count := by
  simp only [List.mem_flatMap, LabelTable.mem_namesBefore, List.mem_range']
  grind

/-- Different labels declare different names exactly when no declaration is repeated. -/
theorem nodup_filterMap_iff {α β : Type} {f : α → Option β} {xs : List α} (distinct : xs.Nodup) :
    (xs.filterMap f).Nodup ↔
      ∀ x ∈ xs, ∀ y ∈ xs, ∀ z, f x = some z → f y = some z → x = y := by
  rw [List.Nodup, List.pairwise_filterMap]
  constructor
  · intro apart x first y second z found again
    have symmetric : Std.Symm fun a b => ∀ c, f a = some c → ∀ d, f b = some d → c ≠ d :=
      ⟨fun a b h c found d again => (h d again c found).symm⟩
    by_contra different
    exact apart.forall first second different z found z again rfl
  · intro same
    apply distinct.pairwise_of_forall_ne
    rintro x first y second different c found d again rfl
    exact different (same x first y second c found again)

end Weaving

end Formicary
