import Mathlib.Algebra.BigOperators.Fin
import Formicary.Worker.Cpu

/-!
# Following scents

A worker weighs the open headings by their scents, and the current one is weighed twice: at first,
and again in its place among all. Only a heavier heading replaces the best one so far, so among
equals the first one that was looked at stays. The weights are small: even added up in words of 32
bits, no step of the sum leaves their range.
-/

namespace Formicary

section Weights

/-- A number as a word of 32 bits, if it is within their range. -/
def word32? (value : Int) : Option Int32 :=
  if Int32.minValue.toInt ≤ value ∧ value ≤ Int32.maxValue.toInt then some (Int32.ofInt value)
  else none

/-- Adds a level times a priority to a sum, in words of 32 bits. Gives nothing when the product or
the new sum is out of range. -/
def addTerm? (sum : Int32) (term : UInt8 × Int8) : Option Int32 := do
  let product ← word32? (term.1.toNat * term.2.toInt)
  word32? (sum.toInt + product.toInt)

/-- The weight of a neighbouring tile, added up channel by channel in words of 32 bits. -/
def Nose.weight32? (n : Nose) (h : Heading) : Option Int32 :=
  ((n.neighbors.get h).toList.zip n.priorities.toList).foldlM addTerm? 0

theorem exists_word32? (value : Int) (low : -2147483648 ≤ value) (high : value ≤ 2147483647) :
    ∃ word, word32? value = some word ∧ word.toInt = value := by
  refine ⟨Int32.ofInt value, if_pos ⟨low, high⟩, ?_⟩
  apply Int32.toInt_ofInt_of_le
  · exact low
  · exact Int.lt_add_one_of_le high

/-- A level times a priority is at most 255 times 128. -/
theorem term_bounds (level : UInt8) (priority : Int8) :
    -32640 ≤ (level.toNat : Int) * priority.toInt ∧
      (level.toNat : Int) * priority.toInt ≤ 32640 := by
  have small := level.toNat_lt
  have nonneg : (0 : Int) ≤ level.toNat := Int.natCast_nonneg _
  have low : (level.toNat : Int) * -128 ≤ level.toNat * priority.toInt :=
    Int.mul_le_mul_of_nonneg_left priority.le_toInt nonneg
  have high : (level.toNat : Int) * priority.toInt ≤ level.toNat * 128 :=
    Int.mul_le_mul_of_nonneg_left (Int.le_of_lt priority.toInt_lt) nonneg
  omega

/-- As long as there is room for the largest terms, a sum in words is the exact one. -/
theorem exists_foldlM_addTerm? (terms : List (UInt8 × Int8)) (sum : Int32)
    (low : -2147483648 ≤ sum.toInt - 32640 * terms.length)
    (high : sum.toInt + 32640 * terms.length ≤ 2147483647) :
    ∃ total, terms.foldlM addTerm? sum = some total ∧
      total.toInt = sum.toInt +
        (terms.map fun term => (term.1.toNat : Int) * term.2.toInt).sum := by
  induction terms generalizing sum with
  | nil => exact ⟨sum, rfl, by simp⟩
  | cons term terms ih =>
    obtain ⟨level, priority⟩ := term
    obtain ⟨least, most⟩ := term_bounds level priority
    rw [List.length_cons] at low high
    push_cast at low high
    obtain ⟨product, multiplied, exactProduct⟩ :=
      exists_word32? (level.toNat * priority.toInt) (by omega) (by omega)
    obtain ⟨next, added, exactSum⟩ :=
      exists_word32? (sum.toInt + product.toInt) (by omega) (by omega)
    have step : addTerm? sum (level, priority) = some next := by
      simp only [addTerm?, multiplied, Option.bind_eq_bind, Option.bind_some, added]
    obtain ⟨total, runs, same⟩ := ih next (by omega) (by omega)
    refine ⟨total, ?_, ?_⟩
    · rw [List.foldlM_cons, step]
      exact runs
    · rw [same, List.map_cons, List.sum_cons, exactSum, exactProduct, Int.add_assoc]

theorem Nose.weight_eq_sum (n : Nose) (h : Heading) :
    n.weight h = ((n.neighbors.get h).toList.zip n.priorities.toList |>.map
      fun term => (term.1.toNat : Int) * term.2.toInt).sum := by
  unfold Nose.weight
  rw [Vector.toList_zipWith, List.zip_eq_zipWith, List.map_zipWith]
  rfl

/-- The weight is the product of the levels and the priorities, channel by channel. -/
theorem Nose.weight_eq_dot (n : Nose) (h : Heading) :
    n.weight h = ∑ channel : Channel,
      (((n.neighbors.get h).get channel).toNat : Int) * (n.priorities.get channel).toInt := by
  have channels : Vector.zipWith (fun level priority => (level.toNat : Int) * priority.toInt)
      (n.neighbors.get h) n.priorities =
        Vector.ofFn fun channel : Channel =>
          (((n.neighbors.get h).get channel).toNat : Int) * (n.priorities.get channel).toInt := by
    ext i inside
    simp [Vector.get]
  unfold Nose.weight
  rw [channels, Vector.toList_ofFn, ← List.sum_ofFn]
  rfl

/-- The sum of a weight in words of 32 bits leaves their range nowhere and is exact. -/
theorem Nose.exists_weight32? (n : Nose) (h : Heading) :
    ∃ word, n.weight32? h = some word ∧ word.toInt = n.weight h := by
  have eight : ((n.neighbors.get h).toList.zip n.priorities.toList).length = 8 := by simp
  obtain ⟨word, runs, same⟩ :=
    exists_foldlM_addTerm? ((n.neighbors.get h).toList.zip n.priorities.toList) 0
      (by rw [eight]; decide) (by rw [eight]; decide)
  refine ⟨word, runs, ?_⟩
  rw [same, n.weight_eq_sum h]
  exact Int.zero_add _

end Weights

theorem Heading.mem_all (h : Heading) : h ∈ all := by
  cases h <;> decide

namespace Nose

/-- An open heading that no open one outweighs. -/
def IsBest (n : Nose) (isOpen : Around Bool) (h : Heading) : Prop :=
  isOpen.get h = true ∧ ∀ other, isOpen.get other = true → n.weight other ≤ n.weight h

instance (n : Nose) (isOpen : Around Bool) : DecidablePred (n.IsBest isOpen) := fun h =>
  decidable_of_iff (isOpen.get h = true ∧
    ∀ other ∈ Heading.all, isOpen.get other = true → n.weight other ≤ n.weight h)
    (by simp [IsBest, Heading.mem_all])

/-- The outcome of looking at some headings in turn: nothing while all of them are blocked, else an
open one, heavier than the open ones before it and outweighed by none of those after it. -/
def Leads (n : Nose) (isOpen : Around Bool) (seen : List Heading) : Option Heading → Prop
  | none => ∀ h ∈ seen, isOpen.get h = false
  | some best => isOpen.get best = true ∧ ∃ before after, seen = before ++ best :: after ∧
    (∀ h ∈ before, isOpen.get h = true → n.weight h < n.weight best) ∧
    ∀ h ∈ after, isOpen.get h = true → n.weight h ≤ n.weight best

variable {n : Nose} {isOpen : Around Bool} {seen : List Heading} {best : Option Heading}

/-- Looking at one more heading. -/
theorem Leads.better (leads : n.Leads isOpen seen best) (h : Heading) :
    n.Leads isOpen (seen ++ [h]) (n.better isOpen best h) := by
  unfold Nose.better
  cases best with
  | none =>
    by_cases opens : isOpen.get h = true
    · rw [if_pos opens]
      refine ⟨opens, seen, [], rfl, ?_, by simp⟩
      intro other member free
      rw [leads other member] at free
      cases free
    · rw [if_neg opens]
      intro other member
      rcases List.mem_append.mp member with earlier | last
      · exact leads other earlier
      · obtain rfl := List.mem_singleton.mp last
        exact Bool.eq_false_iff.mpr opens
  | some b =>
    obtain ⟨free, before, after, rfl, heavier, heavy⟩ := leads
    -- A heading that is blocked or not heavier joins those behind the best one.
    have stays (light : isOpen.get h = true → n.weight h ≤ n.weight b) :
        n.Leads isOpen (before ++ b :: after ++ [h]) (some b) := by
      refine ⟨free, before, after ++ [h], by simp, heavier, ?_⟩
      intro other member
      rcases List.mem_append.mp member with earlier | last
      · exact heavy other earlier
      · obtain rfl := List.mem_singleton.mp last
        exact light
    by_cases opens : isOpen.get h = true
    · rw [if_pos opens]
      by_cases light : n.weight h ≤ n.weight b
      · simp only [if_pos light]
        exact stays fun _ => light
      · simp only [if_neg light]
        refine ⟨opens, before ++ b :: after, [], rfl, ?_, by simp⟩
        intro other member free
        rcases List.mem_append.mp member with earlier | later
        · have := heavier other earlier free
          omega
        · rcases List.mem_cons.mp later with rfl | later
          · omega
          · have := heavy other later free
            omega
    · rw [if_neg opens]
      exact stays fun free => absurd free opens

/-- Looking at any number of further headings. -/
theorem Leads.foldl (leads : n.Leads isOpen seen best) (headings : List Heading) :
    n.Leads isOpen (seen ++ headings) (headings.foldl (n.better isOpen) best) := by
  induction headings generalizing seen best with
  | nil =>
    rw [List.append_nil]
    exact leads
  | cons h headings ih =>
    have later := ih (leads.better h)
    rw [List.append_assoc] at later
    exact later

theorem leads_bestHeading? (n : Nose) (isOpen : Around Bool) (current : Heading) :
    n.Leads isOpen (current :: Heading.all) (n.bestHeading? isOpen current) := by
  have start : n.Leads isOpen [] none := by
    intro h member
    cases member
  exact start.foldl (current :: Heading.all)

/-- The choice is the first best heading, where the current one comes before all. -/
theorem bestHeading?_eq_find? (n : Nose) (isOpen : Around Bool) (current : Heading) :
    n.bestHeading? isOpen current =
      (current :: Heading.all).find? fun h => decide (n.IsBest isOpen h) := by
  have leads := n.leads_bestHeading? isOpen current
  symm
  cases chosen : n.bestHeading? isOpen current with
  | none =>
    rw [chosen] at leads
    apply List.find?_eq_none.mpr
    intro h member
    simp [IsBest, leads h member]
  | some best =>
    rw [chosen] at leads
    obtain ⟨opens, before, after, all, heavier, heavy⟩ := leads
    apply List.find?_eq_some_iff_append.mpr
    refine ⟨decide_eq_true ⟨opens, ?_⟩, before, after, all, ?_⟩
    · intro other free
      have member : other ∈ before ++ best :: after :=
        all ▸ List.mem_cons_of_mem current other.mem_all
      rcases List.mem_append.mp member with earlier | later
      · exact Int.le_of_lt (heavier other earlier free)
      · rcases List.mem_cons.mp later with rfl | later
        · exact Int.le_refl _
        · exact heavy other later free
    · intro other earlier
      rw [Bool.not_eq_true', decide_eq_false_iff_not]
      rintro ⟨free, most⟩
      have := heavier other earlier free
      have := most best opens
      omega

theorem bestHeading?_eq_none_iff {current : Heading} :
    n.bestHeading? isOpen current = none ↔ ∀ h, isOpen.get h = false := by
  have leads := n.leads_bestHeading? isOpen current
  cases chosen : n.bestHeading? isOpen current with
  | none =>
    rw [chosen] at leads
    simp only [true_iff]
    intro h
    exact leads h (List.mem_cons_of_mem current h.mem_all)
  | some best =>
    rw [chosen] at leads
    simp only [reduceCtorEq, false_iff]
    intro blocked
    cases leads.1.symm.trans (blocked best)

end Nose

/-- The weight of a heading is the exact product of levels and priorities, also when it is computed
in words of 32 bits. A worker that follows scents finds no heading exactly when all are blocked.
Else it finds an open one that no open one outweighs: the current heading if that is such a one, and
otherwise the first such one from right through up and left to down. It remembers what it found;
then it turns there without failing, or fails and keeps its heading. Nothing else of it changes. -/
theorem Cpu.followScent_turns_to_best (n : Nose) (isOpen : Around Bool) (current : Heading) :
    (∀ h, n.weight h = ∑ channel : Channel,
      (((n.neighbors.get h).get channel).toNat : Int) * (n.priorities.get channel).toInt) ∧
    (∀ h, ∃ word, n.weight32? h = some word ∧ word.toInt = n.weight h) ∧
    (n.bestHeading? isOpen current = none ↔ ∀ h, isOpen.get h = false) ∧
    (∀ best, n.bestHeading? isOpen current = some best →
      isOpen.get best = true ∧ (∀ h, isOpen.get h = true → n.weight h ≤ n.weight best) ∧
      (n.IsBest isOpen current → best = current) ∧
      (¬n.IsBest isOpen current →
        [.right, .up, .left, .down].find? (fun h => decide (n.IsBest isOpen h)) = some best)) ∧
    n.choose isOpen current = { n with preferred := n.bestHeading? isOpen current } ∧
    ∀ c : Cpu, c.nose = n → c.isOpen = isOpen → c.heading = current →
      (∀ best, n.bestHeading? isOpen current = some best →
        c.followScent =
          { c with nose := { n with preferred := some best }, heading := best, failed := false }) ∧
      (n.bestHeading? isOpen current = none →
        c.followScent = { c with nose := { n with preferred := none }, failed := true }) := by
  refine ⟨n.weight_eq_dot, n.exists_weight32?, Nose.bestHeading?_eq_none_iff, ?_, rfl, ?_⟩
  · intro best chosen
    rw [n.bestHeading?_eq_find?] at chosen
    have found := List.find?_some chosen
    have isBest : n.IsBest isOpen best := of_decide_eq_true found
    refine ⟨isBest.1, isBest.2, ?_, ?_⟩
    · intro kept
      rw [List.find?_cons_of_pos (by simpa using kept)] at chosen
      exact (Option.some.inj chosen).symm
    · intro lost
      rw [List.find?_cons_of_neg (by simpa using lost)] at chosen
      exact chosen
  · rintro c rfl rfl rfl
    constructor
    · intro best chosen
      simp only [followScent, Nose.choose, chosen]
    · intro blocked
      simp only [followScent, Nose.choose, blocked]

/-- A worker that likes the first scent and dislikes the second one. There is as much to like up as
down and nothing either way on the left; the right is worst. -/
def sniffing : Cpu :=
  { Cpu.initial with
    nose := { Nose.initial with
      priorities := #v[3, -128, 0, 0, 0, 0, 0, 0]
      neighbors := ⟨#v[0, 255, 0, 0, 0, 0, 0, 0], #v[7, 0, 0, 0, 0, 0, 0, 0], noScent,
        #v[7, 0, 0, 0, 0, 0, 0, 0]⟩ }
    isOpen := ⟨true, true, true, true⟩ }

theorem Cpu.followScent_turns_to_best_sniffing :
    sniffing.followScent.heading = .up ∧
    { sniffing with heading := .down }.followScent.heading = .down ∧
    { sniffing with isOpen := ⟨true, false, false, false⟩ }.followScent.heading = .right := by
  obtain ⟨-, -, -, -, -, turns⟩ :=
    Cpu.followScent_turns_to_best sniffing.nose sniffing.isOpen .right
  obtain ⟨-, -, -, -, -, keeps⟩ :=
    Cpu.followScent_turns_to_best sniffing.nose sniffing.isOpen .down
  obtain ⟨-, -, -, -, -, gives⟩ :=
    Cpu.followScent_turns_to_best sniffing.nose ⟨true, false, false, false⟩ .right
  refine ⟨?_, ?_, ?_⟩
  · rw [(turns sniffing rfl rfl rfl).1 .up (by decide +kernel)]
  · rw [(keeps { sniffing with heading := .down } rfl rfl rfl).1 .down (by decide +kernel)]
  · rw [(gives { sniffing with isOpen := ⟨true, false, false, false⟩ } rfl rfl rfl).1 .right
      (by decide +kernel)]

end Formicary
