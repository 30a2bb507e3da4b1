import Mathlib.Logic.Relation
import Formicary.Code.Assembler
import Formicary.Proofs.Grammar
import Formicary.Proofs.Listing

/-!
# Layout and case

A program may be laid out and written in many ways. Lines that say nothing may stand anywhere;
blanks and comments may be added; a mnemonic, a register or a channel is the same in either case.
None of this changes the machine code, and neither does what an assembler was used for before.
-/

namespace Formicary

namespace Text

/-- Nothing but blanks. -/
def AllBlank (cs : List Char) : Prop :=
  ∀ c ∈ cs, isBlank c = true

instance : DecidablePred AllBlank := fun _ =>
  decidable_of_iff _ List.all_eq_true

instance : DecidablePred IsWord := fun w =>
  decidable_of_iff (w.isEmpty = false ∧ w.any isBlank = false)
    ⟨fun h => ⟨by simpa using h.1, by simpa using h.2⟩,
      fun h => ⟨by simpa using h.ne_nil, by simpa using h.solid⟩⟩

section Blanks

variable {bs cs ds : List Char}

theorem AllBlank.unmarked (blank : AllBlank bs) : '#' ∉ bs := by
  intro member
  exact absurd (blank '#' member) (by decide)

theorem trim_append_blanks (cs : List Char) (blank : AllBlank bs) : trim (cs ++ bs) = trim cs := by
  induction bs using List.reverseRecOn with
  | nil => rw [List.append_nil]
  | append_singleton bs b ih =>
    unfold AllBlank at blank
    rw [List.forall_mem_append, List.forall_mem_singleton] at blank
    rw [← List.append_assoc, trim_append_blank _ blank.2, ih blank.1]

theorem trim_blanks_append (blank : AllBlank bs) (cs : List Char) : trim (bs ++ cs) = trim cs := by
  rw [trim_eq, trimStart, List.dropWhile_append_of_pos blank]
  rfl

theorem words_blanks_append (blank : AllBlank bs) (cs : List Char) :
    words (bs ++ cs) = words cs := by
  induction bs with
  | nil => rfl
  | cons b bs ih =>
    unfold AllBlank at blank
    rw [List.forall_mem_cons] at blank
    rw [List.cons_append, words_cons_blank blank.1, ih blank.2]

/-- A gap separates the words before it from those behind it. -/
theorem words_append_gap (blank : AllBlank bs) (some : bs ≠ []) (cs ds : List Char) :
    words (cs ++ (bs ++ ds)) = words cs ++ words ds := by
  obtain ⟨b, bs, rfl⟩ := List.exists_cons_of_ne_nil some
  unfold AllBlank at blank
  rw [List.forall_mem_cons] at blank
  rw [List.cons_append, words_append_blank _ _ blank.1, words_blanks_append blank.2]

/-- The last stretch of a text grows with each solid character. -/
theorem stretches_concat_solid (cs : List Char) {c : Char} (solid : isBlank c = false) :
    ∃ front last, stretches isBlank cs = front ++ [last] ∧
      stretches isBlank (cs ++ [c]) = front ++ [last ++ [c]] := by
  induction cs with
  | nil => exact ⟨[], [], rfl, by simp [stretches, solid]⟩
  | cons d cs ih =>
    obtain ⟨front, last, before, after⟩ := ih
    cases blank : isBlank d with
    | true => exact ⟨[] :: front, last, by simp [stretches, blank, before],
        by simp [stretches, blank, after]⟩
    | false =>
      cases front with
      | nil => exact ⟨[], d :: last, by simp [stretches, blank, before],
          by simp [stretches, blank, after]⟩
      | cons first front => exact ⟨(d :: first) :: front, last,
          by simp [stretches, blank, before], by simp [stretches, blank, after]⟩

/-- A text without its outer blanks ends as its last word does. -/
theorem getLast?_trim (cs : List Char) :
    (trim cs).getLast? = (words cs).getLast?.bind List.getLast? := by
  induction cs using List.reverseRecOn with
  | nil => rfl
  | append_singleton cs c ih =>
    cases blank : isBlank c with
    | true => rw [trim_append_blank _ blank, words_concat_blank _ blank, ih]
    | false =>
      obtain ⟨front, last, -, after⟩ := stretches_concat_solid cs blank
      rw [trim_append_solid _ blank, words, after]
      simp

end Blanks

section Case

variable {c d : Char} {w v : List Char}

/-- Only letters have another case. -/
theorem eq_of_toUpper_eq (same : d.toUpper = c.toUpper)
    (other : ¬(0x41 ≤ c.toNat ∧ c.toNat ≤ 0x5A) ∧ ¬(0x61 ≤ c.toNat ∧ c.toNat ≤ 0x7A)) : d = c := by
  rw [← Char.toNat_inj, toNat_toUpper, toNat_toUpper] at same
  rw [← Char.toNat_inj]
  split at same <;> split at same <;> omega

theorem exists_mem_of_map_toUpper (same : v.map Char.toUpper = w.map Char.toUpper)
    (member : d ∈ v) : ∃ c ∈ w, c.toUpper = d.toUpper :=
  List.mem_map.mp (same ▸ List.mem_map_of_mem member)

/-- A word stays a word in another case. -/
theorem IsWord.recase (word : IsWord w) (same : v.map Char.toUpper = w.map Char.toUpper) :
    IsWord v := by
  refine ⟨?_, ?_⟩
  · rintro rfl
    exact word.ne_nil (List.map_eq_nil_iff.mp same.symm)
  · intro d member
    obtain ⟨c, there, upper⟩ := exists_mem_of_map_toUpper same member
    by_contra blank
    have blank : isBlank d = true := by simpa using blank
    have symbol : ¬(0x41 ≤ d.toNat ∧ d.toNat ≤ 0x5A) ∧ ¬(0x61 ≤ d.toNat ∧ d.toNat ≤ 0x7A) := by
      simp only [isBlank, Bool.or_eq_true, Bool.and_eq_true, decide_eq_true_eq,
        beq_iff_eq] at blank
      omega
    rw [eq_of_toUpper_eq upper symbol] at there
    rw [word.solid d there] at blank
    cases blank

theorem not_mem_of_recase (same : v.map Char.toUpper = w.map Char.toUpper) (unmarked : '#' ∉ w) :
    '#' ∉ v := by
  intro member
  obtain ⟨c, there, upper⟩ := exists_mem_of_map_toUpper same member
  rw [eq_of_toUpper_eq upper (by decide)] at there
  exact unmarked there

/-- A word ends in a colon in both cases or in neither. -/
theorem getLast?_eq_colon_of_recase (same : v.map Char.toUpper = w.map Char.toUpper)
    (colon : v.getLast? = some ':') : w.getLast? = some ':' := by
  have last := congrArg List.getLast? same
  rw [List.getLast?_map, List.getLast?_map, colon] at last
  obtain ⟨c, found, upper⟩ := Option.map_eq_some_iff.mp last.symm
  rw [found, eq_of_toUpper_eq upper (by decide)]

end Case

end Text

open Text

/-- The kinds of the operands of a shape, in their order. -/
def Shape.kinds : Shape → List OperandKind
  | bare => []
  | register => [.register]
  | registerConstant => [.register, .constant]
  | registerPair => [.register, .register]
  | target => [.target]
  | channel => [.channel]
  | channelPriority => [.channel, .priority]

/-- The places of the words of an operation that may be in either case: that of the mnemonic, and
those of registers and channels. -/
def Op.AnyCase (op : Op) : (place : Nat) → Prop
  | 0 => True
  | k + 1 => op.shape.kinds[k]? = some .register ∨ op.shape.kinds[k]? = some .channel

instance (op : Op) : DecidablePred op.AnyCase
  | 0 => inferInstanceAs (Decidable True)
  | k + 1 => inferInstanceAs (Decidable (op.shape.kinds[k]? = some .register ∨
      op.shape.kinds[k]? = some .channel))

/-- A line with at most blanks before its comment. -/
def Silent (line : String) : Prop :=
  AllBlank (beforeComment line.toList)

instance : DecidablePred Silent := fun line =>
  inferInstanceAs (Decidable (AllBlank (beforeComment line.toList)))

/-- Other ways to write a line. -/
inductive Relaid : String → String → Prop where
  /-- With blanks around it. -/
  | around {front back : String} (line : String) (before : AllBlank front.toList)
    (after : AllBlank back.toList) : Relaid line (front ++ line ++ back)
  /-- With a comment behind it. -/
  | comment (line text : String) : Relaid line (line ++ "#" ++ text)
  /-- With another gap in place of a gap of an instruction. -/
  | gap {front gap gap' back : String} (holds : HoldsStep (front ++ gap ++ back))
    (blank : AllBlank gap.toList) (some : gap.toList ≠ []) (blank' : AllBlank gap'.toList)
    (some' : gap'.toList ≠ []) : Relaid (front ++ gap ++ back) (front ++ gap' ++ back)
  /-- With a mnemonic, a register or a channel of an instruction in another case. -/
  | recase {front word word' back : String} {op : Op} (holds : HoldsStep (front ++ word ++ back))
    (runs : (words (content (front ++ word ++ back))).head?.bind Op.ofMnemonic? = some op)
    (before : front.toList.getLast?.all isBlank) (isWord : IsWord word.toList)
    (unmarked : '#' ∉ (front ++ word).toList)
    (after : back.toList.head?.all fun c => isBlank c || c == '#')
    (anyCase : op.AnyCase (words front.toList).length)
    (same : word'.toList.map Char.toUpper = word.toList.map Char.toUpper) :
    Relaid (front ++ word ++ back) (front ++ word' ++ back)

/-- Other ways to write a program: with a silent line more, or with a line written otherwise. -/
inductive Edited : List String → List String → Prop where
  | silent {line : String} (front back : List String) (silent : Silent line) :
    Edited (front ++ back) (front ++ line :: back)
  | relaid {line line' : String} (front back : List String) (relaid : Relaid line line') :
    Edited (front ++ line :: back) (front ++ line' :: back)

/-- Step texts that hold the same instructions under all labels. -/
def SameText (text text' : List Char) : Prop :=
  ∀ labels i, Instruction.ofText labels text = .ok i ↔ Instruction.ofText labels text' = .ok i

/-- Statements that say the same. -/
inductive Statement.Same : Statement → Statement → Prop where
  | refl (s : Statement) : Same s s
  | step {text text' : List Char} (same : SameText text text') : Same (.step text) (.step text')

section Lines

variable {line line' : String}

theorem ofLine_of_silent (silent : Silent line) : Statement.ofLine line = .blank := by
  apply Statement.ofLine_eq_blank
  rw [← List.nil_append (beforeComment line.toList), trim_append_blanks _ silent]
  rfl

theorem ofLine_congr (same : content line' = content line) :
    Statement.ofLine line' = Statement.ofLine line := by
  unfold content at same
  unfold Statement.ofLine
  rw [same]

theorem content_around {front back : List Char} (before : AllBlank front) (after : AllBlank back)
    (cs : List Char) :
    trim (beforeComment (front ++ cs ++ back)) = trim (beforeComment cs) := by
  rw [List.append_assoc, beforeComment_append before.unmarked, trim_blanks_append before]
  by_cases marked : '#' ∈ cs
  · rw [beforeComment_append_of_mem marked]
  · rw [beforeComment_append marked, beforeComment_of_not_mem after.unmarked,
      beforeComment_of_not_mem marked, trim_append_blanks _ after]

theorem beforeComment_comment (cs ds : List Char) :
    beforeComment (cs ++ '#' :: ds) = beforeComment cs := by
  by_cases marked : '#' ∈ cs
  · rw [beforeComment_append_of_mem marked]
  · rw [beforeComment_append marked, beforeComment_of_not_mem marked]
    simp [beforeComment]

/-- Whether a line holds a step is seen at the end of its last word. -/
theorem holdsStep_iff :
    HoldsStep line ↔ (words (content line)).getLast?.bind List.getLast? ≠ none ∧
      (words (content line)).getLast?.bind List.getLast? ≠ some ':' := by
  have ends := getLast?_trim (beforeComment line.toList)
  rw [← words_trim] at ends
  unfold HoldsStep content
  rw [← ends, ne_eq, ne_eq, ne_eq, List.getLast?_eq_none_iff]

/-- The names that a table has for a step. -/
def LabelTable.Names (t : LabelTable) (w : List Char) (n : Nat) : Prop :=
  (t.stepOf? (String.ofList w)).map UInt16.toNat = some n

theorem LabelTable.names_iff (t : LabelTable) (w : List Char) (step : UInt16) :
    t.stepOf? (String.ofList w) = some step ↔ t.Names w step.toNat := by
  unfold Names
  rw [Option.map_eq_some_iff]
  constructor
  · intro found
    exact ⟨step, found, rfl⟩
  · intro found
    obtain ⟨other, found, same⟩ := found
    rw [found, UInt16.toNat_inj.mp same]

/-- Lines whose words make the same instructions say the same. -/
theorem same_of_written (holds : HoldsStep line) (holds' : HoldsStep line')
    (written : ∀ names (i : Instruction),
      i.Written names (words (content line)) ↔ i.Written names (words (content line'))) :
    (Statement.ofLine line).Same (Statement.ofLine line') := by
  rw [ofLine_eq_step_iff.mpr ⟨holds, rfl⟩, ofLine_eq_step_iff.mpr ⟨holds', rfl⟩]
  apply Statement.Same.step
  intro labels i
  unfold content
  rw [Instruction.ofText_eq_ok_iff_written labels.names_iff holds.1,
    Instruction.ofText_eq_ok_iff_written labels.names_iff holds'.1]
  exact written _ i

end Lines

section Recasing

variable {names : List Char → Nat → Prop} {front back : List (List Char)} {w w' : List Char}

/-- Operands are the same with a register or a channel in another case. -/
theorem Operands.Written.recase {s : Shape} {o : Operands s}
    (same : w'.map Char.toUpper = w.map Char.toUpper)
    (anyCase : s.kinds[front.length]? = some .register ∨ s.kinds[front.length]? = some .channel)
    (written : o.Written names (front ++ w :: back)) : o.Written names (front ++ w' :: back) := by
  -- How many words stand before the changed one tells which operand it is.
  cases o with
  | bare => simp [Shape.kinds] at anyCase
  | register r =>
    obtain ⟨v, words, isRegister⟩ := written
    cases front with
    | nil =>
      cases words
      exact ⟨w', rfl, same.trans isRegister⟩
    | cons first front => simp at words
  | registerConstant r value =>
    obtain ⟨v, u, words, isRegister, isConstant⟩ := written
    cases front with
    | nil =>
      cases words
      exact ⟨w', u, rfl, same.trans isRegister, isConstant⟩
    | cons first front =>
      cases front with
      | nil => simp [Shape.kinds] at anyCase
      | cons second front => simp at words
  | registerPair source destination =>
    obtain ⟨v, u, words, isSource, isDestination⟩ := written
    cases front with
    | nil =>
      cases words
      exact ⟨w', u, rfl, same.trans isSource, isDestination⟩
    | cons first front =>
      cases front with
      | nil =>
        cases words
        exact ⟨v, w', rfl, isSource, same.trans isDestination⟩
      | cons second front => simp at words
  | target step =>
    cases front with
    | nil => simp [Shape.kinds] at anyCase
    | cons first front => simp [Shape.kinds] at anyCase
  | channel c =>
    obtain ⟨v, words, isChannel⟩ := written
    cases front with
    | nil =>
      cases words
      exact ⟨w', rfl, same.trans isChannel⟩
    | cons first front => simp at words
  | channelPriority c priority =>
    obtain ⟨v, u, words, isChannel, isPriority⟩ := written
    cases front with
    | nil =>
      cases words
      exact ⟨w', u, rfl, same.trans isChannel, isPriority⟩
    | cons first front =>
      cases front with
      | nil => simp [Shape.kinds] at anyCase
      | cons second front => simp at words

/-- An instruction is the same with a word in another case where its operation allows it. -/
theorem Instruction.Written.recase {op : Op} {i : Instruction}
    (runs : (front ++ w :: back).head?.bind Op.ofMnemonic? = some op)
    (anyCase : op.AnyCase front.length) (same : w'.map Char.toUpper = w.map Char.toUpper)
    (written : i.Written names (front ++ w :: back)) : i.Written names (front ++ w' :: back) := by
  obtain ⟨mnemonic, operands, words, upper, written⟩ := written
  cases front with
  | nil =>
    obtain ⟨rfl, rfl⟩ := List.cons.inj words
    exact ⟨w', back, rfl, same.trans upper, written⟩
  | cons first front =>
    obtain ⟨rfl, rfl⟩ := List.cons.inj words
    have sameOp : op = i.op := by
      have read : Op.ofMnemonic? first = some op := runs
      rw [Op.ofMnemonic?_eq_some_iff.mpr upper] at read
      exact (Option.some.inj read).symm
    subst sameOp
    exact ⟨first, front ++ w' :: back, rfl, upper, written.recase same anyCase⟩

theorem head?_bind_ofMnemonic?_recase {op : Op} (same : w'.map Char.toUpper = w.map Char.toUpper)
    (runs : (front ++ w :: back).head?.bind Op.ofMnemonic? = some op) :
    (front ++ w' :: back).head?.bind Op.ofMnemonic? = some op := by
  cases front with
  | nil =>
    have read := Op.ofMnemonic?_eq_some_iff.mp (show Op.ofMnemonic? w = some op from runs)
    exact Op.ofMnemonic?_eq_some_iff.mpr (same.trans read)
  | cons first front => exact runs

/-- The last word ends in a colon in both cases or in neither. -/
theorem lastChar_recase (same : w'.map Char.toUpper = w.map Char.toUpper)
    (ends : (front ++ w :: back).getLast?.bind List.getLast? ≠ none ∧
      (front ++ w :: back).getLast?.bind List.getLast? ≠ some ':') :
    (front ++ w' :: back).getLast?.bind List.getLast? ≠ none ∧
      (front ++ w' :: back).getLast?.bind List.getLast? ≠ some ':' := by
  cases back with
  | nil =>
    rw [List.getLast?_concat, Option.bind_some] at ends ⊢
    refine ⟨?_, ?_⟩
    · intro empty
      rw [List.getLast?_eq_none_iff.mp empty, List.map_nil] at same
      exact ends.1 (by rw [List.map_eq_nil_iff.mp same.symm]; rfl)
    · intro colon
      exact ends.2 (getLast?_eq_colon_of_recase same colon)
  | cons next back =>
    have others (v : List Char) :
        (front ++ v :: next :: back).getLast? = (next :: back).getLast? := by
      rw [List.getLast?_append, List.getLast?_cons_cons, List.getLast?_cons, Option.some_or]
    rw [others] at ends ⊢
    exact ends

end Recasing

section Relaying

/-- Words in front of a gap or of nothing are apart from those behind it. -/
theorem words_append_of_blank_end {cs : List Char} (before : cs.getLast?.all isBlank)
    (ds : List Char) : words (cs ++ ds) = words cs ++ words ds := by
  rcases List.eq_nil_or_concat cs with rfl | ⟨front, b, rfl⟩
  · rfl
  · rw [List.concat_eq_append] at before ⊢
    have blank : isBlank b = true := by simpa using before
    rw [List.append_assoc, List.singleton_append, words_append_blank _ _ blank,
      words_concat_blank _ blank]

/-- The words of a line around one of them. -/
theorem words_content_word {front word back : String}
    (before : front.toList.getLast?.all isBlank) (isWord : IsWord word.toList)
    (unmarked : '#' ∉ (front ++ word).toList)
    (after : back.toList.head?.all fun c => isBlank c || c == '#') :
    words (content (front ++ word ++ back)) =
      words front.toList ++ word.toList :: words (beforeComment back.toList) := by
  unfold content
  rw [words_trim, String.toList_append, beforeComment_append unmarked, String.toList_append,
    List.append_assoc, words_append_of_blank_end before]
  congr 1
  cases rest : back.toList with
  | nil => simpa [beforeComment] using words_word isWord
  | cons c cs =>
    have after : (isBlank c || c == '#') = true := by
      rw [rest] at after
      exact after
    rcases Bool.or_eq_true_iff.mp after with blank | mark
    · have kept : beforeComment (c :: cs) = c :: beforeComment cs := by
        have other : c ≠ '#' := by
          rintro rfl
          exact absurd blank (by decide)
        simp [beforeComment, other]
      rw [kept, words_append_blank _ _ blank, words_word isWord, words_cons_blank blank]
      rfl
    · rw [beq_iff_eq.mp mark]
      simpa [beforeComment] using words_word isWord

theorem words_content_gap {front gap back : String} (blank : AllBlank gap.toList)
    (some : gap.toList ≠ []) (unmarked : '#' ∉ front.toList) :
    words (content (front ++ gap ++ back)) =
      words front.toList ++ words (beforeComment back.toList) := by
  unfold content
  rw [words_trim, String.toList_append, String.toList_append, List.append_assoc,
    beforeComment_append unmarked, beforeComment_append blank.unmarked,
    words_append_gap blank some]

/-- A line written otherwise says the same. -/
theorem Relaid.same {line line' : String} (relaid : Relaid line line') :
    (Statement.ofLine line).Same (Statement.ofLine line') := by
  cases relaid with
  | @around front back line before after =>
    have same : content (front ++ line ++ back) = content line := by
      unfold content
      rw [String.toList_append, String.toList_append, content_around before after]
    rw [ofLine_congr same]
    exact .refl _
  | comment line text =>
    have same : content (line ++ "#" ++ text) = content line := by
      unfold content
      rw [String.toList_append, String.toList_append, List.append_assoc]
      exact congrArg trim (beforeComment_comment _ _)
    rw [ofLine_congr same]
    exact .refl _
  | @gap front gap gap' back holds blank some blank' some' =>
    by_cases marked : '#' ∈ front.toList
    · have same : content (front ++ gap' ++ back) = content (front ++ gap ++ back) := by
        unfold content
        simp only [String.toList_append, List.append_assoc, beforeComment_append_of_mem marked]
      rw [ofLine_congr same]
      exact .refl _
    · have same :
          words (content (front ++ gap' ++ back)) = words (content (front ++ gap ++ back)) := by
        rw [words_content_gap blank some marked, words_content_gap blank' some' marked]
      have holds' : HoldsStep (front ++ gap' ++ back) := by
        rw [holdsStep_iff, same]
        exact holdsStep_iff.mp holds
      apply same_of_written holds holds'
      intro names i
      rw [same]
  | @recase front word word' back op holds runs before isWord unmarked after anyCase same =>
    have isWord' := isWord.recase same
    have unmarked' : '#' ∉ (front ++ word').toList := by
      rw [String.toList_append, List.mem_append, not_or] at unmarked ⊢
      exact ⟨unmarked.1, not_mem_of_recase same unmarked.2⟩
    have words := words_content_word before isWord unmarked after
    have words' := words_content_word before isWord' unmarked' after
    rw [words] at runs
    have holds' : HoldsStep (front ++ word' ++ back) := by
      rw [holdsStep_iff, words] at holds
      rw [holdsStep_iff, words']
      exact lastChar_recase same holds
    apply same_of_written holds holds'
    intro names i
    rw [words, words']
    exact ⟨.recase runs anyCase same,
      .recase (head?_bind_ofMnemonic?_recase same runs) anyCase same.symm⟩

end Relaying

section Sources

variable {lines lines' : List String} {m : MachineCode} {steps : List Instruction}

theorem SameText.refl (text : List Char) : SameText text text :=
  fun _ _ => Iff.rfl

theorem forall₂_sameText_refl (texts : List (List Char)) : List.Forall₂ SameText texts texts :=
  List.forall₂_same.mpr fun text _ => .refl text

/-- Statements that say the same declare the same labels and count the same steps. -/
theorem Statement.Same.declarations_cons {s s' : Statement} (same : s.Same s') (count : Nat)
    (rest : List Statement) : declarations count (s' :: rest) = declarations count (s :: rest) := by
  cases same with
  | refl => rfl
  | step same => rfl

theorem Statement.Same.stepTexts_cons {s s' : Statement} (same : s.Same s')
    (rest : List Statement) :
    List.Forall₂ SameText (stepTexts (s :: rest)) (stepTexts (s' :: rest)) := by
  cases same with
  | refl => exact forall₂_sameText_refl _
  | step same => exact .cons same (forall₂_sameText_refl _)

theorem map_ofText_of_forall₂ {texts texts' : List (List Char)} {labels : LabelTable}
    (same : List.Forall₂ SameText texts texts')
    (spelled : texts.map (Instruction.ofText labels) = steps.map .ok) :
    texts'.map (Instruction.ofText labels) = steps.map .ok := by
  induction same generalizing steps with
  | nil => exact spelled
  | cons first _ ih =>
    cases steps with
    | nil => cases spelled
    | cons step steps =>
      rw [List.map_cons, List.map_cons, List.cons.injEq] at spelled ⊢
      exact ⟨(first labels step).mp spelled.1, ih spelled.2⟩

/-- Only the declarations of a source and the instructions of its steps matter. -/
theorem Assembles.congr (assembles : Assembles lines m steps)
    (same : declarations 0 (statements lines') = declarations 0 (statements lines))
    (texts : List.Forall₂ SameText (stepTexts (statements lines)) (stepTexts (statements lines'))) :
    Assembles lines' m steps where
  accepted := by
    obtain ⟨named, fresh, once, few⟩ := assembles.accepted
    rw [← same] at named fresh once
    rw [texts.length_eq] at few
    exact ⟨named, fresh, once, few⟩
  labels := by
    rw [same]
    exact assembles.labels
  spelled := map_ofText_of_forall₂ texts assembles.spelled
  code := assembles.code

/-- A source written otherwise assembles to the same machine code. -/
theorem Edited.assembles (edited : Edited lines lines') (assembles : Assembles lines m steps) :
    Assembles lines' m steps := by
  cases edited with
  | @silent line front back silent =>
    have blank := ofLine_of_silent silent
    apply assembles.congr
    · rw [statements_append, statements_append, Survey.statements_cons, blank, declarations_append,
        declarations_append, declarations]
    · simp only [statements_append, Survey.statements_cons, blank, stepTexts_append, stepTexts]
      exact forall₂_sameText_refl _
  | @relaid line line' front back relaid =>
    have same := relaid.same
    apply assembles.congr
    · simp only [statements_append, Survey.statements_cons, declarations_append,
        same.declarations_cons]
    · simp only [statements_append, Survey.statements_cons, stepTexts_append]
      exact List.rel_append (forall₂_sameText_refl _) (same.stepTexts_cons _)

theorem assemble_of_edits {lines lines' : List String}
    (edits : Relation.ReflTransGen Edited lines lines') (accepted : assemble lines = .ok m) :
    assemble lines' = .ok m := by
  induction edits with
  | refl => exact accepted
  | tail _ edited ih =>
    obtain ⟨steps, assembles⟩ := assemble_eq_ok_iff.mp ih
    exact assemble_eq_ok_iff.mpr ⟨steps, edited.assembles assembles⟩

end Sources

namespace Assembler

section Runs

variable {a : Assembler}

theorem run_goTo (line : Nat) : (goTo line).run a = .ok () { a with line } :=
  rfl

theorem run_get : (get : Work Assembler).run a = .ok a a :=
  rfl

theorem run_declare_ok {name : List Char} {steps : Nat} {labels : LabelTable}
    (declared : declareLabel a.labels name steps = .ok labels) :
    (declare name steps).run a = .ok () { a with labels } := by
  unfold declare
  rw [run_bind_ok run_get, declared]
  rfl

theorem run_declare_error {name : List Char} {steps : Nat} {mistake : Mistake}
    (refused : declareLabel a.labels name steps = .error mistake) :
    (declare name steps).run a = .error ⟨a.line, mistake⟩ a := by
  unfold declare
  rw [run_bind_ok run_get, refused]
  rfl

/-- The first reading in place finds what the plain one does. -/
theorem run_collect (lines : List String) {s : Survey} (labels : a.labels = s.labels) :
    (∃ s' line, lines.foldlM Survey.read s = .ok s' ∧
      (collect lines (s.line + 1) s.steps).run a =
        .ok s'.steps { a with line, labels := s'.labels }) ∨
    ∃ error a', lines.foldlM Survey.read s = .error error ∧
      (collect lines (s.line + 1) s.steps).run a = .error error a' := by
  induction lines generalizing a s with
  | nil =>
    refine .inl ⟨s, a.line, rfl, ?_⟩
    rw [← labels]
    rfl
  | cons line lines ih =>
    rw [List.foldlM_cons, collect, run_bind_ok (run_goTo _)]
    cases means : Statement.ofLine line with
    | blank =>
      rw [Survey.read_blank means, ok_bind]
      exact ih (a := { a with line := s.line + 1 }) (s := { s with line := s.line + 1 }) labels
    | label name =>
      simp only [Survey.read, means]
      cases declared : declareLabel s.labels name s.steps.size with
      | error mistake =>
        rw [← labels] at declared
        exact .inr ⟨_, _, rfl, run_bind_error (run_declare_error declared)⟩
      | ok grown =>
        rw [← labels] at declared
        have next : (declare name s.steps.size).run { a with line := s.line + 1 } =
            .ok () { a with line := s.line + 1, labels := grown } := run_declare_ok declared
        rw [ok_bind, run_bind_ok next]
        exact ih (a := { a with line := s.line + 1, labels := grown })
          (s := { s with line := s.line + 1, labels := grown }) rfl
    | step text =>
      simp only [Survey.read, means]
      by_cases full : maxSteps ≤ s.steps.size
      · rw [if_pos full, if_pos full]
        exact .inr ⟨_, _, rfl, rfl⟩
      · rw [if_neg full, if_neg full, ok_bind]
        exact ih (a := { a with line := s.line + 1 })
          (s := { s with line := s.line + 1, steps := s.steps.push (s.line + 1, text) }) labels

/-- A step in place adds its bytes, or stops at the mistake that its text has. -/
theorem run_emitStep (text : List Char) :
    (∃ step, Instruction.ofText a.labels text = .ok step ∧
      (emitStep text).run a = .ok () { a with code := a.code ++ step.encode.toArray }) ∨
    ∃ mistake a', Instruction.ofText a.labels text = .error mistake ∧
      (emitStep text).run a = .error ⟨a.line, mistake⟩ a' := by
  unfold emitStep Instruction.ofText
  dsimp only
  cases Op.ofMnemonic? (splitFirst text).1 with
  | none => exact .inr ⟨_, a, rfl, rfl⟩
  | some op =>
    dsimp only
    rw [run_bind_ok run_get]
    cases takeOperands op a.labels (words (splitFirst text).2) op.shape with
    | error mistake => exact .inr ⟨mistake, a, rfl, rfl⟩
    | ok found =>
      obtain ⟨operands, left⟩ := found
      cases left with
      | nil => exact .inl ⟨⟨op, operands⟩, rfl, rfl⟩
      | cons extra left => exact .inr ⟨_, _, rfl, rfl⟩

/-- The second reading in place adds the bytes of the plain one. -/
theorem run_emit (texts : List (Nat × List Char)) :
    (∃ steps line, texts.mapM (spell a.labels) = .ok steps ∧
      (emit texts).run a =
        .ok () { a with line, code := a.code ++ (steps.flatMap Instruction.encode).toArray }) ∨
    ∃ error a', texts.mapM (spell a.labels) = .error error ∧
      (emit texts).run a = .error error a' := by
  induction texts generalizing a with
  | nil =>
    refine .inl ⟨[], a.line, rfl, ?_⟩
    rw [List.flatMap_nil, Array.append_empty]
    rfl
  | cons text texts ih =>
    obtain ⟨number, text⟩ := text
    rw [List.mapM_cons, emit, run_bind_ok (run_goTo _)]
    rcases run_emitStep text (a := { a with line := number }) with
      ⟨step, found, runs⟩ | ⟨mistake, a', found, runs⟩
    · have first : spell a.labels (number, text) = .ok step := by
        rw [spell, found]
        rfl
      rw [first, ok_bind, run_bind_ok runs]
      rcases ih (a := { a with line := number, code := a.code ++ step.encode.toArray }) with
        ⟨steps, line, spelled, runs⟩ | ⟨error, a', refused, runs⟩
      · refine .inl ⟨step :: steps, line, ?_, ?_⟩
        · rw [spelled, ok_bind]
          rfl
        · rw [List.flatMap_cons, ← List.append_toArray, ← Array.append_assoc]
          exact runs
      · rw [refused, error_bind]
        exact .inr ⟨error, a', rfl, runs⟩
    · have refused : spell a.labels (number, text) = .error ⟨number, mistake⟩ := by
        rw [spell, found]
        rfl
      rw [refused, error_bind]
      exact .inr ⟨_, a', rfl, run_bind_error runs⟩

/-- Assembling in place makes of a program what the program stands for, or stops at the same
mistake. -/
theorem run_assemble (a : Assembler) (lines : List String) :
    (∃ m a', Formicary.assemble lines = .ok m ∧ (assemble lines).run a = .ok m a') ∨
    ∃ error a', Formicary.assemble lines = .error error ∧
      (assemble lines).run a = .error error a' := by
  have cleared : (set new : Work Unit).run a = .ok () new := rfl
  unfold assemble
  rw [run_bind_ok cleared]
  unfold Formicary.assemble survey
  rcases run_collect lines (show new.labels = Survey.start.labels from rfl) with
    ⟨s, line, surveyed, runs⟩ | ⟨error, a', refused, runs⟩
  · have first : (collect lines 1 #[]).run new =
        .ok s.steps { new with line, labels := s.labels } := runs
    rw [surveyed, run_bind_ok first]
    rcases run_emit s.steps.toList (a := { new with line, labels := s.labels }) with
      ⟨steps, last, spelled, runs⟩ | ⟨error, a', refused, runs⟩
    · have found : s.instructions = .ok steps := spelled
      rw [run_bind_ok runs, run_bind_ok run_get]
      refine .inl ⟨⟨(new.code ++ (steps.flatMap Instruction.encode).toArray).toList, s.labels⟩,
        { new with line := last }, ?_, rfl⟩
      simp [found, new, Except.map]
    · have found : s.instructions = .error error := refused
      simp only [found]
      exact .inr ⟨error, a', rfl, run_bind_error runs⟩
  · have first : (collect lines 1 #[]).run new = .error error a' := runs
    rw [refused]
    exact .inr ⟨error, a', rfl, run_bind_error first⟩

end Runs

/-- What an assembler was used for before makes no difference. -/
theorem use_eq (a : Assembler) (lines : List String) :
    (a.use lines).1 = Formicary.assemble lines := by
  unfold use
  rcases run_assemble a lines with ⟨m, a', made, runs⟩ | ⟨error, a', refused, runs⟩
  · rw [runs, made]
  · rw [runs, refused]

/-- An assembler after some programs, one after the other. -/
def after (a : Assembler) (sources : List (List String)) : Assembler :=
  sources.foldl (fun a lines => (a.use lines).2) a

end Assembler

/-- A program that is accepted is accepted in every other layout, with mnemonics, registers and
channels in any case, and stands for the same machine code. An assembler gives the same code whether
it is new or was used for other programs before, with or without success. -/
theorem assemble_ignores_layout {lines lines' : List String} {m : MachineCode}
    (edits : Relation.ReflTransGen Edited lines lines') (accepted : assemble lines = .ok m) :
    assemble lines' = .ok m ∧
      ∀ earlier : List (List String),
        ((Assembler.new.after earlier).use lines').1 = (Assembler.new.use lines').1 ∧
        ((Assembler.new.after earlier).use lines').1 = .ok m := by
  have made := assemble_of_edits edits accepted
  refine ⟨made, ?_⟩
  intro earlier
  rw [Assembler.use_eq, Assembler.use_eq]
  exact ⟨rfl, made⟩

theorem assemble_ignores_layout_countdown :
    ∃ m, assemble ["loop:", "LOAD A 5", "JMP loop"] = .ok m ∧
      assemble ["# five", "  loop:", "load\u3000\ta 5", "JMP loop# LOAD:"] = .ok m ∧
      ((Assembler.new.after [["loop:", "loop:"]]).use
        ["# five", "  loop:", "load\u3000\ta 5", "JMP loop# LOAD:"]).1 = .ok m ∧
      m.code.length = 8 := by
  have heading : Edited ["loop:", "LOAD A 5", "JMP loop"]
      ["# five", "loop:", "LOAD A 5", "JMP loop"] := .silent [] _ (by decide +kernel)
  have indented : Relaid "loop:" ("  " ++ "loop:" ++ "") := by
    apply Relaid.around <;> decide +kernel
  have loads : (words (content ("" ++ "LOAD" ++ " A 5"))).head?.bind Op.ofMnemonic? =
      some .load := by decide +kernel
  have mnemonic : Relaid ("" ++ "LOAD" ++ " A 5") ("" ++ "load" ++ " A 5") := by
    refine .recase ?_ loads ?_ ?_ ?_ ?_ ?_ ?_ <;> decide +kernel
  have still : (words (content ("load " ++ "A" ++ " 5"))).head?.bind Op.ofMnemonic? =
      some .load := by decide +kernel
  have register : Relaid ("load " ++ "A" ++ " 5") ("load " ++ "a" ++ " 5") := by
    refine .recase ?_ still ?_ ?_ ?_ ?_ ?_ ?_ <;> decide +kernel
  have spaced : Relaid ("load" ++ " " ++ "a 5") ("load" ++ "\u3000\t" ++ "a 5") := by
    apply Relaid.gap <;> decide +kernel
  have explained : Relaid "JMP loop" ("JMP loop" ++ "#" ++ " LOAD:") := .comment _ _
  have edits : Relation.ReflTransGen Edited ["loop:", "LOAD A 5", "JMP loop"]
      ["# five", "  loop:", "load\u3000\ta 5", "JMP loop# LOAD:"] :=
    ((((((Relation.ReflTransGen.single heading).tail (.relaid ["# five"] _ indented)).tail
      (.relaid ["# five", "  loop:"] _ mnemonic)).tail
      (.relaid ["# five", "  loop:"] _ register)).tail
      (.relaid ["# five", "  loop:"] _ spaced)).tail
      (.relaid ["# five", "  loop:", "load\u3000\ta 5"] _ explained))
  have seen : (assemble ["loop:", "LOAD A 5", "JMP loop"]).toOption.map (·.code.length) =
      some 8 := by
    decide +kernel
  cases accepted : assemble ["loop:", "LOAD A 5", "JMP loop"] with
  | error e =>
    rw [accepted] at seen
    cases seen
  | ok m =>
    rw [accepted] at seen
    obtain ⟨same, reused⟩ := assemble_ignores_layout edits accepted
    exact ⟨m, rfl, same, (reused _).2, Option.some.inj seen⟩

end Formicary
