import Formicary.Proofs.Operands

/-!
# How the lines of a listing are read

A line of a listing is a label with a colon behind it, or a mnemonic with words behind it. Most
words of a listing are plain and survive any reading. Labels need not be: a comment mark in a label
hides the rest of its lines, and a jump to a label with a colon at its end looks like a declaration.
-/

namespace Formicary

open Text

namespace Statement

theorem ofLine_eq_blank {line : String} (h : trim (beforeComment line.toList) = []) :
    ofLine line = .blank := by
  simp [ofLine, h]

theorem ofLine_eq_label {line : String} {cs : List Char}
    (h : trim (beforeComment line.toList) = cs ++ [':']) : ofLine line = .label (trim cs) := by
  simp [ofLine, h]

theorem ofLine_eq_step {line : String} {text : List Char} {last : Char}
    (h : trim (beforeComment line.toList) = text) (found : text.getLast? = some last)
    (open_end : last ≠ ':') : ofLine line = .step text := by
  simp [ofLine, h, found, open_end]

/-- A line is read by what stands at its end. -/
theorem ofLine_cases (line : String) :
    (trim (beforeComment line.toList) = [] ∧ ofLine line = .blank) ∨
    (∃ cs, trim (beforeComment line.toList) = cs ++ [':'] ∧ ofLine line = .label (trim cs)) ∨
    (∃ last, (trim (beforeComment line.toList)).getLast? = some last ∧ last ≠ ':' ∧
      ofLine line = .step (trim (beforeComment line.toList))) := by
  rcases List.eq_nil_or_concat (trim (beforeComment line.toList)) with empty | ⟨cs, last, text⟩
  · exact .inl ⟨empty, ofLine_eq_blank empty⟩
  · rw [List.concat_eq_append] at text
    by_cases colon : last = ':'
    · subst colon
      exact .inr (.inl ⟨cs, text, ofLine_eq_label text⟩)
    · have found : (trim (beforeComment line.toList)).getLast? = some last := by simp [text]
      exact .inr (.inr ⟨last, found, colon, ofLine_eq_step rfl found colon⟩)

theorem not_mem_of_ofLine_label {line : String} {word : List Char}
    (h : ofLine line = .label word) : '#' ∉ word := by
  rcases ofLine_cases line with ⟨-, means⟩ | ⟨cs, text, means⟩ | ⟨last, -, -, means⟩
  · simp [h] at means
  · rw [h] at means
    cases means
    intro marked
    have shown : '#' ∈ trim (beforeComment line.toList) := by
      rw [text]
      exact List.mem_append_left _ (mem_of_mem_trim marked)
    exact not_mem_beforeComment _ (mem_of_mem_trim shown)
  · simp [h] at means

/-- A label line declares its label without the outer blanks. -/
theorem ofLine_colon {name : String} (unmarked : '#' ∉ name.toList) :
    ofLine (name ++ ":") = .label (trim name.toList) := by
  have colon : isBlank ':' = false := by decide
  have text : trim (beforeComment (name ++ ":").toList) = trimStart name.toList ++ [':'] := by
    rw [String.toList_append, beforeComment_append unmarked]
    exact trim_append_solid _ colon
  rw [ofLine_eq_label text, trim_trimStart]

/-- A comment mark in a label hides the colon. -/
theorem ofLine_colon_of_mem {name : String} (marked : '#' ∈ name.toList) :
    ofLine (name ++ ":") = ofLine name := by
  unfold ofLine
  rw [String.toList_append, beforeComment_append_of_mem marked]

/-- Whether a statement holds an instruction, given what the labels name. -/
def Spells (labels : LabelTable) (i : Instruction) (s : Statement) : Prop :=
  ∃ text, s = .step text ∧ Instruction.ofText labels text = .ok i

end Statement

theorem Op.isPlain_mnemonic (op : Op) : IsPlain op.mnemonic.toList := by
  apply isPlain_of_all
  cases op <;> rfl

theorem Op.ofMnemonic?_mnemonic (op : Op) : ofMnemonic? op.mnemonic.toList = some op := by
  cases op <;> rfl

namespace Instruction

/-- An instruction is read from a mnemonic and as many words as its shape takes. -/
theorem ofText_eq_ok_iff {labels : LabelTable} {text : List Char} {i : Instruction} :
    ofText labels text = .ok i ↔
      Op.ofMnemonic? (splitFirst text).1 = some i.op ∧
        i.operands.Reads labels (words (splitFirst text).2) := by
  rw [← Operands.takeOperands_eq_ok_iff i.op]
  unfold ofText
  dsimp only
  split
  · next unknown => simp [unknown]
  · next op known =>
    rw [known, Option.some.injEq]
    constructor
    · intro h
      cases taken : takeOperands op labels (words (splitFirst text).2) op.shape with
      | error e =>
        rw [taken] at h
        cases h
      | ok found =>
        obtain ⟨operands, left⟩ := found
        rw [taken] at h
        cases left with
        | nil =>
          cases h
          exact ⟨rfl, taken⟩
        | cons extra left => cases h
    · rintro ⟨rfl, taken⟩
      rw [taken]
      rfl

theorem toList_toLine (nameAt? : UInt16 → Option String) (i : Instruction) :
    (i.toLine nameAt?).toList =
      i.op.mnemonic.toList ++ spaced ((i.operands.toWords nameAt?).map String.toList) := by
  have joined (ws : List String) (first : String) :
      (" ".intercalate (first :: ws)).toList = first.toList ++ spaced (ws.map String.toList) := by
    induction ws generalizing first with
    | nil => simp [spaced]
    | cons w ws ih =>
      rw [String.intercalate_cons_cons]
      simp [spaced, ih]
  exact joined _ _

/-- The words behind a mnemonic make its operands. -/
theorem ofText_mnemonic_append {labels : LabelTable} {i : Instruction} {rest : List Char}
    (separate : ∀ c ∈ rest.head?, isBlank c = true) :
    ofText labels (i.op.mnemonic.toList ++ rest) = .ok i ↔ i.operands.Reads labels (words rest) := by
  rw [ofText_eq_ok_iff, splitFirst_word_append i.op.isPlain_mnemonic.toIsWord separate]
  simp [i.op.ofMnemonic?_mnemonic]

end Instruction

section Plain

theorem IsPlain.exists_last {w : List Char} (h : IsPlain w) :
    ∃ cs last, w = cs ++ [last] ∧ isBlank last = false ∧ last ≠ ':' := by
  rcases List.eq_nil_or_concat w with empty | ⟨cs, last, shape⟩
  · exact absurd empty h.ne_nil
  · rw [List.concat_eq_append] at shape
    refine ⟨cs, last, shape, h.solid last (by simp [shape]), ?_⟩
    rintro rfl
    exact h.open_end (by simp [shape])

/-- Plain words with single blanks between them end as their last word does. -/
theorem exists_last_append_spaced {w : List Char} {ws : List (List Char)} (first : IsPlain w)
    (others : ∀ v ∈ ws, IsPlain v) :
    ∃ cs last, w ++ spaced ws = cs ++ [last] ∧ isBlank last = false ∧ last ≠ ':' := by
  rcases List.eq_nil_or_concat ws with rfl | ⟨vs, v, rfl⟩
  · simpa [spaced] using first.exists_last
  · obtain ⟨cs, last, rfl, solid, open_end⟩ := (others v (by simp)).exists_last
    exact ⟨w ++ spaced vs ++ ' ' :: cs, last, by simp [spaced], solid, open_end⟩

theorem not_mem_append_spaced {w : List Char} {ws : List (List Char)} (first : IsPlain w)
    (others : ∀ v ∈ ws, IsPlain v) : '#' ∉ w ++ spaced ws := by
  intro member
  rcases List.mem_append.mp member with member | member
  · exact first.unmarked member
  · obtain ⟨v, inside, member⟩ := List.mem_flatMap.mp member
    rcases List.mem_cons.mp member with mark | member
    · exact absurd mark (by decide)
    · exact (others v inside).unmarked member

theorem ofLine_of_plain {line : String} {w : List Char} {ws : List (List Char)}
    (shape : line.toList = w ++ spaced ws) (first : IsPlain w) (others : ∀ v ∈ ws, IsPlain v) :
    Statement.ofLine line = .step line.toList := by
  obtain ⟨cs, last, ends, solid, open_end⟩ := exists_last_append_spaced first others
  have text : trim (beforeComment line.toList) = line.toList := by
    rw [shape, beforeComment_of_not_mem (not_mem_append_spaced first others)]
    conv_lhs => rw [ends, trim_append_solid _ solid, ← trimStart_append_solid _ solid, ← ends]
    exact trimStart_word_append first.toIsWord _
  exact Statement.ofLine_eq_step text (by rw [shape, ends]; simp) open_end

end Plain

/-- An instruction is read back from its line, if the word of its target is plain and means the
target. -/
theorem spells_toLine {labels : LabelTable} {nameAt? : UInt16 → Option String} {i : Instruction}
    (plain : ∀ step ∈ i.target?, IsPlain (Operands.targetWord nameAt? step).toList)
    (known : ∀ step ∈ i.target?,
      readTarget? labels (Operands.targetWord nameAt? step).toList = some step) :
    (Statement.ofLine (i.toLine nameAt?)).Spells labels i := by
  have others : ∀ v ∈ (i.operands.toWords nameAt?).map String.toList, IsPlain v := by
    intro v member
    obtain ⟨w, inside, rfl⟩ := List.mem_map.mp member
    exact Operands.isPlain_toWords plain inside
  have separate : ∀ c ∈ (spaced ((i.operands.toWords nameAt?).map String.toList)).head?,
      isBlank c = true := by
    cases i.operands.toWords nameAt? with
    | nil => simp [spaced]
    | cons w ws => simp [spaced]; decide
  refine ⟨_, ofLine_of_plain (i.toList_toLine nameAt?) i.op.isPlain_mnemonic others, ?_⟩
  rw [i.toList_toLine, Instruction.ofText_mnemonic_append separate,
    words_spaced fun w member => (others w member).toIsWord]
  exact Operands.reads_toWords known

section Jumps

variable {nameAt? : UInt16 → Option String} {i : Instruction} {step : UInt16} {name : String}

theorem toWords_of_target? {s : Shape} {o : Operands s} (jumps : o.target? = some step) :
    o.toWords nameAt? = [Operands.targetWord nameAt? step] := by
  cases o with
  | target t =>
    cases jumps
    rfl
  | _ => cases jumps

theorem reads_target {s : Shape} {o : Operands s} (jumps : o.target? = some step)
    {labels : LabelTable} {ws : List (List Char)} :
    o.Reads labels ws ↔ ∃ w, ws = [w] ∧ readTarget? labels w = some step := by
  cases o with
  | target t =>
    cases jumps
    rfl
  | _ => cases jumps

theorem toList_toLine_jump (jumps : i.target? = some step) (named : nameAt? step = some name) :
    (i.toLine nameAt?).toList = i.op.mnemonic.toList ++ ' ' :: name.toList := by
  rw [i.toList_toLine, toWords_of_target? jumps]
  simp [Operands.targetWord, named, spaced]

theorem getLast?_word_append (w cs : List Char) :
    (w ++ (' ' :: cs).rdropWhile isBlank).getLast? = (trim cs).getLast?.or w.getLast? := by
  induction cs using List.reverseRecOn with
  | nil => simp [trim_nil, List.rdropWhile, show isBlank ' ' = true by decide]
  | append_singleton cs c ih =>
    rw [← List.cons_append]
    cases blank : isBlank c with
    | true => rw [List.rdropWhile_concat_pos _ _ _ blank, ih, trim_append_blank _ blank]
    | false =>
      rw [rdropWhile_concat_solid _ blank, trim_append_solid _ blank, ← List.append_assoc,
        List.getLast?_concat, List.getLast?_concat, Option.some_or]

/-- The text of a jump line: of the label, what stands before a comment mark. -/
theorem text_jump (jumps : i.target? = some step) (named : nameAt? step = some name) :
    trim (beforeComment (i.toLine nameAt?).toList) =
      i.op.mnemonic.toList ++ (' ' :: beforeComment name.toList).rdropWhile isBlank := by
  have space : beforeComment (' ' :: name.toList) = ' ' :: beforeComment name.toList := by
    simp [beforeComment]
  rw [toList_toLine_jump jumps named, beforeComment_append i.op.isPlain_mnemonic.unmarked, space,
    trim_word_append i.op.isPlain_mnemonic.toIsWord]

/-- A jump line is taken for a label when the name of its target ends like one. -/
theorem ofLine_jump_eq_label (jumps : i.target? = some step) (named : nameAt? step = some name)
    (colon : (trim (beforeComment name.toList)).getLast? = some ':') :
    ∃ word, Statement.ofLine (i.toLine nameAt?) = .label word := by
  have ends := getLast?_word_append i.op.mnemonic.toList (beforeComment name.toList)
  rw [colon, Option.some_or, ← text_jump jumps named] at ends
  obtain ⟨cs, shape⟩ := List.getLast?_eq_some_iff.mp ends
  exact ⟨_, Statement.ofLine_eq_label shape⟩

theorem ofLine_jump_eq_step (jumps : i.target? = some step) (named : nameAt? step = some name)
    (open_end : (trim (beforeComment name.toList)).getLast? ≠ some ':') :
    Statement.ofLine (i.toLine nameAt?) =
      .step (i.op.mnemonic.toList ++ (' ' :: beforeComment name.toList).rdropWhile isBlank) := by
  have ends := getLast?_word_append i.op.mnemonic.toList (beforeComment name.toList)
  obtain ⟨cs, last, mnemonic, -, no_colon⟩ := i.op.isPlain_mnemonic.exists_last
  cases found : (trim (beforeComment name.toList)).getLast? with
  | none =>
    rw [found, Option.none_or, mnemonic, List.getLast?_concat, ← mnemonic] at ends
    exact Statement.ofLine_eq_step (text_jump jumps named) ends no_colon
  | some c =>
    rw [found, Option.some_or] at ends
    refine Statement.ofLine_eq_step (text_jump jumps named) ends ?_
    rintro rfl
    exact open_end found

/-- A jump line that is read as a step means its target when the label is one known word. -/
theorem spells_jump (jumps : i.target? = some step) (named : nameAt? step = some name)
    (open_end : (trim (beforeComment name.toList)).getLast? ≠ some ':') {labels : LabelTable} :
    (Statement.ofLine (i.toLine nameAt?)).Spells labels i ↔
      ∃ w, words (beforeComment name.toList) = [w] ∧ readTarget? labels w = some step := by
  rw [ofLine_jump_eq_step jumps named open_end]
  have separate : ∀ c ∈ ((' ' :: beforeComment name.toList).rdropWhile isBlank).head?,
      isBlank c = true := by
    intro c first
    obtain ⟨behind, split⟩ := List.rdropWhile_prefix isBlank (' ' :: beforeComment name.toList)
    cases text : (' ' :: beforeComment name.toList).rdropWhile isBlank with
    | nil => simp [text] at first
    | cons d cs =>
      rw [text] at split first
      cases first
      obtain ⟨rfl, -⟩ := List.cons.inj split
      decide
  have step_text : ∀ text, (Statement.step text).Spells labels i ↔
      Instruction.ofText labels text = .ok i := by
    simp [Statement.Spells]
  rw [step_text, Instruction.ofText_mnemonic_append separate, words_rdropWhile,
    words_cons_blank (by decide), reads_target jumps]

end Jumps

end Formicary
