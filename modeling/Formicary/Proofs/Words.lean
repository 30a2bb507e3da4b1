import Mathlib.Data.List.DropRight
import Mathlib.Data.List.TakeDrop
import Formicary.Text.Blank

/-!
# The words of a line

A line is cut at its first comment mark, loses its outer blanks, and falls apart into words at the
blanks inside. None of this changes a line that is already put together from words with single
blanks between them; of any other line, only the words matter.
-/

namespace Formicary.Text

/-- A word: at least one character and no blank. -/
structure IsWord (w : List Char) : Prop where
  ne_nil : w ≠ []
  solid : ∀ c ∈ w, isBlank c = false

theorem IsWord.head_solid {c : Char} {cs : List Char} (h : IsWord (c :: cs)) : isBlank c = false :=
  h.solid c (by simp)

section Trim

theorem trim_eq (cs : List Char) : trim cs = (trimStart cs).rdropWhile isBlank := rfl

theorem trimStart_word_append {w : List Char} (h : IsWord w) (cs : List Char) :
    trimStart (w ++ cs) = w ++ cs := by
  cases w with
  | nil => exact absurd rfl h.ne_nil
  | cons c w => simp [trimStart, h.head_solid]

theorem rdropWhile_word_append {w : List Char} (h : IsWord w) (cs : List Char) :
    (w ++ cs).rdropWhile isBlank = w ++ cs.rdropWhile isBlank := by
  induction cs using List.reverseRecOn with
  | nil =>
    rw [List.append_nil, List.rdropWhile_nil, List.append_nil, List.rdropWhile_eq_self_iff]
    intro ne_nil
    simp [h.solid _ (List.getLast_mem ne_nil)]
  | append_singleton cs c ih =>
    rw [← List.append_assoc, List.rdropWhile_concat, List.rdropWhile_concat, ih]
    split <;> simp

/-- Only blanks at the end are lost behind a word. -/
theorem trim_word_append {w : List Char} (h : IsWord w) (cs : List Char) :
    trim (w ++ cs) = w ++ cs.rdropWhile isBlank := by
  rw [trim_eq, trimStart_word_append h, rdropWhile_word_append h]

theorem trim_word {w : List Char} (h : IsWord w) : trim w = w := by
  simpa using trim_word_append h []

theorem trim_nil : trim [] = [] := rfl

/-- A text that ends in a character other than a blank keeps that end. -/
theorem rdropWhile_concat_solid (cs : List Char) {c : Char} (h : isBlank c = false) :
    (cs ++ [c]).rdropWhile isBlank = cs ++ [c] := by
  simp [h]

theorem trimStart_append_solid (cs : List Char) {c : Char} (h : isBlank c = false) :
    trimStart (cs ++ [c]) = trimStart cs ++ [c] := by
  unfold trimStart
  induction cs with
  | nil => simp [h]
  | cons d cs ih =>
    simp only [List.cons_append, List.dropWhile_cons]
    split
    · exact ih
    · rfl

theorem trim_append_solid (cs : List Char) {c : Char} (h : isBlank c = false) :
    trim (cs ++ [c]) = trimStart cs ++ [c] := by
  rw [trim_eq, trimStart_append_solid cs h, rdropWhile_concat_solid _ h]

theorem trim_append_blank (cs : List Char) {b : Char} (h : isBlank b = true) :
    trim (cs ++ [b]) = trim cs := by
  simp only [trim_eq, trimStart, List.dropWhile_append]
  split
  · next empty => simp [List.isEmpty_iff.mp empty, h]
  · rw [List.rdropWhile_concat_pos _ _ _ h]

theorem trimStart_trimStart (cs : List Char) : trimStart (trimStart cs) = trimStart cs :=
  List.dropWhile_idempotent _ _

theorem trim_trimStart (cs : List Char) : trim (trimStart cs) = trim cs := by
  rw [trim_eq, trimStart_trimStart, ← trim_eq]

theorem mem_of_mem_trim {c : Char} {cs : List Char} (h : c ∈ trim cs) : c ∈ cs := by
  rw [trim_eq] at h
  exact (List.dropWhile_sublist isBlank).subset ((List.rdropWhile_prefix isBlank _).subset h)

end Trim

section Words

theorem stretches_ne_nil (cs : List Char) : stretches isBlank cs ≠ [] := by
  cases cs with
  | nil => simp [stretches]
  | cons c cs =>
    simp only [stretches]
    split
    · simp
    · split <;> simp

theorem stretches_append_blank (cs ds : List Char) {b : Char} (h : isBlank b = true) :
    stretches isBlank (cs ++ b :: ds) = stretches isBlank cs ++ stretches isBlank ds := by
  induction cs with
  | nil => simp [stretches, h]
  | cons c cs ih =>
    obtain ⟨w, ws, eq⟩ := List.exists_cons_of_ne_nil (stretches_ne_nil cs)
    simp only [List.cons_append, stretches, ih, eq]
    split <;> simp

/-- Blanks separate words. -/
theorem words_append_blank (cs ds : List Char) {b : Char} (h : isBlank b = true) :
    words (cs ++ b :: ds) = words cs ++ words ds := by
  simp [words, stretches_append_blank cs ds h]

@[simp] theorem words_nil : words [] = [] := rfl

theorem words_cons_blank {b : Char} (h : isBlank b = true) (cs : List Char) :
    words (b :: cs) = words cs := by
  simpa using words_append_blank [] cs h

theorem words_concat_blank (cs : List Char) {b : Char} (h : isBlank b = true) :
    words (cs ++ [b]) = words cs := by
  simpa using words_append_blank cs [] h

theorem stretches_solid {w : List Char} (h : ∀ c ∈ w, isBlank c = false) :
    stretches isBlank w = [w] := by
  induction w with
  | nil => rfl
  | cons c w ih =>
    have rest : stretches isBlank w = [w] := ih fun d member => h d (by simp [member])
    simp [stretches, h c (by simp), rest]

theorem words_word {w : List Char} (h : IsWord w) : words w = [w] := by
  simp [words, stretches_solid h.solid, h.ne_nil]

theorem words_trimStart (cs : List Char) : words (trimStart cs) = words cs := by
  induction cs with
  | nil => rfl
  | cons c cs ih =>
    by_cases blank : isBlank c = true
    · rw [words_cons_blank blank, ← ih]
      simp [trimStart, blank]
    · simp [trimStart, blank]

theorem words_rdropWhile (cs : List Char) : words (cs.rdropWhile isBlank) = words cs := by
  induction cs using List.reverseRecOn with
  | nil => rfl
  | append_singleton cs c ih =>
    by_cases blank : isBlank c = true
    · rw [List.rdropWhile_concat_pos _ _ _ blank, ih, words_concat_blank cs blank]
    · rw [List.rdropWhile_concat_neg _ _ _ blank]

/-- Outer blanks do not matter for the words of a text. -/
theorem words_trim (cs : List Char) : words (trim cs) = words cs := by
  rw [trim_eq, words_rdropWhile, words_trimStart]

/-- Words with a single blank before each. -/
def spaced (ws : List (List Char)) : List Char :=
  ws.flatMap (' ' :: ·)

/-- Words with single blanks between them are read back. -/
theorem words_spaced {ws : List (List Char)} (h : ∀ w ∈ ws, IsWord w) : words (spaced ws) = ws := by
  induction ws with
  | nil => rfl
  | cons w ws ih =>
    have rest : words (spaced ws) = ws := ih fun v member => h v (by simp [member])
    have first : words w = [w] := words_word (h w (by simp))
    have blank : isBlank ' ' = true := by decide
    cases ws with
    | nil =>
      rw [show spaced [w] = ' ' :: w by simp [spaced], words_cons_blank blank, first]
    | cons v ws =>
      have shape : spaced (w :: v :: ws) = ' ' :: (w ++ ' ' :: (v ++ spaced ws)) := by
        simp [spaced]
      have tail : words (v ++ spaced ws) = v :: ws := by
        rw [← words_cons_blank blank]
        simpa [spaced] using rest
      rw [shape, words_cons_blank blank, words_append_blank _ _ blank, first, tail]
      rfl

/-- The first word of a text, when a blank or the end follows it. -/
theorem splitFirst_word_append {w : List Char} (h : IsWord w) {cs : List Char}
    (separate : ∀ c ∈ cs.head?, isBlank c = true) : splitFirst (w ++ cs) = (w, cs) := by
  have all_solid : ∀ c ∈ w, (!isBlank c) = true := by
    intro c member
    simp [h.solid c member]
  have stop : cs.takeWhile (fun c => !isBlank c) = [] ∧ cs.dropWhile (fun c => !isBlank c) = cs := by
    cases cs with
    | nil => simp
    | cons c cs => simp [separate c (by simp)]
  rw [splitFirst, List.span_eq_takeWhile_dropWhile, List.takeWhile_append_of_pos all_solid,
    List.dropWhile_append_of_pos all_solid, stop.1, stop.2, List.append_nil]

end Words

section Comments

theorem beforeComment_append {cs : List Char} (h : '#' ∉ cs) (ds : List Char) :
    beforeComment (cs ++ ds) = cs ++ beforeComment ds := by
  unfold beforeComment
  rw [List.takeWhile_append_of_pos]
  intro c member
  simp only [bne_iff_ne]
  rintro rfl
  exact h member

theorem beforeComment_of_not_mem {cs : List Char} (h : '#' ∉ cs) : beforeComment cs = cs := by
  simpa [beforeComment] using beforeComment_append h []

/-- What stands behind a comment mark does not matter. -/
theorem beforeComment_append_of_mem {cs : List Char} (h : '#' ∈ cs) (ds : List Char) :
    beforeComment (cs ++ ds) = beforeComment cs := by
  induction cs with
  | nil => cases h
  | cons c cs ih =>
    by_cases mark : c = '#'
    · simp [beforeComment, mark]
    · have later : '#' ∈ cs := by
        rcases List.mem_cons.mp h with eq | later
        · exact absurd eq.symm mark
        · exact later
      have rest := ih later
      unfold beforeComment at rest ⊢
      simp [mark, rest]

theorem not_mem_beforeComment (cs : List Char) : '#' ∉ beforeComment cs := by
  intro member
  have := List.mem_takeWhile_imp member
  simp at this

end Comments

end Formicary.Text
