import Formicary.Json.Basic

/-!
# Reading JSON text

A text is first cut into tokens; a machine with a stack of unfinished arrays and objects then takes
one token after the other. There is no limit on nesting.
-/

namespace Formicary

open Text

namespace Json

/-- The smallest parts of a JSON text. -/
inductive Token where
  | openArray
  | closeArray
  | openObject
  | closeObject
  | comma
  | colon
  /-- A value that is neither an array nor an object. -/
  | scalar (value : Json)

/-- The number that four hexadecimal digits make. -/
def hexUnit? (a b c d : Char) : Option Nat :=
  readDigits? 16 [a, b, c, d]

/-- The character that a short escape stands for. -/
def shortEscape? (c : Char) : Option Char :=
  match c with
  | '"' => some '"'
  | '\\' => some '\\'
  | '/' => some '/'
  | 'b' => some '\x08'
  | 'f' => some '\x0c'
  | 'n' => some '\n'
  | 'r' => some '\r'
  | 't' => some '\t'
  | _ => none

/-- First halves of surrogate pairs. -/
def isLeading (n : Nat) : Bool :=
  0xD800 ≤ n && n ≤ 0xDBFF

/-- Second halves of surrogate pairs. -/
def isTrailing (n : Nat) : Bool :=
  0xDC00 ≤ n && n ≤ 0xDFFF

/-- The character that a surrogate pair stands for. -/
def joinPair (leading trailing : Nat) : Char :=
  Char.ofNat (0x10000 + (leading - 0xD800) * 0x400 + (trailing - 0xDC00))

/-- Reads a text up to its closing quote. The characters so far are in reverse; `sound` says that no
half of a surrogate pair was found. Gives the text and what follows it. -/
def scanText (found : List Char) (sound : Bool) : List Char → Option (Option String × List Char)
  | [] => none
  | '"' :: rest => some (if sound then some (String.ofList found.reverse) else none, rest)
  | '\\' :: 'u' :: a :: b :: c :: d :: rest =>
    match hexUnit? a b c d with
    | none => none
    | some n =>
      if isTrailing n then
        scanText found false rest
      else if isLeading n then
        match rest with
        | '\\' :: 'u' :: a :: b :: c :: d :: later =>
          match hexUnit? a b c d with
          | none => none
          | some m =>
            if isTrailing m then scanText (joinPair n m :: found) sound later
            else scanText found false later
        | later => scanText found false later
      else
        scanText (Char.ofNat n :: found) sound rest
  | '\\' :: c :: rest =>
    match shortEscape? c with
    | none => none
    | some c => scanText (c :: found) sound rest
  | c :: rest => if c.toNat < 0x20 then none else scanText (c :: found) sound rest

/-- What follows a text is shorter than what the text starts with. -/
theorem length_le_of_scanText {found : List Char} {sound : Bool} {cs rest : List Char}
    {text : Option String} (h : scanText found sound cs = some (text, rest)) :
    rest.length ≤ cs.length := by
  fun_induction scanText found sound cs <;> simp_all <;> omega

/-- A number in JSON: no plus sign, no needless zero in front, no empty fraction or exponent. -/
def number? (t : DecimalText) : Option Json :=
  let wholeFits := t.whole.length = 1 || (!t.whole.isEmpty && t.whole.head? != some '0')
  if t.sign = some '+' || !wholeFits || t.fraction = some [] || !t.exponentComplete then
    none
  else if t.fraction.isNone && t.exponent.isNone then
    some (integer (t.sign = some '-') t.value.digits)
  else
    some (decimal t.value)

/-- The value that a word stands for. -/
def word? (word : List Char) : Option Json :=
  if word = "null".toList then some null
  else if word = "true".toList then some (bool true)
  else if word = "false".toList then some (bool false)
  else none

/-- Characters that can stand in a number. -/
def inNumber (c : Char) : Bool :=
  c.isDigit || c = '+' || c = '-' || c = '.' || c = 'e' || c = 'E'

/-- The tokens of a text. -/
def tokens? (found : List Token) : List Char → Option (List Token)
  | [] => some found.reverse
  | c :: cs =>
    if c = ' ' || c = '\n' || c = '\t' || c = '\r' then tokens? found cs
    else if c = '[' then tokens? (.openArray :: found) cs
    else if c = ']' then tokens? (.closeArray :: found) cs
    else if c = '\x7b' then tokens? (.openObject :: found) cs
    else if c = '\x7d' then tokens? (.closeObject :: found) cs
    else if c = ',' then tokens? (.comma :: found) cs
    else if c = ':' then tokens? (.colon :: found) cs
    else if c = '"' then
      match _h : scanText [] true cs with
      | none => none
      | some (text, rest) => tokens? (.scalar (string text) :: found) rest
    else if c.isDigit || c = '-' then
      let text := DecimalText.read (c :: cs.takeWhile inNumber)
      if text.rest.isEmpty then
        match number? text with
        | none => none
        | some value => tokens? (.scalar value :: found) (cs.dropWhile inNumber)
      else none
    else
      match word? (c :: cs.takeWhile Char.isAlpha) with
      | none => none
      | some value => tokens? (.scalar value :: found) (cs.dropWhile Char.isAlpha)
termination_by cs => cs.length
decreasing_by
  all_goals simp only [List.length_cons, Nat.lt_succ_iff]
  any_goals exact Nat.le_refl _
  · exact length_le_of_scanText _h
  · exact (List.dropWhile_sublist _).length_le
  · exact (List.dropWhile_sublist _).length_le

/-- An array or an object that is not finished. What it holds is in reverse. -/
inductive Frame where
  | array (items : List Json)
  | object (members : List (Option String × Json))
  /-- An object with a key that has no value yet. -/
  | member (members : List (Option String × Json)) (key : Option String)

/-- What may come next. -/
inductive State where
  /-- A value. -/
  | value (frames : List Frame)
  /-- A value, or the end of the array just opened. -/
  | firstItem (frames : List Frame)
  /-- A key, or the end of the object just opened. -/
  | firstKey (frames : List Frame)
  /-- A key. -/
  | key (members : List (Option String × Json)) (frames : List Frame)
  /-- The colon after a key. -/
  | colon (frames : List Frame)
  /-- A comma, or the end of the innermost array or object. -/
  | next (frames : List Frame)
  /-- Nothing. -/
  | done (value : Json)

/-- Puts a finished value where it belongs. -/
def deliver (value : Json) : List Frame → Option State
  | [] => some (.done value)
  | .array items :: frames => some (.next (.array (value :: items) :: frames))
  | .member members key :: frames => some (.next (.object ((key, value) :: members) :: frames))
  | .object _ :: _ => none

/-- Takes a token that starts a value. -/
def startValue (frames : List Frame) : Token → Option State
  | .openArray => some (.firstItem frames)
  | .openObject => some (.firstKey frames)
  | .scalar value => deliver value frames
  | _ => none

/-- Takes one token. -/
def State.take : State → Token → Option State
  | .value frames, token => startValue frames token
  | .firstItem frames, .closeArray => deliver (Json.array []) frames
  | .firstItem frames, token => startValue (.array [] :: frames) token
  | .firstKey frames, .closeObject => deliver (Json.object []) frames
  | .firstKey frames, .scalar (.string text) => some (.colon (.member [] text :: frames))
  | .key members frames, .scalar (.string text) => some (.colon (.member members text :: frames))
  | .colon frames, .colon => some (.value frames)
  | .next (.array items :: frames), .comma => some (.value (.array items :: frames))
  | .next (.array items :: frames), .closeArray => deliver (Json.array items.reverse) frames
  | .next (.object members :: frames), .comma => some (.key members frames)
  | .next (.object members :: frames), .closeObject =>
    deliver (Json.object members.reverse) frames
  | _, _ => none

/-- The value that a text spells, with nothing but blanks around it. -/
def parse? (source : String) : Option Json := do
  let tokens ← tokens? [] source.toList
  match ← tokens.foldlM State.take (.value []) with
  | .done value => some value
  | _ => none

end Json

end Formicary
