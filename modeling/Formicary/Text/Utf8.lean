/-!
# Text in bytes

Texts are stored as UTF-8. Reading bytes either gives the text or says where the first ill-formed
part starts and how long it is; a tolerant reading puts the replacement character for each
ill-formed part.
-/

namespace Formicary.Text

/-- The UTF-8 bytes of a text. -/
def toBytes (text : String) : List UInt8 :=
  text.toUTF8.data.toList

/-- The text that bytes spell in UTF-8, if they are well formed. -/
def ofBytes? (bytes : List UInt8) : Option String :=
  String.fromUTF8? ⟨bytes.toArray⟩

/-- Where and how a byte string stops being well formed. -/
structure Utf8Fault where
  /-- How many bytes before it are well formed. -/
  index : Nat
  /-- How many bytes the ill-formed part has; none when the text ends inside a character. -/
  length : Option Nat
  deriving DecidableEq

/-- What is wrong with the bytes. -/
def Utf8Fault.message (fault : Utf8Fault) : String :=
  match fault.length with
  | some n => s!"invalid utf-8 sequence of {n} bytes from index {fault.index}"
  | none => s!"incomplete utf-8 byte sequence from index {fault.index}"

/-- What a byte string starts with. The numbers count the bytes after the first one. -/
inductive Head where
  /-- A character of `1 + more` bytes. -/
  | character (more : Nat)
  /-- An ill-formed part of `1 + more` bytes, as long as it can be. -/
  | illFormed (more : Nat)
  /-- A character that the end of the bytes cuts off. -/
  | unfinished
  deriving DecidableEq

/-- Bytes that continue a character. -/
def isContinuation (b : UInt8) : Bool :=
  0x80 ≤ b && b ≤ 0xBF

/-- Reads `needed` more continuation bytes after `seen` of them. -/
def continued : (needed seen : Nat) → List UInt8 → Head
  | 0, seen, _ => .character seen
  | _ + 1, _, [] => .unfinished
  | needed + 1, seen, b :: rest =>
    if isContinuation b then continued needed (seen + 1) rest else .illFormed seen

/-- For a first byte above the ASCII range: how many bytes follow, and between which bounds the next
one lies. -/
def leadRule? (first : UInt8) : Option (Nat × UInt8 × UInt8) :=
  if 0xC2 ≤ first && first ≤ 0xDF then some (1, 0x80, 0xBF)
  else if first = 0xE0 then some (2, 0xA0, 0xBF)
  else if first = 0xED then some (2, 0x80, 0x9F)
  else if 0xE1 ≤ first && first ≤ 0xEF then some (2, 0x80, 0xBF)
  else if first = 0xF0 then some (3, 0x90, 0xBF)
  else if first = 0xF4 then some (3, 0x80, 0x8F)
  else if 0xF1 ≤ first && first ≤ 0xF3 then some (3, 0x80, 0xBF)
  else none

/-- What the bytes `first :: rest` start with. -/
def readHead (first : UInt8) (rest : List UInt8) : Head :=
  if first < 0x80 then
    .character 0
  else
    match leadRule? first with
    | none => .illFormed 0
    | some (count, low, high) =>
      match rest with
      | [] => .unfinished
      | second :: rest =>
        if low ≤ second && second ≤ high then continued (count - 1) 1 rest else .illFormed 0

/-- The first ill-formed part of bytes that are not well formed, with `index` bytes before them. -/
def firstFault (index : Nat) : List UInt8 → Utf8Fault
  | [] => ⟨index, none⟩
  | first :: rest =>
    match readHead first rest with
    | .character more => firstFault (index + more + 1) (rest.drop more)
    | .illFormed more => ⟨index, some (more + 1)⟩
    | .unfinished => ⟨index, none⟩
termination_by bytes => bytes.length
decreasing_by simp only [List.length_drop, List.length_cons]; omega

/-- The text that bytes spell, or the first place where they spell none. -/
def fromBytes (bytes : List UInt8) : Except Utf8Fault String :=
  match ofBytes? bytes with
  | some text => .ok text
  | none => .error (firstFault 0 bytes)

/-- The text that bytes spell, with a replacement character for every ill-formed part. -/
def fromBytesLossy : List UInt8 → String
  | [] => ""
  | first :: rest =>
    match readHead first rest with
    | .character more =>
      (ofBytes? (first :: rest.take more)).getD "�" ++ fromBytesLossy (rest.drop more)
    | .illFormed more => "�" ++ fromBytesLossy (rest.drop more)
    | .unfinished => "�"
termination_by bytes => bytes.length
decreasing_by all_goals simp only [List.length_drop, List.length_cons]; omega

end Formicary.Text
