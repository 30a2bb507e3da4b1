import Formicary.Number.Decimal
import Formicary.Text.Numeral

/-!
# JSON values

Objects keep their members in order and may repeat a key: whoever reads one decides what a repeated
key means. Written values are either compact or laid out with two spaces for each level.
-/

namespace Formicary

open Text

/-- A value in JSON. -/
inductive Json where
  | null
  | bool (b : Bool)
  /-- A number written without fraction and exponent. Zero has a sign too. -/
  | integer (negative : Bool) (magnitude : Nat)
  /-- A number written with a fraction or an exponent. -/
  | decimal (x : Decimal)
  /-- A text; none when its escapes spell half of a surrogate pair. -/
  | string (text : Option String)
  | array (items : List Json)
  | object (members : List (Option String × Json))

namespace Json

instance : Inhabited Json := ⟨null⟩

/-- A text. -/
def text (s : String) : Json :=
  string (some s)

/-- A natural number. -/
def nat (n : Nat) : Json :=
  integer false n

/-- A whole number. -/
def int (n : Int) : Json :=
  integer (n < 0) n.natAbs

/-- An object with the given members. -/
def record (members : List (String × Json)) : Json :=
  object (members.map fun (key, value) => (some key, value))

/-- A value, or null for none. -/
def ofOption {α : Type} (write : α → Json) : Option α → Json
  | some a => write a
  | none => null

/-- A list of values. -/
def ofList {α : Type} (write : α → Json) (items : List α) : Json :=
  array (items.map write)

/-- How one character stands in a JSON text. -/
def escape (c : Char) : String :=
  if c = '"' then "\\\""
  else if c = '\\' then "\\\\"
  else if c = '\n' then "\\n"
  else if c = '\r' then "\\r"
  else if c = '\t' then "\\t"
  else if c = '\x08' then "\\b"
  else if c = '\x0c' then "\\f"
  else if c.toNat < 0x20 then "\\u" ++ String.ofList (padDigits 16 4 c.toNat)
  else c.toString

/-- Appends a text in quotes. -/
def writeText (out : String) (s : String) : String :=
  s.toList.foldl (fun out c => out ++ escape c) (out ++ "\"") ++ "\""

/-- The digits of a decimal number, without regard to its exponent's range. -/
def writeDecimal (x : Decimal) : String :=
  (if x.negative then "-" else "") ++ toString x.digits ++ "e" ++ toString x.exponent

mutual
/-- Appends a value without any blanks. -/
def writeCompact (out : String) : Json → String
  | null => out ++ "null"
  | bool b => out ++ (if b then "true" else "false")
  | integer negative magnitude => out ++ (if negative then "-" else "") ++ toString magnitude
  | decimal x => out ++ writeDecimal x
  | string s => writeText out (s.getD "")
  | array items => writeItems (out ++ "[") items ++ "]"
  | object members => writeMembers (out ++ "\x7b") members ++ "\x7d"

/-- Appends values with commas between them. -/
def writeItems (out : String) : List Json → String
  | [] => out
  | [item] => writeCompact out item
  | item :: rest => writeItems (writeCompact out item ++ ",") rest

/-- Appends members with commas between them. -/
def writeMembers (out : String) : List (Option String × Json) → String
  | [] => out
  | [(key, value)] => writeCompact (writeText out (key.getD "") ++ ":") value
  | (key, value) :: rest =>
    writeMembers (writeCompact (writeText out (key.getD "") ++ ":") value ++ ",") rest
end

/-- A value on one line, without any blanks. -/
def compact (j : Json) : String :=
  writeCompact "" j

/-- A new line at a level of indentation. -/
def newLine (level : Nat) : String :=
  "\n" ++ String.ofList (List.replicate (2 * level) ' ')

mutual
/-- Appends a value with one item or member on a line. -/
def writePretty (level : Nat) (out : String) : Json → String
  | array [] => out ++ "[]"
  | array items => writePrettyItems (level + 1) (out ++ "[") items ++ newLine level ++ "]"
  | object [] => out ++ "\x7b\x7d"
  | object members =>
    writePrettyMembers (level + 1) (out ++ "\x7b") members ++ newLine level ++ "\x7d"
  | null => out ++ "null"
  | bool b => out ++ (if b then "true" else "false")
  | integer negative magnitude => out ++ (if negative then "-" else "") ++ toString magnitude
  | decimal x => out ++ writeDecimal x
  | string s => writeText out (s.getD "")

/-- Appends values, each on a new line. -/
def writePrettyItems (level : Nat) (out : String) : List Json → String
  | [] => out
  | [item] => writePretty level (out ++ newLine level) item
  | item :: rest =>
    writePrettyItems level (writePretty level (out ++ newLine level) item ++ ",") rest

/-- Appends members, each on a new line. -/
def writePrettyMembers (level : Nat) (out : String) : List (Option String × Json) → String
  | [] => out
  | [(key, value)] =>
    writePretty level (writeText (out ++ newLine level) (key.getD "") ++ ": ") value
  | (key, value) :: rest =>
    writePrettyMembers level
      (writePretty level (writeText (out ++ newLine level) (key.getD "") ++ ": ") value ++ ",") rest
end

/-- A value laid out over several lines. -/
def pretty (j : Json) : String :=
  writePretty 0 "" j

end Json

end Formicary
