import Formicary.Json.Parser

/-!
# Reading records from JSON values

A record is an object or the array of its fields in order. An object may have members that belong to
no field, and no field may occur twice.
-/

namespace Formicary

namespace Json

/-- A natural number below `bound`. -/
def nat? (bound : Nat) : Json → Option Nat
  | integer false n => if n < bound then some n else none
  | _ => none

/-- A whole number from `low` to `high`; zero has to be written without a sign. -/
def int? (low high : Int) : Json → Option Int
  | integer negative n =>
    let value : Int := if negative then -n else n
    if (negative && n = 0) || value < low || high < value then none else some value
  | _ => none

/-- A truth value. -/
def bool? : Json → Option Bool
  | bool b => some b
  | _ => none

/-- A text. -/
def text? : Json → Option String
  | string s => s
  | _ => none

/-- A list whose items can all be read. -/
def list? {α : Type} (read? : Json → Option α) : Json → Option (List α)
  | array items => items.mapM read?
  | _ => none

/-- A list of `n` items that can all be read. -/
def vector? {α : Type} (n : Nat) (read? : Json → Option α) (j : Json) : Option (Vector α n) := do
  let items ← list? read? j
  if h : items.toArray.size = n then some ⟨items.toArray, h⟩ else none

/-- Null, or a value that can be read. -/
def option? {α : Type} (read? : Json → Option α) : Json → Option (Option α)
  | null => some none
  | j => (read? j).map some

/-- The value of a key in an object without repeated fields; none when the key is repeated. -/
def field? (members : List (String × Json)) (key : String) : Option (Option Json) :=
  match members.filter (·.1 = key) with
  | [] => some none
  | [(_, value)] => some (some value)
  | _ => none

/-- The fields of a record by name, each with its value if it is there. A record given as an array
has all its fields, or the first of them when `partly` allows it. -/
def fields? (names : List String) (partly : Bool) : Json → Option (List (Option Json))
  | object members => do
    let members ← members.mapM fun (key, value) => key.map (·, value)
    names.mapM (field? members)
  | array items =>
    if items.length = names.length || (partly && items.length < names.length) then
      some (items.map some ++ List.replicate (names.length - items.length) none)
    else none
  | _ => none

end Json

end Formicary
