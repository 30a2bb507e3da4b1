/-!
# Headings

A worker faces one of four ways. Two flags encode the heading; places on the grid have whole
coordinates with `y` growing downwards.
-/

namespace Formicary

/-- The four ways a worker can face. -/
inductive Heading where
  | right
  | up
  | left
  | down
  deriving DecidableEq, Repr

namespace Heading

/-- All headings in the order of their numbers. -/
def all : List Heading :=
  [right, up, left, down]

/-- The heading that two flags encode. -/
def ofFlags : Bool → Bool → Heading
  | false, false => right
  | false, true => up
  | true, false => left
  | true, true => down

/-- The two flags of a heading. -/
def flags : Heading → Bool × Bool
  | right => (false, false)
  | up => (false, true)
  | left => (true, false)
  | down => (true, true)

/-- The number of a heading. -/
def index : Heading → Nat
  | right => 0
  | up => 1
  | left => 2
  | down => 3

/-- What a heading is called. -/
def name : Heading → String
  | right => "right"
  | up => "up"
  | left => "left"
  | down => "down"

/-- The heading after a quarter turn to the left. -/
def turnLeft : Heading → Heading
  | right => up
  | up => left
  | left => down
  | down => right

/-- The heading after a quarter turn to the right. -/
def turnRight : Heading → Heading
  | right => down
  | up => right
  | left => up
  | down => left

/-- How far one step along a heading goes, across and down. -/
def offset : Heading → Int × Int
  | right => (1, 0)
  | up => (0, -1)
  | left => (-1, 0)
  | down => (0, 1)

end Heading

/-- A place on the grid or off it. -/
structure Point where
  x : Int
  y : Int
  deriving DecidableEq, Repr

/-- The place one step ahead. -/
def Point.ahead (p : Point) (h : Heading) : Point :=
  ⟨p.x + h.offset.1, p.y + h.offset.2⟩

/-- One value for each heading. -/
structure Around (α : Type) where
  right : α
  up : α
  left : α
  down : α
  deriving DecidableEq

namespace Around

variable {α : Type}

/-- The value for a heading. -/
def get (a : Around α) : Heading → α
  | .right => a.right
  | .up => a.up
  | .left => a.left
  | .down => a.down

/-- A value for each heading by a rule. -/
def ofFn (f : Heading → α) : Around α :=
  ⟨f .right, f .up, f .left, f .down⟩

/-- The same value for every heading. -/
def const (a : α) : Around α :=
  ⟨a, a, a, a⟩

/-- The values in the order of headings. -/
def toList (a : Around α) : List α :=
  [a.right, a.up, a.left, a.down]

@[simp] theorem get_ofFn (f : Heading → α) (h : Heading) : (ofFn f).get h = f h := by
  cases h <;> rfl

@[simp] theorem get_const (a : α) (h : Heading) : (const a).get h = a := by
  cases h <;> rfl

end Around

end Formicary
