import Formicary.Json.Reader
import Formicary.Worker.Cpu

/-!
# The state of a worker in JSON

A record with a field for every part of the state; the heading is stored as its two flags. Reading
accepts any amount of memory.
-/

namespace Formicary

namespace Heading

/-- The word for a heading in a record. -/
def word : Heading → String
  | right => "Right"
  | up => "Up"
  | left => "Left"
  | down => "Down"

/-- The heading with a word. -/
def ofWord? (word : String) : Option Heading :=
  all.find? (·.word = word)

/-- Reads a heading: its word, or an object with that word as its only key and null as the value. -/
def ofJson? : Json → Option Heading
  | .string text => text.bind ofWord?
  | .object [(key, .null)] => key.bind ofWord?
  | _ => none

end Heading

namespace Around

/-- Four values in the order of headings. -/
def ofJson? {α : Type} (read? : Json → Option α) (j : Json) : Option (Around α) := do
  match ← j.list? read? with
  | [right, up, left, down] => some ⟨right, up, left, down⟩
  | _ => none

end Around

namespace Levels

/-- Levels in JSON. -/
def toJson (l : Levels) : Json :=
  .ofList (fun level => .nat level.toNat) l.toList

/-- Reads levels. -/
def ofJson? (j : Json) : Option Levels :=
  j.vector? 8 fun level => (level.nat? UInt8.size).map Nat.toUInt8

end Levels

namespace Nose

/-- A worker's reaction to scents in JSON. -/
def toJson (n : Nose) : Json :=
  .record [("priorities", .ofList (fun p => .int p.toInt) n.priorities.toList),
    ("write_channel", .ofOption (fun c => .nat c.toNat) n.writeChannel),
    ("neighbors", .ofList Levels.toJson n.neighbors.toList),
    ("preferred", .ofOption (fun h => .text h.word) n.preferred)]

/-- Reads a worker's reaction to scents. The channel and the last choice may be missing. -/
def ofJson? (j : Json) : Option Nose := do
  match ← j.fields? ["priorities", "write_channel", "neighbors", "preferred"] false with
  | [some priorities, writeChannel, some neighbors, preferred] =>
    return {
      priorities := ← priorities.vector? 8 fun p => (p.int? (-128) 127).map Int.toInt8
      writeChannel :=
        ← (writeChannel.getD .null).option? fun c => (c.nat? UInt8.size).map Nat.toUInt8
      neighbors := ← Around.ofJson? Levels.ofJson? neighbors
      preferred := ← (preferred.getD .null).option? Heading.ofJson? }
  | _ => none

end Nose

namespace Cpu

/-- A worker's state in JSON. -/
def toJson (c : Cpu) : Json :=
  .record [("regs", .array [.nat c.a.toNat, .nat c.b.toNat]), ("zero", .bool c.zero),
    ("failed", .bool c.failed), ("dir_flag1", .bool c.heading.flags.1),
    ("dir_flag2", .bool c.heading.flags.2), ("move_pending", .bool c.movePending),
    ("dig_pending", .bool c.digPending), ("pc", .nat c.pc.toNat), ("bp", .nat c.bp.toNat),
    ("sp", .nat c.sp.toNat), ("ram", .ofList (fun word => .nat word.toNat) c.ram.toList),
    ("open", .ofList .bool c.isOpen.toList), ("scent", c.nose.toJson)]

/-- Reads a worker's state. -/
def ofJson? (j : Json) : Option Cpu := do
  let word? (j : Json) := (j.nat? UInt32.size).map Nat.toUInt32
  let pointer? (j : Json) := (j.nat? UInt16.size).map Nat.toUInt16
  match ← j.fields? ["regs", "zero", "failed", "dir_flag1", "dir_flag2", "move_pending",
      "dig_pending", "pc", "bp", "sp", "ram", "open", "scent"] false with
  | [some regs, some zero, some failed, some flag₁, some flag₂, some movePending, some digPending,
      some pc, some bp, some sp, some ram, some isOpen, some nose] =>
    let regs ← regs.vector? 2 word?
    return {
      a := regs[0]
      b := regs[1]
      zero := ← zero.bool?
      failed := ← failed.bool?
      heading := Heading.ofFlags (← flag₁.bool?) (← flag₂.bool?)
      movePending := ← movePending.bool?
      digPending := ← digPending.bool?
      pc := ← pointer? pc
      bp := ← pointer? bp
      sp := ← pointer? sp
      ram := (← ram.list? word?).toArray
      isOpen := ← Around.ofJson? Json.bool? isOpen
      nose := ← Nose.ofJson? nose }
  | _ => none

end Cpu

end Formicary
