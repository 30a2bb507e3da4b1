import Formicary.Proofs.Survey
import Formicary.Worker.Cpu

/-!
# What program text means

A second account of program text, without machine code. It goes from instruction line to instruction
line, looks up labels in the text itself, and changes the worker as the mnemonic and the operands of
the line say. The program counter of the worker counts instruction lines.
-/

namespace Formicary.Source

open Text

/-- The first instruction line after the declaration of a label, as the number of those before. -/
def lineAfter? (name : String) : List Statement → Option Nat
  | [] => none
  | .blank :: rest => lineAfter? name rest
  | .label word :: rest => if String.ofList word = name then some 0 else lineAfter? name rest
  | .step _ :: rest => (lineAfter? name rest).map (· + 1)

/-- The instruction line that a jump leads to: a number or a label. -/
def targetLine? (text : List Statement) (word : List Char) : Option Nat :=
  match readUInt16? word with
  | some number => some number.toNat
  | none => lineAfter? (String.ofList word) text

/-- A whole number, in decimal or hexadecimal digits. -/
def integer? : List Char → Option Int
  | '0' :: 'x' :: digits | '0' :: 'X' :: digits => (readNat? 16 digits).map Int.ofNat
  | word => readInt? word

/-- A constant: a whole number modulo two to the 32. -/
def constant? (word : List Char) : Option UInt32 :=
  (integer? word).map UInt32.ofInt

section Effects

/-- On to the next instruction line. -/
def goOn (c : Cpu) : Cpu :=
  { c with pc := c.pc + 1 }

/-- On to a given instruction line. -/
def goTo (c : Cpu) (line : Nat) : Cpu :=
  { c with pc := line.toUInt16 }

/-- The value of a register. -/
def value (c : Cpu) : Reg → UInt32
  | .a => c.a
  | .b => c.b

/-- Sets a register, and the zero flag by its value. -/
def write (c : Cpu) : Reg → UInt32 → Cpu
  | .a, word => { c with a := word, zero := decide (word = 0) }
  | .b, word => { c with b := word, zero := decide (word = 0) }

/-- Puts a word on the stack, if there is room. -/
def push (c : Cpu) (word : UInt32) : Cpu :=
  if c.sp.toNat < c.ram.size then
    { c with ram := c.ram.setIfInBounds c.sp.toNat word, sp := c.sp + 1, failed := false }
  else { c with failed := true }

/-- Takes a word off the stack into a register, if there is one. -/
def pop (c : Cpu) (r : Reg) : Cpu :=
  if c.sp = 0 then { c with failed := true }
  else write { c with sp := c.sp - 1, failed := false } r (c.ram.getD (c.sp.toNat - 1) 0)

/-- Saves the line and the frame on the stack, starts a new frame and goes to a line, if there is
room for both. -/
def call (c : Cpu) (line : Nat) : Cpu :=
  if c.sp.toNat + 2 ≤ c.ram.size then
    let saved := push (push c c.pc.toUInt32) c.bp.toUInt32
    goTo { saved with bp := saved.sp } line
  else goOn { c with failed := true }

/-- Restores the frame and goes to the line after the saved one, if there is a frame. -/
def ret (c : Cpu) : Cpu :=
  if 2 ≤ c.bp.toNat ∧ c.bp.toNat ≤ c.ram.size then
    { c with
      sp := c.bp - 2
      bp := (c.ram.getD (c.bp.toNat - 1) 0).toUInt16
      pc := (c.ram.getD (c.bp.toNat - 2) 0).toUInt16 + 1
      failed := false }
  else goOn { c with failed := true }

end Effects

/-- What an instruction line does to a worker, given the text it stands in. Nothing where the worker
has to wait for the world: at a move, a dig or a look ahead. -/
def run? (text : List Statement) (mnemonic : String) (operands : List (List Char)) (c : Cpu) :
    Option Cpu :=
  match mnemonic, operands with
  | "NOP", [] => some (goOn c)
  | "LOAD", [w, v] => do
    let r ← Reg.read? w
    let k ← constant? v
    some (goOn (write c r k))
  | "COPY", [w, v] => do
    let source ← Reg.read? w
    let r ← Reg.read? v
    some (goOn (write c r (value c source)))
  | "ADD", [w, v] => do
    let source ← Reg.read? w
    let r ← Reg.read? v
    some (goOn (write c r (value c r + value c source)))
  | "SUB", [w, v] => do
    let source ← Reg.read? w
    let r ← Reg.read? v
    some (goOn (write c r (value c r - value c source)))
  | "INC", [w] => (Reg.read? w).map fun r => goOn (write c r (value c r + 1))
  | "DEC", [w] => (Reg.read? w).map fun r => goOn (write c r (value c r - 1))
  | "JMP", [w] => (targetLine? text w).map (goTo c)
  | "JNZ", [w] => (targetLine? text w).map fun line => if c.zero then goOn c else goTo c line
  | "JNF", [w] => (targetLine? text w).map fun line => if c.failed then goOn c else goTo c line
  | "CALL", [w] => (targetLine? text w).map (call c)
  | "RET", [] => some (ret c)
  | "PUSH", [w] => (Reg.read? w).map fun r => goOn (push c (value c r))
  | "POP", [w] => (Reg.read? w).map fun r => goOn (pop c r)
  | "LT", [] => some (goOn { c with heading := c.heading.turnLeft })
  | "RT", [] => some (goOn { c with heading := c.heading.turnRight })
  | "SRT", [] => some (goOn c.followScent)
  | "SWP", [w, v] => do
    let channel ← Channel.read? w
    let priority ← readInt? v
    some (goOn { c with nose := c.nose.setPriority channel (Int8.ofInt priority) })
  | "SWN", [w] =>
    (Channel.read? w).map fun channel =>
      goOn { c with nose := c.nose.setWriteChannel (some channel) }
  | "SWF", [] => some (goOn { c with nose := c.nose.setWriteChannel none })
  | _, _ => none

/-- What the current instruction line does to a worker, if there is one. -/
def step? (lines : List String) (c : Cpu) : Option Cpu := do
  let line ← (stepTexts (statements lines))[c.pc.toNat]?
  let (word, rest) := splitFirst line
  run? (statements lines) (String.ofList (word.map Char.toUpper)) (words rest) c

end Formicary.Source
