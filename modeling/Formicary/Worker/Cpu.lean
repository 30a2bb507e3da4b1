import Formicary.Worker.Scent

/-!
# The state of a worker

Two registers, two flags, a heading, requests to move and dig, the place in the program, a private
stack, and what the worker sensed last. The program counter names the step that runs; it moves on by
one after each step, so a jump sets it to the step before its target.
-/

namespace Formicary

/-- What no worker of a well-kept colony does. -/
inductive Fault where
  /-- Reads the stack beyond its memory. -/
  | stackOutsideMemory
  /-- Pushes with a stack pointer that cannot grow. -/
  | stackPointerOverflow
  /-- Runs a step with a cost in the local part of a tick. -/
  | worldStepInLocalPart
  /-- Takes the parts of a tick out of order. -/
  | partsOutOfOrder
  deriving DecidableEq, Repr

/-- What happened. -/
def Fault.message : Fault → String
  | stackOutsideMemory => "a worker read its stack beyond its memory"
  | stackPointerOverflow => "the stack pointer of a worker cannot grow"
  | worldStepInLocalPart => "a step with a cost ran in the local part of a tick"
  | partsOutOfOrder => "the parts of a tick were taken out of order"

/-- How many words of memory a new worker has. -/
def memoryWords : Nat := 64

/-- The state of a worker. -/
structure Cpu where
  a : UInt32
  b : UInt32
  /-- The last result was zero. -/
  zero : Bool
  /-- The last action failed. -/
  failed : Bool
  heading : Heading
  movePending : Bool
  digPending : Bool
  /-- The step that runs. -/
  pc : UInt16
  /-- Where the frame of the current call ends and its own values start. -/
  bp : UInt16
  /-- How many words the stack has. -/
  sp : UInt16
  ram : Array UInt32
  /-- Which neighbouring tiles could be entered when the worker last looked. -/
  isOpen : Around Bool
  nose : Nose
  deriving DecidableEq

namespace Cpu

/-- A worker that has not run yet. -/
def initial : Cpu where
  a := 0
  b := 0
  zero := false
  failed := false
  heading := .right
  movePending := false
  digPending := false
  pc := 0
  bp := 0
  sp := 0
  ram := Array.replicate memoryWords 0
  isOpen := Around.const false
  nose := Nose.initial

instance : Inhabited Cpu := ⟨initial⟩

/-- The value of a register. -/
def reg (c : Cpu) : Reg → UInt32
  | .a => c.a
  | .b => c.b

/-- Writes a register and notes whether the value is zero. -/
def setReg (c : Cpu) (r : Reg) (value : UInt32) : Cpu :=
  match r with
  | .a => { c with a := value, zero := value == 0 }
  | .b => { c with b := value, zero := value == 0 }

/-- Makes a step the next one to run. -/
def jumpTo (c : Cpu) (target : UInt16) : Cpu :=
  { c with pc := target - 1 }

/-- Goes on to the next step. -/
def advance (c : Cpu) : Cpu :=
  { c with pc := c.pc + 1 }

/-- Goes back to the first step. -/
def rewind (c : Cpu) : Cpu :=
  { c with pc := 0 }

/-- Notes a failure. -/
def fail (c : Cpu) : Cpu :=
  { c with failed := true }

/-- Puts a word on the stack; fails when the memory is full. -/
def push (c : Cpu) (value : UInt32) : Except Fault Cpu :=
  if h : c.sp.toNat < c.ram.size then
    if c.sp.toNat + 1 < UInt16.size then
      .ok { c with ram := c.ram.set c.sp.toNat value h, sp := c.sp + 1, failed := false }
    else
      .error .stackPointerOverflow
  else
    .ok c.fail

/-- Takes the top word off the stack; fails when the stack is empty. -/
def pop (c : Cpu) : Except Fault (Cpu × Option UInt32) :=
  if c.sp = 0 then
    .ok (c.fail, none)
  else
    match c.ram[(c.sp - 1).toNat]? with
    | some value => .ok ({ c with sp := c.sp - 1, failed := false }, some value)
    | none => .error .stackOutsideMemory

/-- Whether the stack has room for the frame of a call. -/
def canCall (c : Cpu) : Bool :=
  c.sp.toNat + 2 ≤ c.ram.size

/-- Saves the current step and frame on the stack, starts a new frame and jumps; fails when the
stack has no room for both words. -/
def call (c : Cpu) (target : UInt16) : Except Fault Cpu :=
  if c.canCall then do
    let saved ← c.push c.pc.toUInt32
    let saved ← saved.push c.bp.toUInt32
    return { saved with bp := saved.sp }.jumpTo target
  else
    .ok c.fail

/-- Whether the current frame can hold what a call saved. -/
def canReturn (c : Cpu) : Bool :=
  2 ≤ c.bp.toNat && c.bp.toNat ≤ c.ram.size

/-- Drops the current frame and restores the step and frame saved below it; fails when there is no
frame in the memory. -/
def ret (c : Cpu) : Cpu :=
  if c.canReturn then
    { c with
      sp := c.bp - 2
      bp := (c.ram.getD (c.bp.toNat - 1) 0).toUInt16
      pc := (c.ram.getD (c.bp.toNat - 2) 0).toUInt16
      failed := false }
  else
    c.fail

/-- Takes in what is around the worker. -/
def observe (c : Cpu) (s : Surroundings) : Cpu :=
  { c with isOpen := s.isOpen, nose := { c.nose with neighbors := s.scents } }

/-- Turns to the best scent; fails when every way is blocked. -/
def followScent (c : Cpu) : Cpu :=
  let nose := c.nose.choose c.isOpen c.heading
  match nose.preferred with
  | some heading => { c with nose, heading, failed := false }
  | none => { c with nose, failed := true }

/-- Looks around and notes whether the way ahead is blocked. -/
def checkAhead (c : Cpu) (s : Surroundings) : Cpu :=
  { c.observe s with failed := !s.isOpen.get c.heading }

end Cpu

end Formicary
