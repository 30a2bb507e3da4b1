import Formicary.Instruction.Operand

/-!
# The instruction catalogue

Every instruction has a number, a mnemonic, a shape, and a cost in ticks. Instructions that cost
nothing touch only the worker that runs them; the three that cost ticks act on or look at the world.
-/

namespace Formicary

/-- The operations of a worker program. -/
inductive Op where
  /-- Does nothing. -/
  | nop
  /-- Asks for a step along the heading. -/
  | move
  /-- Puts a constant into a register. -/
  | load
  /-- Copies one register to another. -/
  | copy
  /-- Adds the source to the destination. -/
  | add
  /-- Subtracts the source from the destination. -/
  | sub
  /-- Adds one. -/
  | inc
  /-- Subtracts one. -/
  | dec
  /-- Jumps. -/
  | jmp
  /-- Jumps unless the last result was zero. -/
  | jnz
  /-- Jumps unless the last action failed. -/
  | jnf
  /-- Saves the place and the frame, then jumps. -/
  | call
  /-- Goes back to where the frame was entered. -/
  | ret
  /-- Puts a register on the stack. -/
  | push
  /-- Takes the top of the stack into a register. -/
  | pop
  /-- Turns left. -/
  | lt
  /-- Turns right. -/
  | rt
  /-- Asks to dig the tile ahead. -/
  | dig
  /-- Checks whether the tile ahead can be entered. -/
  | chk
  /-- Turns towards the best scent. -/
  | srt
  /-- Sets how a worker values a scent channel. -/
  | swp
  /-- Starts laying scent on a channel. -/
  | swn
  /-- Stops laying scent. -/
  | swf
  deriving DecidableEq, Repr

namespace Op

/-- All operations in the order of their numbers. -/
def all : List Op :=
  [nop, move, load, copy, add, sub, inc, dec, jmp, jnz, jnf, call, ret, push, pop, lt, rt, dig,
    chk, srt, swp, swn, swf]

/-- The number of an operation. -/
def code : Op → UInt8
  | nop => 0 | move => 1 | load => 2 | copy => 3 | add => 4 | sub => 5 | inc => 6 | dec => 7
  | jmp => 8 | jnz => 9 | jnf => 10 | call => 11 | ret => 12 | push => 13 | pop => 14
  | lt => 15 | rt => 16 | dig => 17 | chk => 18 | srt => 19 | swp => 20 | swn => 21 | swf => 22

/-- The operation with a number. -/
def ofCode? (code : UInt8) : Option Op :=
  all[code.toNat]?

/-- The name of an operation in program text. -/
def mnemonic : Op → String
  | nop => "NOP" | move => "MOVE" | load => "LOAD" | copy => "COPY" | add => "ADD"
  | sub => "SUB" | inc => "INC" | dec => "DEC" | jmp => "JMP" | jnz => "JNZ" | jnf => "JNF"
  | call => "CALL" | ret => "RET" | push => "PUSH" | pop => "POP" | lt => "LT" | rt => "RT"
  | dig => "DIG" | chk => "CHK" | srt => "SRT" | swp => "SWP" | swn => "SWN" | swf => "SWF"

/-- The operation with a mnemonic, in any mixture of ASCII cases. -/
def ofMnemonic? (word : List Char) : Option Op :=
  let upper := word.map Char.toUpper
  all.find? fun op => op.mnemonic.toList == upper

/-- The operands an operation takes. -/
def shape : Op → Shape
  | nop | move | ret | lt | rt | dig | chk | srt | swf => .bare
  | inc | dec | push | pop => .register
  | load => .registerConstant
  | copy | add | sub => .registerPair
  | jmp | jnz | jnf | call => .target
  | swn => .channel
  | swp => .channelPriority

/-- How many ticks an operation costs. -/
def ticks : Op → Nat
  | move | chk => 1
  | dig => 2
  | _ => 0

/-- Operations without a cost run in the local part of a tick. -/
def isLocal (op : Op) : Bool :=
  op.ticks == 0

/-- Operations that look at the world itself rather than ask for an action in it. -/
def readsWorld (op : Op) : Bool :=
  op = chk

/-- Operations that name a step to go to. -/
def takesTarget (op : Op) : Bool :=
  op.shape = .target

/-- Operations that may continue elsewhere than at the next step. -/
def redirects (op : Op) : Bool :=
  op.takesTarget || op = ret

end Op

/-- The operation number that a header byte carries in its upper five bits. -/
def headerCode (header : UInt8) : UInt8 :=
  header >>> 3

/-- The header byte of an operation number and three operand bits. -/
def makeHeader (code operand : UInt8) : UInt8 :=
  (code <<< 3) ||| (operand &&& 0x07)

/-- One instruction: an operation with its operands. -/
structure Instruction where
  op : Op
  operands : Operands op.shape
  deriving DecidableEq

end Formicary
