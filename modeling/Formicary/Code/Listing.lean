import Formicary.Code.MachineCode

/-!
# Listings

Machine code as program text in its normal form: mnemonics in capitals, single spaces, decimal
constants with a sign, the first label of a step in place of its number, and each label on a line of
its own before the step it names.
-/

namespace Formicary

namespace Operands

/-- The operands as words, with the names that steps go by. -/
def toWords (nameAt? : UInt16 → Option String) : {s : Shape} → Operands s → List String
  | _, .bare => []
  | _, .register r => [r.name]
  | _, .registerConstant r value => [r.name, toString value.toInt32.toInt]
  | _, .registerPair source destination => [source.name, destination.name]
  | _, .target step => [(nameAt? step).getD (toString step.toNat)]
  | _, .channel c => [c.letter.toString]
  | _, .channelPriority c priority => [c.letter.toString, toString priority.toInt]

end Operands

namespace Instruction

/-- An instruction as a line of program text. -/
def toLine (nameAt? : UInt16 → Option String) (i : Instruction) : String :=
  " ".intercalate (i.op.mnemonic :: i.operands.toWords nameAt?)

end Instruction

/-- The label lines that stand before a step. -/
def labelLines (index : Std.ExtTreeMap UInt16 (List String)) (step : Nat) : List String :=
  if step < UInt16.size then (index.getD step.toUInt16 []).map (· ++ ":") else []

/-- The lines of a program from a step on, each with its label lines, and then those of the end. -/
def weave (index : Std.ExtTreeMap UInt16 (List String)) (step : Nat) : List String → List String
  | [] => labelLines index step
  | line :: lines => labelLines index step ++ line :: weave index (step + 1) lines

namespace MachineCode

/-- The listing of a program. Its code has to be readable to the end, and no label may name a step
beyond the one after the last. -/
def listing (m : MachineCode) : Except CodeError (List String) :=
  match instructions m.code with
  | .error error => .error error
  | .ok steps =>
    let index := m.labels.byStep
    let lines := steps.map (·.toLine fun step => (index.getD step []).head?)
    match index.maxKey? with
    | none => .ok lines
    | some step =>
      if steps.length < step.toNat then
        let names := index.getD step []
        .error (.labelOutOfRange (names.head?.getD "") step.toNat steps.length)
      else
        .ok (weave index 0 lines)

end MachineCode

end Formicary
