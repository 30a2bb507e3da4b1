import Formicary.Code.MachineCode

/-!
# Lint

Findings about programs that run but may not do what was meant: jumps past the end, labels that
nothing jumps to, and loops that never give way to the world.
-/

namespace Formicary

/-- How serious a finding is. -/
inductive Severity where
  /-- It runs, but probably not as meant. -/
  | warning
  /-- Worth knowing. -/
  | info
  deriving DecidableEq, Repr

/-- What lint can find. -/
inductive Finding where
  /-- A jump to a step after the last one. -/
  | jumpPastEnd (target : UInt16)
  /-- A label that is never jumped to. -/
  | unusedLabel (name : String) (step : UInt16)
  /-- A loop without any step that costs ticks. -/
  | busyLoop
  deriving DecidableEq

namespace Finding

/-- How serious a finding is. -/
def severity : Finding → Severity
  | jumpPastEnd _ => .info
  | unusedLabel .. | busyLoop => .warning

/-- The step a finding is about. -/
def step? : Finding → Option Nat
  | jumpPastEnd target => some target.toNat
  | unusedLabel _ step => some step.toNat
  | busyLoop => none

/-- What was found. -/
def message : Finding → String
  | jumpPastEnd target => s!"jump to step {target.toNat} past the last step ends the program"
  | unusedLabel name _ => s!"label '{name}' is never jumped to"
  | busyLoop =>
    "program loops without MOVE, DIG or CHK and spends its step budget every tick"

/-- A finding with its severity and step. -/
def display (f : Finding) : String :=
  let level :=
    match f.severity with
    | .warning => "WARN"
    | .info => "INFO"
  match f.step? with
  | some step => s!"[{level}] step {step}: {f.message}"
  | none => s!"[{level}] {f.message}"

end Finding

/-- The step that some operands name. -/
def Operands.target? : {shape : Shape} → Operands shape → Option UInt16
  | _, .target step => some step
  | _, _ => none

/-- The step an instruction may go to. -/
def Instruction.target? (i : Instruction) : Option UInt16 :=
  i.operands.target?

/-- The distinct targets of some steps, in ascending order. -/
def targetsOf (steps : List Instruction) : Std.ExtTreeMap UInt16 Unit :=
  (steps.filterMap Instruction.target?).foldl (fun targets t => targets.insert t ()) ∅

/-- Whether one of some steps, numbered from `step` on, jumps to itself or back. -/
def jumpsBack (step : Nat) : List Instruction → Bool
  | [] => false
  | i :: steps => i.target?.any (·.toNat ≤ step) || jumpsBack (step + 1) steps

/-- The findings about a program; none about code that cannot be read. -/
def lint (m : MachineCode) : List Finding :=
  match instructions m.code with
  | .error _ => []
  | .ok steps =>
    let count := steps.length
    let targets := targetsOf steps
    let pastEnd := (targets.keys.filter (count ≤ ·.toNat)).map .jumpPastEnd
    let unused :=
      (m.labels.entries.filter fun (_, step) => !targets.contains step).map fun (name, step) =>
        .unusedLabel name step
    let busy := steps.all (·.op.isLocal) && jumpsBack 0 steps
    pastEnd ++ unused ++ if busy then [.busyLoop] else []

end Formicary
