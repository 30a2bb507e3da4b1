import Formicary.Command.Outcome
import Formicary.Review.Check

/-!
# The command that checks programs

It checks files and all program files below folders, reports on each, and sums up at the end.
-/

namespace Formicary

/-- What to check, and how. -/
structure ValidateOptions where
  paths : List Path
  /-- Tell the size of each program. -/
  verbose : Bool
  /-- Report what lint finds. -/
  lint : Bool

namespace ValidateOptions

/-- How the options are given. -/
def reader : ArgumentReader ValidateOptions where
  forms := [⟨"verbose", some 'v', false⟩, ⟨"lint", some 'l', false⟩]
  accept o
    | .flag "verbose" => some { o with verbose := true }
    | .flag "lint" => some { o with lint := true }
    | .operand text => if text = "" then none else some { o with paths := o.paths ++ [text] }
    | _ => none

/-- Reads the arguments; there has to be something to check. -/
def ofArguments (args : List String) : Except Refusal ValidateOptions := do
  let o ← reader.read ⟨[], false, false⟩ args
  if o.paths.isEmpty then throw .misuse
  return o

/-- What is printed about a program. -/
def programLine (o : ValidateOptions) (path : Path) (m : MachineCode) (findings : List Finding) :
    String :=
  let mark := if findings.any (·.severity = .warning) then "!" else "+"
  if o.verbose then
    let steps := m.stepCount.toOption.getD 0
    s!"{mark} {path} ({steps} steps, {m.labels.size} labels, {m.code.length} bytes)"
  else s!"{mark} {path}"

/-- What is printed about a file. -/
def describe (o : ValidateOptions) (r : CheckResult) : List Print :=
  match r.outcome with
  | .ok (m, findings) =>
    .out (o.programLine r.path m findings) ::
      findings.map fun finding => .err s!"    {finding.display}"
  | .error error =>
    [.err s!"x {r.path}", .err s!"  {error.headline}"] ++
      (error.snippet.map fun snippet => .err s!"  | {snippet}").toList

/-- Checks what is at a path; none if nothing is there. -/
def check? (o : ValidateOptions) (files : FileTree) (path : Path) : Option (List CheckResult) :=
  (files.at? path).map fun
    | .file _ => [checkFile files path o.lint]
    | .folder => checkFolder files path o.lint

/-- Checks paths up to the first one where nothing is. Gives the results and that path. -/
def checkAll (o : ValidateOptions) (files : FileTree) :
    List Path → List CheckResult × Option Path
  | [] => ([], none)
  | path :: paths =>
    match o.check? files path with
    | none => ([], some path)
    | some results =>
      let (others, missing) := checkAll o files paths
      (results ++ others, missing)

/-- Runs the command. -/
def perform (o : ValidateOptions) (files : FileTree) : Outcome :=
  let (results, missing) := o.checkAll files o.paths
  let described := results.flatMap o.describe
  match missing with
  | some path => ⟨2, described ++ [.err s!"Error: Path does not exist: {path}"], files⟩
  | none =>
    let summary := CheckSummary.ofResults results
    ⟨if summary.failed = 0 then 0 else 1,
      described ++ .err "" :: summary.report.map .err, files⟩

end ValidateOptions

/-- The command that checks programs. -/
def validateCommand (args : List String) (files : FileTree) : Outcome :=
  match ValidateOptions.ofArguments args with
  | .ok o => o.perform files
  | .error refusal => .refused refusal files

end Formicary
