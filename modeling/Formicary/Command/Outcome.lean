import Formicary.Command.Arguments
import Formicary.Files.Tree
import Formicary.Text.Numeral

/-!
# What a command does

A command prints lines, may change files, and ends with a code that is zero when all went well.
-/

namespace Formicary

open Text

/-- A line that a command prints. -/
inductive Print where
  /-- To standard output. -/
  | out (line : String)
  /-- To standard error. -/
  | err (line : String)
  deriving DecidableEq

/-- The end of a command. -/
structure Outcome where
  code : UInt8
  prints : List Print
  files : FileTree

/-- A cause in a report, behind its number if it has one. Its further lines are indented as far as
the first. -/
def causeLine (number : Option Nat) (cause : String) : String :=
  let (lead, indent) :=
    match number with
    | some n => (alignRight 5 (toString n) ++ ": ", "       ")
    | none => ("    ", "    ")
  lead ++ ("\n" ++ indent).intercalate (cause.splitOn "\n")

/-- The lines about the causes of an error; several causes are numbered. -/
def causeLines : List String → List String
  | [] => []
  | [cause] => ["", "Caused by:", causeLine none cause]
  | causes => ["", "Caused by:"] ++ causes.mapIdx fun n cause => causeLine (some n) cause

/-- The report of an error, from what is wrong to its innermost cause. -/
def errorReport : List String → List String
  | [] => []
  | error :: causes => s!"Error: {error}" :: causeLines causes

namespace Outcome

/-- A command that failed after it had printed something. -/
def failure (printed : List Print) (trail : List String) (files : FileTree) : Outcome :=
  ⟨1, printed ++ (errorReport trail).map .err, files⟩

/-- A command that was not run. How commands are used is described elsewhere. -/
def refused (refusal : Refusal) (files : FileTree) : Outcome :=
  match refusal with
  | .help => ⟨0, [], files⟩
  | .misuse => ⟨2, [], files⟩

/-- All that was printed to standard output. -/
def outText (o : Outcome) : String :=
  String.join <| o.prints.map fun
    | .out line => line ++ "\n"
    | .err _ => ""

/-- All that was printed to standard error. -/
def errText (o : Outcome) : String :=
  String.join <| o.prints.map fun
    | .out _ => ""
    | .err line => line ++ "\n"

end Outcome

end Formicary
