import Formicary.Code.Assembly
import Formicary.Code.Storage
import Formicary.Review.Lint

/-!
# Checking program files

A program file holds text or, with the extension `antm`, a blob. Checking reads it and, on request,
lints it. A folder is checked file by file.
-/

namespace Formicary

open Text

/-- The extension of program text. -/
def sourceExtension : String := "ant"

/-- The extension of stored machine code. -/
def blobExtension : String := "antm"

/-- Why a file holds no program. -/
structure CheckError where
  /-- The line of the mistake, counted from one. -/
  line : Option Nat
  message : String
  /-- The text of that line. -/
  snippet : Option String
  deriving DecidableEq

namespace CheckError

/-- The mistake with the number of its line. -/
def headline (e : CheckError) : String :=
  match e.line with
  | some line => s!"line {line}: {e.message}"
  | none => e.message

/-- The mistake and, below it, its line. -/
def display (e : CheckError) : String :=
  match e.snippet with
  | some snippet => s!"{e.headline}\n  | {snippet}"
  | none => e.headline

end CheckError

/-- The outcome for one file. -/
structure CheckResult where
  path : Path
  /-- The program with the findings about it, or what is wrong. -/
  outcome : Except CheckError (MachineCode × List Finding)

/-- The program of a text, or the first mistake with its line. -/
def checkText (text : String) : Except CheckError MachineCode :=
  (assembleText text).mapError fun error =>
    ⟨some error.line, error.mistake.message,
      ((lines text)[error.line - 1]?).map fun line => String.ofList (trim line.toList)⟩

/-- The program of a file. -/
def readProgram (files : FileTree) (path : Path) : Except CheckError MachineCode :=
  if path.extension? = some blobExtension then
    (MachineCode.load files path).mapError fun error =>
      ⟨none, ": ".intercalate error.trail, none⟩
  else
    match files.readText path with
    | .error error => .error ⟨none, error.message, none⟩
    | .ok text => checkText text

/-- Checks one file. -/
def checkFile (files : FileTree) (path : Path) (withLint : Bool) : CheckResult :=
  ⟨path, (readProgram files path).map fun m => (m, if withLint then lint m else [])⟩

/-- Checks all program files below a folder, in the order of their paths. -/
def checkFolder (files : FileTree) (path : Path) (withLint : Bool) : List CheckResult :=
  ((files.walk path).filter fun p =>
    p.extension? = some sourceExtension || p.extension? = some blobExtension).map
      fun p => checkFile files p withLint

/-- What came of checking some files. -/
structure CheckSummary where
  total : Nat
  passed : Nat
  failed : Nat
  errors : List (Path × CheckError)
  warnings : Nat
  infos : Nat

namespace CheckSummary

/-- Counts the outcomes for some files. -/
def ofResults (results : List CheckResult) : CheckSummary :=
  let errors := results.filterMap fun r =>
    match r.outcome with
    | .error error => some (r.path, error)
    | .ok _ => none
  let findings := results.flatMap fun r =>
    match r.outcome with
    | .error _ => []
    | .ok (_, findings) => findings
  { total := results.length
    passed := results.length - errors.length
    failed := errors.length
    errors
    warnings := (findings.filter (·.severity = .warning)).length
    infos := (findings.filter (·.severity = .info)).length }

/-- The lines about one file that failed. -/
def errorLines (path : Path) (error : CheckError) : List String :=
  ["", s!"  {path}", s!"    {error.headline}"] ++
    (error.snippet.map fun snippet => s!"    | {snippet}").toList

/-- The lines of a report. -/
def report (s : CheckSummary) : List String :=
  let errors :=
    if s.errors.isEmpty then []
    else
      ["", s!"{s.errors.length} ASSEMBLY ERRORS:"] ++
        (s.errors.flatMap fun (path, error) => errorLines path error) ++ [""]
  let counts := s!"Validated {s.total} files: {s.passed} passed, {s.failed} failed"
  let findings :=
    if 0 < s.warnings + s.infos then [s!"Lint: {s.warnings} warnings, {s.infos} info"] else []
  errors ++ [counts] ++ findings

end CheckSummary

end Formicary
