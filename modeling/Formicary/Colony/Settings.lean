import Formicary.Json.Reader

/-!
# Settings

How a colony is run: how many steps without a cost a worker may take in a tick, how many threads
share the work, and how much scent a move lays down.
-/

namespace Formicary

/-- How a colony is run. -/
structure Settings where
  /-- Steps without a cost that a worker may take in a tick. -/
  maxStepsPerTick : Nat
  /-- Threads that share the local part of a tick; zero means one for each core. Their number has no
  influence on what happens. -/
  workerThreads : Nat
  /-- Scent that a move lays down. -/
  scentDeposit : UInt8
  deriving DecidableEq

/-- Why settings are refused. -/
inductive SettingsError where
  /-- The text is not JSON, or not settings. -/
  | malformed
  /-- Workers could take no step at all. -/
  | noSteps
  deriving DecidableEq

/-- What is wrong with the settings; the wording for malformed text is left to its reader. -/
def SettingsError.trail : SettingsError → List String
  | malformed => []
  | noSteps => ["Configuration error: max_steps_per_tick must be at least 1"]

namespace Settings

/-- The usual settings. -/
def standard : Settings := ⟨500, 0, 1⟩

/-- The usual settings on one thread. -/
def singleThreaded : Settings := { standard with workerThreads := 1 }

/-- Refuses settings under which no worker could take a step. -/
def validate (s : Settings) : Except SettingsError Settings :=
  if s.maxStepsPerTick = 0 then .error .noSteps else .ok s

/-- Settings in JSON. -/
def toJson (s : Settings) : Json :=
  .record [("max_steps_per_tick", .nat s.maxStepsPerTick), ("worker_threads", .nat s.workerThreads),
    ("scent_deposit", .nat s.scentDeposit.toNat)]

/-- Reads settings; fields that are missing have their usual values. -/
def ofJson? (j : Json) : Option Settings := do
  match ← j.fields? ["max_steps_per_tick", "worker_threads", "scent_deposit"] true with
  | [steps, threads, deposit] =>
    let read (bound usual : Nat) : Option Json → Option Nat
      | some value => value.nat? bound
      | none => some usual
    return ⟨← read UInt64.size standard.maxStepsPerTick steps,
      ← read UInt64.size standard.workerThreads threads,
      (← read UInt8.size standard.scentDeposit.toNat deposit).toUInt8⟩
  | _ => none

/-- Settings from a JSON text. -/
def ofText (text : String) : Except SettingsError Settings :=
  match (Json.parse? text).bind ofJson? with
  | some settings => settings.validate
  | none => .error .malformed

end Settings

end Formicary
