import Std.Data.ExtTreeMap

/-!
# Labels

A label names a step of a program. Names are unique and kept in the order of their UTF-8 bytes,
which is the order of their code points; several labels may name the same step. Two tables with the
same labels are equal, in whatever order the labels were added.
-/

namespace Formicary

/-- The labels of a program and the steps they name. -/
structure LabelTable where
  steps : Std.ExtTreeMap String UInt16
  deriving DecidableEq

namespace LabelTable

/-- No labels. -/
def empty : LabelTable := ⟨∅⟩

instance : Inhabited LabelTable := ⟨empty⟩

/-- The step that a label names. -/
def stepOf? (t : LabelTable) (name : String) : Option UInt16 :=
  t.steps[name]?

/-- Adds a label, unless its name is taken. -/
def insert? (t : LabelTable) (name : String) (step : UInt16) : Option LabelTable :=
  if name ∈ t.steps then none else some ⟨t.steps.insert name step⟩

/-- The labels with their steps, in the order of names. -/
def entries (t : LabelTable) : List (String × UInt16) :=
  t.steps.toList

/-- How many labels there are. -/
def size (t : LabelTable) : Nat :=
  t.steps.size

/-- The labels of each labelled step, those of one step in the order of names. -/
def byStep (t : LabelTable) : Std.ExtTreeMap UInt16 (List String) :=
  t.steps.foldr (fun name step index => index.insert step (name :: index.getD step [])) ∅

/-- The labels that name a step, in order. -/
def namesAt (t : LabelTable) (step : UInt16) : List String :=
  t.byStep.getD step []

/-- The first of the labels that name a step. -/
def nameAt? (t : LabelTable) (step : UInt16) : Option String :=
  (t.namesAt step).head?

/-- The labelled steps, the highest first. -/
def stepsDescending (t : LabelTable) : List UInt16 :=
  t.byStep.keys.reverse

end LabelTable

end Formicary
