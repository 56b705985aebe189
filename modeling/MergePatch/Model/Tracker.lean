import MergePatch.Json.Value
/-!
# What a model remembers about its changes

Every model carries a `Tracker`: the set of its fields that have been assigned since it was
built, by logical name, and whether it writes itself as a merge patch.

A model writes itself field by field, through the rules here. In full mode a field is written
when it holds a value and left out when it is absent. In merge-patch mode a field is written
exactly when it has been assigned, as `null` when it is absent; a nested model is then written as
a merge patch itself, and so is each model in a map of models. In full mode a nested model is
written in its own mode, so a nested model is written as a merge patch exactly when the
model around it is or its own mode says so.
-/

namespace MergePatch

/-- The assigned fields of a model and its writing mode. -/
structure Tracker where
  /-- Logical names of the assigned fields, in increasing order. -/
  assigned : Names := []
  /-- Whether the model writes itself as a merge patch. -/
  mergePatch : Bool := false
deriving DecidableEq, Repr, Inhabited

namespace Tracker

/-- Records that the field `f` has been assigned. -/
def mark (t : Tracker) (f : String) : Tracker := { t with assigned := Names.insert t.assigned f }

/-- Whether the field `f` has been assigned. -/
def isAssigned (t : Tracker) (f : String) : Bool := t.assigned.contains f

/-- The same record of assignments in the given writing mode. -/
def withMode (t : Tracker) (b : Bool) : Tracker := { t with mergePatch := b }

/-- The member a field contributes when written in mode `merge`: `value` is its JSON when set. -/
def member (t : Tracker) (merge : Bool) (logical wire : String) (value : Option Json) :
    List (String × Json) :=
  if merge then
    if t.isAssigned logical then [(wire, value.getD .null)] else []
  else
    match value with
    | some v => [(wire, v)]
    | none => []

end Tracker

/-- JSON for an optional string. -/
def optString (v : Option String) : Option Json := v.map .string

/-- JSON for an optional 32-bit integer. -/
def optInt32 (v : Option Int32) : Option Json := v.map fun i => Json.int i.toInt

/-- JSON for an optional 64-bit integer. -/
def optInt64 (v : Option Int64) : Option Json := v.map fun i => Json.int i.toInt

end MergePatch
