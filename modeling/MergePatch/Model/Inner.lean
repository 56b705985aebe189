import MergePatch.Model.Shape
import MergePatch.Model.Tracker
/-!
# Inner models

An inner model has an optional `name` and `description`. It is written as an object of those
fields by the rules of `Tracker`; `set` assigns a field from a JSON value read as an optional
string and marks it, and `get` reads a field back. `ofTracked` builds an inner model from an
object by assigning its members one by one in key order, so the members become its assigned
fields; `null` gives no model.
-/

namespace MergePatch

/-- A model with an optional name and description. -/
structure InnerModel where
  name : Option String := none
  description : Option String := none
  tracker : Tracker := {}
deriving Repr, Inhabited

namespace InnerModel

/-- The model's name in messages. -/
def modelName : String := "InnerModel"

/-- The model read from a checked record, with nothing assigned. -/
def ofChecked (j : Json) : InnerModel :=
  { name := j.textAt "name", description := j.textAt "description" }

/-- The model written in mode `merge`, members in writing order. -/
def write (m : InnerModel) (merge : Bool) : Json :=
  .object (m.tracker.member merge "name" "name" (optString m.name) ++
    m.tracker.member merge "description" "description" (optString m.description))

/-- The model written in its own mode. -/
def writeOwn (m : InnerModel) : Json := m.write m.tracker.mergePatch

/-- The model written in full, with members in key order. -/
def toJson (m : InnerModel) : Json := (m.write false).normalize

/-- Equality of the fields, whatever was assigned. -/
def same (a b : InnerModel) : Bool := a.name == b.name && a.description == b.description

/-- Sets the name and marks it. -/
def withName (m : InnerModel) (v : Option String) : InnerModel :=
  { m with name := v, tracker := m.tracker.mark "name" }

/-- Sets the description and marks it. -/
def withDescription (m : InnerModel) (v : Option String) : InnerModel :=
  { m with description := v, tracker := m.tracker.mark "description" }

/-- Assigns the field `field` from a JSON value. -/
def set (m : InnerModel) (field : String) (v : Json) : Except ModelError InnerModel :=
  if field = "name" then do
    let j ← decodeField field (.option .string) v
    pure (m.withName j.str?)
  else if field = "description" then do
    let j ← decodeField field (.option .string) v
    pure (m.withDescription j.str?)
  else .error (.unknownField modelName field)

/-- Reads the field `field` as JSON. -/
def get (m : InnerModel) (field : String) : Except ModelError Json :=
  if field = "name" then .ok (Json.ofOption .string m.name)
  else if field = "description" then .ok (Json.ofOption .string m.description)
  else .error (.unknownField modelName field)

/-- Assigns the members of an object in turn. -/
def setAll (m : InnerModel) : List (String × Json) → Except ModelError InnerModel
  | [] => .ok m
  | (k, v) :: rest => do
    let m ← m.set k v
    setAll m rest

/-- The model built from a value assigned whole to `field`: `null` gives none, an object gives a
new model with each member assigned. -/
def ofTracked (field : String) (v : Json) : Except ModelError (Option InnerModel) :=
  match v with
  | .null => .ok none
  | .object fs => some <$> setAll {} fs
  | other => .error (.invalidValue field ("expected object or null, found " ++ other.kindName))

end InnerModel

end MergePatch
