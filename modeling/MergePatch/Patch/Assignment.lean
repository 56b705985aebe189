import MergePatch.Model.Any
import MergePatch.Json.Read
import MergePatch.Text.Blank
/-!
# Assignments `path=value`

An assignment is written `path=value`. It is split at the first `=`; both sides are trimmed of
white space, the path must not be empty, and the value is read as JSON text, or kept as a string
when it is not JSON. `Assignment.applyTo` assigns the value to the path of a model.
-/

namespace MergePatch

/-- A value to assign to a path of a model. -/
structure Assignment where
  path : String
  value : Json
deriving Repr

namespace Assignment

/-- Reads `path=value`. -/
def parse (input : String) : Except ModelError Assignment :=
  match splitOnce input '=' with
  | none => .error (.invalidPath ("expected 'key=value', got '" ++ input ++ "'"))
  | some (path, value) =>
    let path := Text.trim path
    if path.isEmpty then .error (.invalidPath ("empty field name in '" ++ input ++ "'"))
    else
      let text := Text.trim value
      match Json.parse text.toUTF8 with
      | .ok v => .ok ⟨path, v⟩
      | .error _ => .ok ⟨path, .string text⟩

/-- Assigns the value to the path of a model. -/
def applyTo (a : Assignment) (m : AnyModel) : Except ModelError AnyModel := m.set a.path a.value

end Assignment

end MergePatch
