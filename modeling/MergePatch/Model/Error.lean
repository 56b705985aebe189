import MergePatch.Json.Fault
/-!
# Why a model refused an operation

`ModelError` lists the causes: text that does not read as the model, a path that names nothing
or a field that is not set, a field the model does not have, a field that may only be read, and
a value of the wrong shape for a field. `ModelError.message` gives the words.
-/

namespace MergePatch

/-- Why an operation on a model failed. -/
inductive ModelError where
  /-- Text or bytes that do not read as the model. -/
  | deserialization (e : ReadError)
  /-- A model that could not be written as JSON. -/
  | json (text : String)
  /-- A path that does not lead anywhere. -/
  | invalidPath (text : String)
  /-- A field the model does not have. -/
  | unknownField (model field : String)
  /-- A field that may only be read. -/
  | readOnlyField (model field : String)
  /-- A value that does not fit the field. -/
  | invalidValue (field reason : String)
  /-- A model that breaks a rule of its own. -/
  | validation (text : String)
deriving Repr

namespace ModelError

/-- The words of the error. -/
def message : ModelError → String
  | deserialization e => "deserialization error: " ++ e.message
  | json t => "json error: " ++ t
  | invalidPath t => "invalid path: " ++ t
  | unknownField m f => "unknown field '" ++ f ++ "' on " ++ m
  | readOnlyField m f => "field '" ++ f ++ "' on " ++ m ++ " is read-only"
  | invalidValue f r => "invalid value for '" ++ f ++ "': " ++ r
  | validation t => "validation error: " ++ t

end ModelError

end MergePatch
