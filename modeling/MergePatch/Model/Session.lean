import MergePatch.Model.InPlace
/-!
# Calls on a model

A `ModelCall` is one call a client makes on a model: a dynamic assignment by path, an assignment
written `path=value`, a typed setter, a read of a path, one of the serializations, a change of
writing mode, or a comparison with a model read from text. `AnyModel.perform` gives the model
after a call that goes through and `none` after one that fails. `AnyModel.after` makes the call
in place on a model held by reference and gives the model it leaves, whether the call went
through or not; `AnyModel.runCalls` makes calls in turn that way.

`ModelCall.target` is the path a call assigns, and `pathHead` the top-level field a path starts
with: the text before its first dot. `AnyModel.assignedHeads` lists the top-level fields of the
assignments of a run that went through, in the order they were made.
-/

namespace MergePatch

/-- A call on a model. -/
inductive ModelCall where
  /-- Assigns a field or dotted path from a JSON value. -/
  | set (path : String) (value : Json)
  /-- Reads an assignment `path=value` and makes it. -/
  | assign (expr : String)
  /-- A typed setter, with its value read from JSON. -/
  | withField (field : String) (value : Json)
  /-- Reads a field or dotted path. -/
  | get (path : String)
  /-- The full form. -/
  | toJson
  /-- The merge patch. -/
  | toMergePatch
  /-- The form of the current mode. -/
  | serialize
  /-- The text of the full form or of the merge patch. -/
  | toBody (merge : Bool)
  /-- Sets the writing mode. -/
  | enableMergePatch (enabled : Bool)
  /-- Compares with the model read from JSON text. -/
  | equals (text : ByteArray)

/-- The top-level field a path starts with: the text before its first dot. -/
def pathHead (p : String) : String :=
  match splitOnce p '.' with
  | some (head, _) => head
  | none => p

namespace ModelCall

/-- The path a call assigns, when it is an assignment. -/
def target : ModelCall → Option String
  | set p _ => some p
  | assign e => (Assignment.parse e).toOption.map (·.path)
  | withField f _ => some f
  | _ => none

end ModelCall

namespace AnyModel

/-- The model after a call that goes through, `none` after one that fails. Reads, serializations
and comparisons leave the model as it is. -/
def perform (kind : ModelKind) (m : AnyModel) : ModelCall → Option AnyModel
  | .set p v => (m.set p v).toOption
  | .assign e => ((Assignment.parse e).bind (·.applyTo m)).toOption
  | .withField f v => (m.withValue f v).bind Except.toOption
  | .get p => (m.get p).toOption.map fun _ => m
  | .enableMergePatch b => some (m.setMergePatch b)
  | .equals text => (fromText kind text).toOption.map fun _ => m
  | .toJson | .toMergePatch | .serialize | .toBody _ => some m

/-- The model after a call made in place, whether the call goes through or fails. An assignment
ends where its procedure ends; a write, and a read that writes a nested model whole, end where
the write leaves the flags. A typed setter takes the model and gives it back only once its value
has been read. -/
def after (m : AnyModel) : ModelCall → AnyModel
  | .set p v => endState ((setIn p v).run m)
  | .assign e =>
    match Assignment.parse e with
    | .ok a => endState (a.applyIn.run m)
    | .error _ => m
  | .withField f v => ((m.withValue f v).bind Except.toOption).getD m
  | .get p => (getIn p m).2
  | .enableMergePatch b => m.setMergePatch b
  | .equals _ => m
  | .toJson => (toJsonIn m).2
  | .toMergePatch => (toMergePatchIn m).2
  | .serialize => (serializeIn m).2
  | .toBody b => (toBodyIn b m).2

/-- The model after calls made in turn, in place. -/
def runCalls (kind : ModelKind) (m : AnyModel) : List ModelCall → AnyModel
  | [] => m
  | c :: cs => runCalls kind (m.after c) cs

/-- The top-level fields of the assignments that go through in a run of calls, in order. -/
def assignedHeads (kind : ModelKind) (m : AnyModel) : List ModelCall → List String
  | [] => []
  | c :: cs =>
    match m.perform kind c with
    | some m' => (c.target.map pathHead).toList ++ assignedHeads kind m' cs
    | none => assignedHeads kind m cs

end AnyModel

end MergePatch
