import MergePatch.Model.Resource
import MergePatch.Json.Write
/-!
# Any model

`AnyModel` holds a model of one of the six kinds and gives them one interface: building, reading
from text, dynamic access, typed assignment, writing and equality. A fish is held either as a
fish of any kind (`fish`), whose `kind` is a read-only field, or through the model of its
variant (`variant`), which has no `kind` field and reads text by the variant's own schema.

Writing follows the modes of `Tracker`: `toJson` is the full form, `toMergePatch` the merge
patch, `serialize` the form of the model's current mode, and `toBody b` the text of the form `b`
with members in writing order.
-/

namespace MergePatch

/-- The kinds of model. -/
inductive ModelKind where
  | resource
  | innerModel
  | fish
  | shark
  | salmon
  | otherFish
deriving DecidableEq, Repr

/-- A model of any kind. -/
inductive AnyModel where
  /-- A resource. -/
  | resource (r : Resource)
  /-- An inner model. -/
  | inner (m : InnerModel)
  /-- A fish of any kind, accessed as a fish. -/
  | fish (f : Fish)
  /-- A fish accessed through the model of its variant. -/
  | variant (f : Fish)
deriving Repr, Inhabited

namespace AnyModel

/-- The tracker of the model. -/
def tracker : AnyModel → Tracker
  | resource r => r.tracker
  | inner m => m.tracker
  | fish f => f.tracker
  | variant f => f.tracker

/-- The same model with another tracker. -/
def withTracker : AnyModel → Tracker → AnyModel
  | resource r, t => resource { r with tracker := t }
  | inner m, t => inner { m with tracker := t }
  | fish f, t => fish (f.withCore { f.core with tracker := t })
  | variant f, t => variant (f.withCore { f.core with tracker := t })

/-- The model written in mode `merge`, members in writing order. -/
def write : AnyModel → Bool → Json
  | resource r, b => r.write b
  | inner m, b => m.write b
  | fish f, b => f.write b
  | variant f, b => f.write b

/-- The full form, members in key order. -/
def toJson (m : AnyModel) : Json := (m.write false).normalize

/-- The merge patch, members in key order. -/
def toMergePatch (m : AnyModel) : Json := (m.write true).normalize

/-- The form of the model's current mode, members in key order. -/
def serialize (m : AnyModel) : Json := (m.write m.tracker.mergePatch).normalize

/-- The text of the form `merge`, members in writing order. -/
def toBody (m : AnyModel) (merge : Bool) : String := (m.write merge).compact

/-- The assigned fields, sorted. -/
def mutated (m : AnyModel) : List String := m.tracker.assigned

/-- Whether the field `f` has been assigned. -/
def isMutated (m : AnyModel) (f : String) : Bool := m.tracker.isAssigned f

/-- Sets the writing mode. -/
def setMergePatch (m : AnyModel) (b : Bool) : AnyModel := m.withTracker (m.tracker.withMode b)

/-- Assigns a field or path from a JSON value. -/
def set : AnyModel → String → Json → Except ModelError AnyModel
  | resource r, p, v => resource <$> r.set p v
  | inner m, p, v => inner <$> m.set p v
  | fish f, p, v => fish <$> f.set p v
  | variant f, p, v => variant <$> f.setMember p v

/-- Reads a field or path as JSON. -/
def get : AnyModel → String → Except ModelError Json
  | resource r, p => r.get p
  | inner m, p => m.get p
  | fish f, p => f.get p
  | variant f, p => f.getMember p

/-- Equality of the fields, whatever was assigned or the modes. -/
def same : AnyModel → AnyModel → Bool
  | resource a, resource b => a.same b
  | inner a, inner b => a.same b
  | fish a, fish b => a.same b
  | variant a, variant b => a.same b
  | _, _ => false

/-- A new model of the kind, where one needs no kind of fish. -/
def new? : ModelKind → Option AnyModel
  | .resource => some (resource {})
  | .innerModel => some (inner {})
  | .shark => some (variant (.shark {} none))
  | .salmon => some (variant (.salmon {} none))
  | _ => none

/-- A new fish of kind `k`: as a fish of any kind, or as a fish without a model of its own,
which refuses `shark` and `salmon`. -/
def ofKind (kind : ModelKind) (k : String) : Except ModelError AnyModel :=
  if kind = .otherFish then
    if Shape.isModelledKind k then .error (Shape.modelledKindError k) else .ok (variant (.other k {}))
  else .ok (fish (Fish.ofKind k))

/-- The schema that text of a kind of model is read by. -/
def shapeOf : ModelKind → Shape
  | .resource => .resource
  | .innerModel => .innerModel
  | .fish => .fish
  | .shark => .shark
  | .salmon => .salmon
  | .otherFish => .otherFish

/-- A checked record of the kind, as a model with nothing assigned. -/
def ofChecked (kind : ModelKind) (j : Json) : AnyModel :=
  let tagged (k : String) : Json :=
    match j with
    | .object fs => .object (Keyed.insert fs "kind" (.string k))
    | _ => j
  match kind with
  | .resource => resource (Resource.ofChecked j)
  | .innerModel => inner (InnerModel.ofChecked j)
  | .fish => fish (Fish.ofChecked j)
  | .shark => variant (Fish.ofChecked (tagged "shark"))
  | .salmon => variant (Fish.ofChecked (tagged "salmon"))
  | .otherFish => variant (Fish.ofChecked j)

/-- Reads a model of the kind from JSON text. -/
def fromText (kind : ModelKind) (input : ByteArray) : Except ModelError AnyModel :=
  ofChecked kind <$> readShapeText (.ref (shapeOf kind)) input

/-- The schema of the value of a typed setter, and how it assigns the value read.

A nested model given to a setter (the inner model, the fish, a partner, the models of the map
and the array) is read from its JSON form as `ofChecked` reads it, so it arrives with nothing
assigned and its merge-patch flag off. A nested model handed over with a tracker of its own,
fields already assigned or its flag on, is not among the inputs modelled here. -/
def setter (m : AnyModel) (field : String) : Option (Schema Shape × (Json → AnyModel)) :=
  let opt (s : Schema Shape) := Schema.option s
  match m with
  | resource r =>
    if field = "description" then some (opt .string, fun j => resource (r.withDescription j.str?))
    else if field = "map" then
      some (opt (.dict (opt (.ref .innerModel))), fun j => resource (r.withMap (Resource.mapOfChecked j)))
    else if field = "longValue" then some (opt (.int .i64), fun j => resource (r.withLongValue j.int64?))
    else if field = "intValue" then some (opt (.int .i32), fun j => resource (r.withIntValue j.int32?))
    else if field = "enumValue" then
      some (opt .string, fun j => resource (r.withEnumValue (j.str?.map EnumValue.ofString)))
    else if field = "innerModelProperty" then
      some (opt (.ref .innerModel), fun j =>
        resource (r.withInnerModelProperty (if j.isObject then some (InnerModel.ofChecked j) else none)))
    else if field = "array" then
      some (opt (.seq (.ref .innerModel)), fun j => resource (r.withArray (Resource.arrayOfChecked j)))
    else if field = "fish" then
      some (opt (.ref .fish), fun j => resource (r.withFish (if j.isObject then some (Fish.ofChecked j) else none)))
    else none
  | inner n =>
    if field = "name" then some (opt .string, fun j => inner (n.withName j.str?))
    else if field = "description" then some (opt .string, fun j => inner (n.withDescription j.str?))
    else none
  | fish _ => none
  | variant f =>
    if field = "name" then some (opt .string, fun j => variant (f.withName j.str?))
    else if field = "age" then some (opt (.int .i32), fun j => variant (f.withAge j.int32?))
    else if field = "color" then some (opt .string, fun j => variant (f.withColor j.str?))
    else match f with
      | .shark .. =>
        if field = "weight" then some (opt (.int .i32), fun j => variant (f.withWeight j.int32?))
        else none
      | .salmon .. =>
        if field = "partner" then
          some (opt (.ref .fish), fun j =>
            variant (f.withPartner (if j.isObject then some (Fish.ofChecked j) else none)))
        else none
      | .other .. => none

/-- The typed setter `field` applied to a value read from JSON; `none` when the model has no
such setter. -/
def withValue (m : AnyModel) (field : String) (v : Json) : Option (Except Mismatch AnyModel) :=
  (m.setter field).map fun (s, assign) => assign <$> readShape s v

end AnyModel

end MergePatch
