import MergePatch.Json.Read
import MergePatch.Model.Error
/-!
# The JSON shapes of the models

`Shape` names the models that JSON text or values are read into, and `Shape.schema` gives the
schema of each. Every field of a model is optional: a member left out reads as absent, and a
model also reads from an array of all its fields in order. A fish is read by its `kind`: `shark`
and `salmon` have models of their own, and any other kind is a fish with the common fields
only, which refuses the kinds `shark` and `salmon`.

`decodeField` reads the value assigned to a field by the field's schema; a mismatch becomes an
invalid value for that field, in the mismatch's words.
-/

namespace MergePatch

/-- The models that JSON is read into. -/
inductive Shape where
  | resource
  | innerModel
  | fish
  | shark
  | salmon
  | otherFish
deriving DecidableEq, Repr

namespace Shape

/-- An optional string field. -/
def optText (name : String) : String × Absent × Schema Shape := (name, .null, .option .string)

/-- An optional 32-bit integer field. -/
def optInt32 (name : String) : String × Absent × Schema Shape := (name, .null, .option (.int .i32))

/-- The model a fish of kind `k` is read into. -/
def ofKind (k : String) : Shape :=
  if k = "shark" then .shark else if k = "salmon" then .salmon else .otherFish

/-- Whether a kind of fish has a model of its own. -/
def isModelledKind (k : String) : Bool := k == "shark" || k == "salmon"

/-- The refusal of a modelled kind where another kind is expected. -/
def modelledKindError (k : String) : ModelError :=
  .invalidValue "kind" ("'" ++ k ++ "' has its own model")

/-- Accepts the kind of a fish without a model of its own. -/
def checkOtherKind (j : Json) : Except String Json :=
  match j with
  | .string k => if isModelledKind k then .error (modelledKindError k).message else .ok j
  | _ => .ok j

/-- The schema of each model. -/
def schema : Shape → Schema Shape
  | resource => .record "Resource"
      [optText "id", optText "name", optText "description",
       ("map", .null, .option (.dict (.option (.ref innerModel)))),
       ("longValue", .null, .option (.int .i64)), optInt32 "intValue", optText "enumValue",
       ("wireNameForInnerModelProperty", .null, .option (.ref innerModel)),
       ("array", .null, .option (.seq (.ref innerModel))),
       ("fish", .null, .option (.ref fish))] []
  | innerModel => .record "InnerModel" [optText "name", optText "description"] []
  | fish => .tagged "kind" ofKind
  | shark => .record "Shark"
      [optText "id", optText "name", optInt32 "age", optText "color", optInt32 "weight"] []
  | salmon => .record "Salmon"
      [optText "id", optText "name", optInt32 "age", optText "color",
       ("partner", .null, .option (.ref fish))] []
  | otherFish => .record "GenericFish"
      [("kind", .required, .refine .string checkOtherKind),
       optText "id", optText "name", optInt32 "age", optText "color"] []

end Shape

/-- Reads a value held in memory by a schema over the model shapes. -/
def readShape (s : Schema Shape) (v : Json) : Except Mismatch Json :=
  Schema.read Shape.schema s v

/-- Reads the value assigned to `field` by the field's schema. -/
def decodeField (field : String) (s : Schema Shape) (v : Json) : Except ModelError Json :=
  match readShape s v with
  | .ok j => .ok j
  | .error m => .error (.invalidValue field m.message)

/-- Reads model text by a schema over the model shapes. -/
def readShapeText (s : Schema Shape) (input : ByteArray) : Except ModelError Json :=
  match Schema.readText Shape.schema s input with
  | .ok j => .ok j
  | .error e => .error (.deserialization e)

/-- A checked optional 32-bit integer. -/
def Json.int32? (j : Json) : Option Int32 := j.intValue?.map Int32.ofInt

/-- A checked optional 64-bit integer. -/
def Json.int64? (j : Json) : Option Int64 := j.intValue?.map Int64.ofInt

end MergePatch
