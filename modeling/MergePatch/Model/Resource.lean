import MergePatch.Model.Fish
import MergePatch.Model.EnumValue
/-!
# Resources

A resource has a read-only `id` and `name`, an optional `description`, a `map` from keys to
optional inner models, a 64-bit `longValue`, a 32-bit `intValue`, an `enumValue`, a nested inner
model (written as `wireNameForInnerModelProperty`), an `array` of inner models and a `fish`.

It writes `description`, `map`, `longValue`, `intValue`, `enumValue`, the inner model, `array`
and `fish`, in that order, by the rules of `Tracker`; `id` and `name` are never written.

A dynamic path is a field name or `head.rest`. `innerModelProperty.f` assigns a field of the
inner model, creating it if absent; `fish.p` needs a fish; `map.k` assigns the entry `k` whole,
and `map.k.f` a field of that entry, creating it if absent. Every successful assignment marks the
top-level field it went through; a failed one changes nothing.
-/

namespace MergePatch

/-- A resource. -/
structure Resource where
  id : Option String := none
  name : Option String := none
  description : Option String := none
  map : Option (Keyed (Option InnerModel)) := none
  longValue : Option Int64 := none
  intValue : Option Int32 := none
  enumValue : Option EnumValue := none
  innerModelProperty : Option InnerModel := none
  array : Option (List InnerModel) := none
  fish : Option Fish := none
  tracker : Tracker := {}
deriving Repr, Inhabited

namespace Resource

/-- The model's name in messages. -/
def modelName : String := "Resource"

/-- The fields that hold no nested model. -/
def flatFields : List String :=
  ["id", "name", "description", "longValue", "intValue", "enumValue", "array"]

/-- Entries of a checked map. -/
def mapOfChecked : Json → Option (Keyed (Option InnerModel))
  | .object es => some (es.map fun (k, e) =>
      (k, match e with
        | .object _ => some (InnerModel.ofChecked e)
        | _ => none))
  | _ => none

/-- Inner models of a checked array. -/
def arrayOfChecked : Json → Option (List InnerModel)
  | .array xs => some (xs.map InnerModel.ofChecked)
  | _ => none

/-- The resource read from a checked record, with nothing assigned. -/
def ofChecked (j : Json) : Resource :=
  { id := j.textAt "id", name := j.textAt "name", description := j.textAt "description",
    map := (j.get? "map").bind mapOfChecked,
    longValue := (j.get? "longValue").bind Json.int64?,
    intValue := (j.get? "intValue").bind Json.int32?,
    enumValue := (j.textAt "enumValue").map EnumValue.ofString,
    innerModelProperty := match j.get? "wireNameForInnerModelProperty" with
      | some (.object fs) => some (InnerModel.ofChecked (.object fs))
      | _ => none,
    array := (j.get? "array").bind arrayOfChecked,
    fish := match j.get? "fish" with
      | some (.object fs) => some (Fish.ofChecked (.object fs))
      | _ => none }

/-- The map written with each model in its own mode, or each as a merge patch. -/
def writeMap (es : Keyed (Option InnerModel)) (asPatch : Bool) : Json :=
  .object (es.map fun (k, e) =>
    (k, match e with
      | some m => if asPatch then m.write true else m.writeOwn
      | none => .null))

/-- The resource written in mode `merge`, members in writing order. -/
def write (r : Resource) (merge : Bool) : Json :=
  let t := r.tracker
  .object (
    t.member merge "description" "description" (optString r.description) ++
    t.member merge "map" "map" (r.map.map (writeMap · merge)) ++
    t.member merge "longValue" "longValue" (optInt64 r.longValue) ++
    t.member merge "intValue" "intValue" (optInt32 r.intValue) ++
    t.member merge "enumValue" "enumValue" (r.enumValue.map fun e => .string e.asString) ++
    t.member merge "innerModelProperty" "wireNameForInnerModelProperty"
      (r.innerModelProperty.map fun m => m.write (merge || m.tracker.mergePatch)) ++
    t.member merge "array" "array" (r.array.map fun xs => .array (xs.map InnerModel.writeOwn)) ++
    t.member merge "fish" "fish" (r.fish.map fun f => f.write (merge || f.tracker.mergePatch)))

/-- Equality of two optional inner models. -/
def sameInner : Option InnerModel → Option InnerModel → Bool
  | some a, some b => a.same b
  | none, none => true
  | _, _ => false

/-- Equality of all fields at every depth, whatever was assigned. -/
def same (a b : Resource) : Bool :=
  a.id == b.id && a.name == b.name && a.description == b.description &&
  (match a.map, b.map with
    | some x, some y => x.length == y.length &&
        (x.zip y).all fun ((k, e), (l, f)) => k == l && sameInner e f
    | none, none => true
    | _, _ => false) &&
  a.longValue == b.longValue && a.intValue == b.intValue && a.enumValue == b.enumValue &&
  sameInner a.innerModelProperty b.innerModelProperty &&
  (match a.array, b.array with
    | some x, some y => x.length == y.length && (x.zip y).all fun (m, n) => m.same n
    | none, none => true
    | _, _ => false) &&
  (match a.fish, b.fish with
    | some f, some g => f.same g
    | none, none => true
    | _, _ => false)

/-! ## Typed setters -/

/-- Marks the field `f` as assigned. -/
def mark (r : Resource) (f : String) : Resource := { r with tracker := r.tracker.mark f }

/-- Sets the description and marks it. -/
def withDescription (r : Resource) (v : Option String) : Resource :=
  { r with description := v }.mark "description"

/-- Sets the map and marks it. -/
def withMap (r : Resource) (v : Option (Keyed (Option InnerModel))) : Resource :=
  { r with map := v }.mark "map"

/-- Sets the 64-bit value and marks it. -/
def withLongValue (r : Resource) (v : Option Int64) : Resource :=
  { r with longValue := v }.mark "longValue"

/-- Sets the 32-bit value and marks it. -/
def withIntValue (r : Resource) (v : Option Int32) : Resource :=
  { r with intValue := v }.mark "intValue"

/-- Sets the enumerated value and marks it. -/
def withEnumValue (r : Resource) (v : Option EnumValue) : Resource :=
  { r with enumValue := v }.mark "enumValue"

/-- Sets the nested inner model and marks it. -/
def withInnerModelProperty (r : Resource) (v : Option InnerModel) : Resource :=
  { r with innerModelProperty := v }.mark "innerModelProperty"

/-- Sets the array and marks it. -/
def withArray (r : Resource) (v : Option (List InnerModel)) : Resource :=
  { r with array := v }.mark "array"

/-- Sets the fish and marks it. -/
def withFish (r : Resource) (v : Option Fish) : Resource :=
  { r with fish := v }.mark "fish"

/-! ## Dynamic access -/

/-- Builds each entry of a map assigned whole as an object. -/
def entriesOfTracked (field : String) :
    List (String × Json) → Except ModelError (Keyed (Option InnerModel))
  | [] => .ok []
  | (k, e) :: rest => do
    let m ← InnerModel.ofTracked field e
    let ms ← entriesOfTracked field rest
    pure ((k, m) :: ms)

/-- Assigns through a dotted path `head.rest`; `field` is the whole path. -/
def setNested (r : Resource) (field head rest : String) (v : Json) : Except ModelError Resource :=
  if head = "innerModelProperty" then do
    let inner ← (r.innerModelProperty.getD {}).set rest v
    pure ({ r with innerModelProperty := some inner }.mark head)
  else if head = "fish" then
    match r.fish with
    | none => .error (.invalidPath ("'" ++ field ++ "': fish is not set"))
    | some f => do
      let f ← f.set rest v
      pure ({ r with fish := some f }.mark head)
  else if head = "map" then
    let entries := r.map.getD []
    match splitOnce rest '.' with
    | none => do
      let e ← InnerModel.ofTracked field v
      pure ({ r with map := some (Keyed.insert entries rest e) }.mark head)
    | some (key, member) => do
      let entry ← (((Keyed.get? entries key).join).getD {}).set member v
      pure ({ r with map := some (Keyed.insert entries key (some entry)) }.mark head)
  else if flatFields.contains head then
    .error (.invalidPath ("'" ++ field ++ "': '" ++ head ++ "' has no nested fields"))
  else .error (.unknownField modelName head)

/-- Assigns the field or dotted path `field` from a JSON value. -/
def set (r : Resource) (field : String) (v : Json) : Except ModelError Resource :=
  match splitOnce field '.' with
  | some (head, rest) => r.setNested field head rest v
  | none =>
    if field = "id" ∨ field = "name" then .error (.readOnlyField modelName field)
    else if field = "description" then do
      let j ← decodeField field (.option .string) v
      pure ({ r with description := j.str? }.mark field)
    else if field = "map" then
      match v with
      | .object es => do
        let entries ← entriesOfTracked field es
        pure ({ r with map := some entries }.mark field)
      | _ => do
        let j ← decodeField field (.option (.dict (.option (.ref .innerModel)))) v
        pure ({ r with map := mapOfChecked j }.mark field)
    else if field = "longValue" then do
      let j ← decodeField field (.option (.int .i64)) v
      pure ({ r with longValue := j.int64? }.mark field)
    else if field = "intValue" then do
      let j ← decodeField field (.option (.int .i32)) v
      pure ({ r with intValue := j.int32? }.mark field)
    else if field = "enumValue" then do
      let j ← decodeField field (.option .string) v
      pure ({ r with enumValue := j.str?.map EnumValue.ofString }.mark field)
    else if field = "innerModelProperty" then do
      let m ← InnerModel.ofTracked field v
      pure ({ r with innerModelProperty := m }.mark field)
    else if field = "array" then do
      let j ← decodeField field (.option (.seq (.ref .innerModel))) v
      pure ({ r with array := arrayOfChecked j }.mark field)
    else if field = "fish" then do
      let f ← Fish.ofTracked field v
      pure ({ r with fish := f }.mark field)
    else .error (.unknownField modelName field)

/-- Reads through a dotted path `head.rest`; an absent nested model reads `null`. -/
def getNested (r : Resource) (head rest : String) : Except ModelError Json :=
  if head = "innerModelProperty" then
    match r.innerModelProperty with
    | none => .ok .null
    | some m => m.get rest
  else if head = "fish" then
    match r.fish with
    | none => .ok .null
    | some f => f.get rest
  else if head = "map" then
    let (key, member) := match splitOnce rest '.' with
      | some (k, m) => (k, some m)
      | none => (rest, none)
    match (r.map.bind (Keyed.get? · key)).join, member with
    | none, _ => .ok .null
    | some e, some m => e.get m
    | some e, none => .ok e.toJson
  else .error (.invalidPath ("'" ++ head ++ "." ++ rest ++ "' is not a nested path"))

/-- Reads the field or dotted path `field` as JSON. -/
def get (r : Resource) (field : String) : Except ModelError Json :=
  match splitOnce field '.' with
  | some (head, rest) => r.getNested head rest
  | none =>
    if field = "id" then .ok (Json.ofOption .string r.id)
    else if field = "name" then .ok (Json.ofOption .string r.name)
    else if field = "description" then .ok (Json.ofOption .string r.description)
    else if field = "map" then
      .ok (Json.ofOption (fun es => .object (es.map fun (k, e) =>
        (k, match e with
          | some m => m.toJson
          | none => .null))) r.map)
    else if field = "longValue" then .ok (Json.ofOption (fun i => Json.int i.toInt) r.longValue)
    else if field = "intValue" then .ok (Json.ofOption (fun i => Json.int i.toInt) r.intValue)
    else if field = "enumValue" then
      .ok (Json.ofOption (fun e => .string e.asString) r.enumValue)
    else if field = "innerModelProperty" then .ok (Json.ofOption InnerModel.toJson r.innerModelProperty)
    else if field = "array" then
      .ok (Json.ofOption (fun xs => .array (xs.map fun m => m.writeOwn.normalize)) r.array)
    else if field = "fish" then .ok (Json.ofOption Fish.toJson r.fish)
    else .error (.unknownField modelName field)

end Resource

end MergePatch
