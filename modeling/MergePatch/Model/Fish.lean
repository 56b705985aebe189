import MergePatch.Model.Inner
/-!
# Fish

A fish is a shark, which adds a `weight`; a salmon, which may have a `partner` fish; or a fish of
any other kind, which has the common fields only. Every fish has an `id` that may only be read,
an optional `name`, `age` and `color`, and its own tracker.

A fish is written with its `kind` first and then its fields, the partner as a nested model. A
dynamic path `partner.p` reaches into the partner, which must be set; assigning `partner` whole
builds a fish from an object by its string `kind`, then assigns the other members in key order.
The kind of a fish is fixed: it may be read, never assigned.

Two levels of access differ only in `kind`: `Fish.set` and `Fish.get` treat `kind` as a
read-only field of every fish, while `setMember` and `getMember` are the access of the variant
alone, which knows no `kind` field.
-/

namespace MergePatch

/-- The fields every fish has. -/
structure FishCore where
  id : Option String := none
  name : Option String := none
  age : Option Int32 := none
  color : Option String := none
  tracker : Tracker := {}
deriving Repr, Inhabited

namespace FishCore

/-- The common fields written in mode `merge`: name, age and color. -/
def members (c : FishCore) (merge : Bool) : List (String × Json) :=
  c.tracker.member merge "name" "name" (optString c.name) ++
    c.tracker.member merge "age" "age" (optInt32 c.age) ++
    c.tracker.member merge "color" "color" (optString c.color)

/-- Records that the field `f` has been assigned. -/
def mark (c : FishCore) (f : String) : FishCore := { c with tracker := c.tracker.mark f }

/-- Equality of the common fields. -/
def same (a b : FishCore) : Bool :=
  a.id == b.id && a.name == b.name && a.age == b.age && a.color == b.color

/-- The common fields of a checked record. -/
def ofChecked (j : Json) : FishCore :=
  { id := j.textAt "id", name := j.textAt "name", age := (j.get? "age").bind Json.int32?,
    color := j.textAt "color" }

end FishCore

/-- A fish: a shark, a salmon, or a fish of another kind. -/
inductive Fish where
  /-- A shark, with its weight. -/
  | shark (core : FishCore) (weight : Option Int32)
  /-- A salmon, with its partner. -/
  | salmon (core : FishCore) (partner : Option Fish)
  /-- A fish of a kind that has no model of its own. -/
  | other (kind : String) (core : FishCore)
deriving Repr, Inhabited

namespace Fish

/-- The kind of the fish. -/
def kind : Fish → String
  | shark .. => "shark"
  | salmon .. => "salmon"
  | other k _ => k

/-- The common fields. -/
def core : Fish → FishCore
  | shark c _ => c
  | salmon c _ => c
  | other _ c => c

/-- The same fish with other common fields. -/
def withCore : Fish → FishCore → Fish
  | shark _ w, c => shark c w
  | salmon _ p, c => salmon c p
  | other k _, c => other k c

/-- The fish's tracker. -/
def tracker (f : Fish) : Tracker := f.core.tracker

/-- The name of the fish's model in messages. -/
def modelName : Fish → String
  | shark .. => "Shark"
  | salmon .. => "Salmon"
  | other .. => "Fish"

/-- A new fish of the kind `k`, with nothing set. -/
def ofKind (k : String) : Fish :=
  if k = "shark" then shark {} none else if k = "salmon" then salmon {} none else other k {}

/-- The fish written in mode `merge`: the kind, the common fields, then the weight or the
partner. In merge-patch mode a partner is itself written as a merge patch. -/
def write : Fish → Bool → Json
  | shark c w, merge =>
    .object ([("kind", .string "shark")] ++ c.members merge ++
      c.tracker.member merge "weight" "weight" (optInt32 w))
  | salmon c p, merge =>
    let partner := match p with
      | some q => some (write q (merge || q.tracker.mergePatch))
      | none => none
    .object ([("kind", .string "salmon")] ++ c.members merge ++
      c.tracker.member merge "partner" "partner" partner)
  | other k c, merge => .object ([("kind", .string k)] ++ c.members merge)

/-- The fish written in its own mode. -/
def writeOwn (f : Fish) : Json := f.write f.tracker.mergePatch

/-- The fish written in full, with members in key order. -/
def toJson (f : Fish) : Json := (f.write false).normalize

/-- Equality of all fields at every depth, whatever was assigned. -/
def same : Fish → Fish → Bool
  | shark c w, shark d v => c.same d && w == v
  | salmon c p, salmon d q =>
    c.same d && match p, q with
      | some p, some q => same p q
      | none, none => true
      | _, _ => false
  | other k c, other l d => k == l && c.same d
  | _, _ => false

/-- The fish read from a checked record; `fuel` bounds the chain of partners. -/
def ofCheckedWith : Nat → Json → Fish
  | 0, j => other (j.textAt "kind" |>.getD "") (FishCore.ofChecked j)
  | fuel + 1, j =>
    let c := FishCore.ofChecked j
    match j.textAt "kind" with
    | some "shark" => shark c ((j.get? "weight").bind Json.int32?)
    | some "salmon" =>
      match j.get? "partner" with
      | some (.object fs) => salmon c (some (ofCheckedWith fuel (.object fs)))
      | _ => salmon c none
    | k => other (k.getD "") c

/-- The fish read from a checked record, with nothing assigned. -/
def ofChecked (j : Json) : Fish := ofCheckedWith j.size j

/-! ## Typed setters -/

/-- Sets the name and marks it. -/
def withName (f : Fish) (v : Option String) : Fish :=
  f.withCore { f.core with name := v, tracker := f.tracker.mark "name" }

/-- Sets the age and marks it. -/
def withAge (f : Fish) (v : Option Int32) : Fish :=
  f.withCore { f.core with age := v, tracker := f.tracker.mark "age" }

/-- Sets the color and marks it. -/
def withColor (f : Fish) (v : Option String) : Fish :=
  f.withCore { f.core with color := v, tracker := f.tracker.mark "color" }

/-- Sets a shark's weight and marks it; other fish have no weight. -/
def withWeight : Fish → Option Int32 → Fish
  | shark c _, v => shark (c.mark "weight") v
  | f, _ => f

/-- Sets a salmon's partner and marks it; other fish have no partner. -/
def withPartner : Fish → Option Fish → Fish
  | salmon c _, p => salmon (c.mark "partner") p
  | f, _ => f

/-! ## Dynamic access -/

/-- Assigns a field that every variant handles alike: `id` is read-only, `name`, `age` and
`color` are common, `weight` belongs to sharks. -/
def setCommon (f : Fish) (field : String) (v : Json) : Except ModelError Fish :=
  if field = "id" then .error (.readOnlyField f.modelName field)
  else if field = "name" then do
    let j ← decodeField field (.option .string) v
    pure (f.withName j.str?)
  else if field = "age" then do
    let j ← decodeField field (.option (.int .i32)) v
    pure (f.withAge j.int32?)
  else if field = "color" then do
    let j ← decodeField field (.option .string) v
    pure (f.withColor j.str?)
  else match f with
    | shark .. =>
      if field = "weight" then do
        let j ← decodeField field (.option (.int .i32)) v
        pure (f.withWeight j.int32?)
      else .error (.unknownField f.modelName field)
    | _ => .error (.unknownField f.modelName field)

theorem size_pos (j : Json) : 0 < j.size := by
  unfold Json.size
  split <;> omega

mutual

/-- Assigns a field of the variant from a JSON value. -/
def setMember (f : Fish) (field : String) (v : Json) : Except ModelError Fish :=
  match f with
  | salmon c p =>
    match dropPrefix? field "partner." with
    | some rest =>
      match p with
      | none => .error (.invalidPath ("'" ++ field ++ "': partner is not set"))
      | some q =>
        if rest = "kind" then .error (.readOnlyField "Fish" "kind") else do
        let q' ← q.setMember rest v
        pure (salmon (c.mark "partner") (some q'))
    | none =>
      if field = "partner" then do
        let np ← ofTracked "partner" v
        pure (salmon (c.mark "partner") np)
      else setCommon (salmon c p) field v
  | f => setCommon f field v
termination_by (v.size, sizeOf f + 2)
decreasing_by
  all_goals
    apply Prod.Lex.right
    simp only [salmon.sizeOf_spec, Option.some.sizeOf_spec]
    omega

/-- The fish built from a value assigned whole to `field`: `null` gives none; an object needs a
string `kind`, and its other members are assigned in key order. -/
def ofTracked (field : String) (v : Json) : Except ModelError (Option Fish) :=
  match v with
  | .null => .ok none
  | .object fs =>
    match Keyed.get? fs "kind" with
    | some (.string k) => some <$> setAll (ofKind k) fs
    | _ => .error (.invalidValue field "missing string discriminator 'kind'")
  | j => .error (.invalidValue field ("expected object or null, found " ++ j.kindName))
termination_by (v.size, 1)
decreasing_by
  simp only [Json.size]
  rw [Nat.add_comm 1]
  exact Prod.Lex.right _ (by omega)

/-- Assigns the members of an object in turn, except `kind`. -/
def setAll (f : Fish) (fs : List (String × Json)) : Except ModelError Fish :=
  match fs with
  | [] => .ok f
  | (k, x) :: rest =>
    if k = "kind" then setAll f rest else do
    let f ← f.setMember k x
    setAll f rest
termination_by (Json.size.sizeFields fs + 1, 0)
decreasing_by
  all_goals
    apply Prod.Lex.left
    have := size_pos x
    simp only [Json.size.sizeFields]
    omega

end

/-- Assigns a field of any fish: `kind` is read-only, all else goes to the variant. -/
def set (f : Fish) (field : String) (v : Json) : Except ModelError Fish :=
  if field = "kind" then .error (.readOnlyField "Fish" field) else f.setMember field v

/-- Reads a field that every variant handles alike. -/
def getCommon (f : Fish) (field : String) : Except ModelError Json :=
  let c := f.core
  if field = "id" then .ok (Json.ofOption .string c.id)
  else if field = "name" then .ok (Json.ofOption .string c.name)
  else if field = "age" then .ok (Json.ofOption (fun i => Json.int i.toInt) c.age)
  else if field = "color" then .ok (Json.ofOption .string c.color)
  else match f with
    | shark _ w =>
      if field = "weight" then .ok (Json.ofOption (fun i => Json.int i.toInt) w)
      else .error (.unknownField f.modelName field)
    | _ => .error (.unknownField f.modelName field)

/-- Reads a field of the variant as JSON; a path into an absent partner reads `null`. -/
def getMember : Fish → String → Except ModelError Json
  | salmon c p, field =>
    match dropPrefix? field "partner." with
    | some rest =>
      match p with
      | none => .ok .null
      | some q => if rest = "kind" then .ok (.string q.kind) else q.getMember rest
    | none =>
      if field = "partner" then
        .ok (match p with
          | some q => q.toJson
          | none => .null)
      else getCommon (salmon c p) field
  | f, field => getCommon f field

/-- Reads a field of any fish: `kind` gives the kind, all else goes to the variant. -/
def get (f : Fish) (field : String) : Except ModelError Json :=
  if field = "kind" then .ok (.string f.kind) else f.getMember field

end Fish

end MergePatch
