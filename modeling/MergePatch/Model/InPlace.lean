import MergePatch.Patch.Assignment
/-!
# Models held by reference

A client holds a model and calls act on it in place. Two kinds of call change the model while
they run.

*Assignment.* `setIn` assigns a field or path of the model held as the state of an `EStateM`
procedure, and a failure ends the procedure in whatever state it had reached. A field's value is
decoded before it is stored, and the field is marked after. A path into a nested model sets a
copy of that model (`onCopy`), which is put back, and the top-level field marked, once the inner
assignment has gone through. A nested model assigned whole is built on its own and stored once
it is complete.

*Writing.* Each model's merge-patch flag is a cell that writing may change through a shared
reference. A write in the scope `some b` sets the flag to `b` while it runs and then puts back
the value it found; a write with no scope uses the flag as it is. A model written as a merge
patch writes each assigned nested model, and each model of an assigned map of models, in a scope
that raises the nested model's flag; a model written in full writes each nested model in the
nested model's own mode. `writeIn` gives the JSON together with the model as the write leaves
it. Reading a nested model whole as JSON (`getIn`) writes it in full the same way.
-/

namespace MergePatch

/-- Runs `act` on a copy `x` of a part of the model and gives the copy as `act` leaves it. The
model itself is not touched, and when `act` fails the copy is dropped. -/
def onCopy {ε σ τ : Type} (x : τ) (act : EStateM ε τ Unit) : EStateM ε σ τ := fun s =>
  match act.run x with
  | .ok _ x' => .ok x' s
  | .error e _ => .error e s

/-- A result of a procedure on a part, as a result on the whole that `wrap` builds around it. -/
def liftResult {ε σ τ α : Type} (wrap : τ → σ) : EStateM.Result ε τ α → EStateM.Result ε σ α
  | .ok a t => .ok a (wrap t)
  | .error e t => .error e (wrap t)

/-- The state a procedure ends in, whether it succeeded or failed. -/
def endState {ε σ α : Type} : EStateM.Result ε σ α → σ
  | .ok _ s => s
  | .error _ s => s

/-- Runs a write on an optional part: nothing is written when the part is absent. -/
def optIn {τ α : Type} (act : StateM τ α) : StateM (Option τ) (Option α)
  | none => (none, none)
  | some x => Prod.map some some (act x)

/-- A nested model written by the model around it in mode `merge`. In merge-patch mode it is
written in a scope that raises its flag when it has been assigned, and not at all otherwise; in
full mode it is written in its own mode. -/
def nestedIn {τ : Type} (writeIn : Option Bool → StateM τ Json) (merge assigned : Bool) :
    StateM (Option τ) (Option Json) := fun p =>
  if merge then
    if assigned then optIn (writeIn (some true)) p else (none, p)
  else optIn (writeIn none) p

namespace Tracker

/-- The tracker while a write in the scope `scope` runs: `some b` sets the flag to `b`. -/
def enter (t : Tracker) : Option Bool → Tracker
  | some b => t.withMode b
  | none => t

/-- The tracker when a write in the scope `scope` ends: a scope puts back the flag `prior` it
found. -/
def leave (t : Tracker) (prior : Bool) : Option Bool → Tracker
  | some _ => t.withMode prior
  | none => t

end Tracker

/-! ## Inner models -/

namespace InnerModel

/-- Assigns `field` in place: the value is decoded, stored, and then the field is marked. -/
def setIn (field : String) (v : Json) : EStateM ModelError InnerModel Unit :=
  if field = "name" then do
    let j ← liftExcept (decodeField field (.option .string) v)
    modify fun m => { m with name := j.str? }
    modify fun m => { m with tracker := m.tracker.mark field }
  else if field = "description" then do
    let j ← liftExcept (decodeField field (.option .string) v)
    modify fun m => { m with description := j.str? }
    modify fun m => { m with tracker := m.tracker.mark field }
  else throw (.unknownField modelName field)

/-- Writes the model in place in the scope `scope`. An inner model holds no nested model, so the
write reads its fields in the mode the scope gives. -/
def writeIn (scope : Option Bool) : StateM InnerModel Json := fun m =>
  let t := m.tracker.enter scope
  ({ m with tracker := t }.write t.mergePatch, { m with tracker := t.leave m.tracker.mergePatch scope })

/-- The model written in full, in place, members in key order. -/
def toJsonIn : StateM InnerModel Json := Json.normalize <$> writeIn (some false)

end InnerModel

/-! ## Fish -/

/-- Each prefix `partner.` cut from a path makes it shorter. -/
theorem dropPrefix?_length_lt {s p r : String} (hp : 0 < p.length) (h : dropPrefix? s p = some r) :
    r.length < s.length := by
  unfold dropPrefix? at h
  split at h
  · rename_i hpre
    cases h
    have hle : p.toList.length ≤ s.toList.length := (List.isPrefixOf_iff_prefix.mp hpre).length_le
    simp only [String.length_ofList, List.length_drop, String.length_toList] at hle ⊢
    omega
  · cases h

namespace Fish

/-- Records that the field `field` has been assigned. -/
def mark (f : Fish) (field : String) : Fish := f.withCore (f.core.mark field)

/-- Stores a shark's weight; other fish have none. -/
def putWeight : Fish → Option Int32 → Fish
  | shark c _, w => shark c w
  | f, _ => f

/-- Stores a salmon's partner; other fish have none. -/
def putPartner : Fish → Option Fish → Fish
  | salmon c _, p => salmon c p
  | f, _ => f

/-- Assigns in place a field that every variant handles alike, then marks it. -/
def setCommonIn (field : String) (v : Json) : EStateM ModelError Fish Unit := do
  let f ← getThe Fish
  if field = "id" then throw (.readOnlyField f.modelName field)
  else if field = "name" then
    let j ← liftExcept (decodeField field (.option .string) v)
    modify fun f => f.withCore { f.core with name := j.str? }
  else if field = "age" then
    let j ← liftExcept (decodeField field (.option (.int .i32)) v)
    modify fun f => f.withCore { f.core with age := j.int32? }
  else if field = "color" then
    let j ← liftExcept (decodeField field (.option .string) v)
    modify fun f => f.withCore { f.core with color := j.str? }
  else match f with
    | shark .. =>
      if field = "weight" then
        let j ← liftExcept (decodeField field (.option (.int .i32)) v)
        modify (·.putWeight j.int32?)
      else throw (.unknownField f.modelName field)
    | _ => throw (.unknownField f.modelName field)
  modify (·.mark field)

/-- Assigns in place a field of the variant. A path `partner.rest` sets a copy of the partner,
which is put back, and `partner` marked, once that has gone through; a partner assigned whole is
built on its own first. -/
def setMemberIn (field : String) (v : Json) : EStateM ModelError Fish Unit := do
  match (← getThe Fish), _hrest : dropPrefix? field "partner." with
  | salmon _ p, some rest =>
    let some q := p | throw (.invalidPath ("'" ++ field ++ "': partner is not set"))
    -- the partner is a fish of any kind, whose kind is read-only
    if rest = "kind" then throw (.readOnlyField "Fish" "kind")
    let q' ← onCopy q (setMemberIn rest v)
    modify (·.putPartner (some q'))
    modify (·.mark "partner")
  | salmon .., none =>
    if field = "partner" then
      let np ← liftExcept (ofTracked "partner" v)
      modify (·.putPartner np)
      modify (·.mark "partner")
    else setCommonIn field v
  | _, _ => setCommonIn field v
termination_by field.length
decreasing_by exact dropPrefix?_length_lt (by decide) _hrest

/-- Assigns in place a field of any fish: `kind` is read-only, all else goes to the variant. -/
def setIn (field : String) (v : Json) : EStateM ModelError Fish Unit :=
  if field = "kind" then throw (.readOnlyField "Fish" field) else setMemberIn field v

/-- Writes the fish in place in the scope `scope`: the kind, the common fields, then the weight
or the partner, which is a nested model. -/
def writeIn (scope : Option Bool) : StateM Fish Json := fun f =>
  match f with
  | shark c w =>
    let t := c.tracker.enter scope
    (write (shark { c with tracker := t } w) t.mergePatch,
      shark { c with tracker := t.leave c.tracker.mergePatch scope } w)
  | other k c =>
    let t := c.tracker.enter scope
    (write (other k { c with tracker := t }) t.mergePatch,
      other k { c with tracker := t.leave c.tracker.mergePatch scope })
  | salmon c p =>
    let t := c.tracker.enter scope
    let merge := t.mergePatch
    -- the partner is written as `nestedIn` writes a nested model
    let partner : Option Json × Option Fish :=
      match p with
      | none => (none, none)
      | some q =>
        if merge then
          if t.isAssigned "partner" then Prod.map some some (writeIn (some true) q)
          else (none, some q)
        else Prod.map some some (writeIn none q)
    (.object ([("kind", .string "salmon")] ++ { c with tracker := t }.members merge ++
        t.member merge "partner" "partner" partner.1),
      salmon { c with tracker := t.leave c.tracker.mergePatch scope } partner.2)

/-- The fish written in full, in place, members in key order. -/
def toJsonIn : StateM Fish Json := Json.normalize <$> writeIn (some false)

/-- Reads a field of the variant as JSON, in place: a partner read whole is written in full. -/
def getMemberIn (field : String) : StateM Fish (Except ModelError Json) := fun f =>
  match f with
  | salmon c p =>
    match dropPrefix? field "partner." with
    | some rest =>
      match p with
      | none => (.ok .null, salmon c none)
      | some q =>
        if rest = "kind" then (.ok (.string q.kind), salmon c (some q))
        else Prod.map id (salmon c ∘ some) (getMemberIn rest q)
    | none =>
      if field = "partner" then Prod.map (.ok ∘ (·.getD .null)) (salmon c) (optIn toJsonIn p)
      else (getCommon (salmon c p) field, salmon c p)
  | f => (getCommon f field, f)

/-- Reads a field of any fish as JSON, in place. -/
def getIn (field : String) : StateM Fish (Except ModelError Json) := fun f =>
  if field = "kind" then (.ok (.string f.kind), f) else getMemberIn field f

end Fish

/-! ## Resources -/

namespace Resource

/-- Assigns in place through a dotted path `head.rest`; `field` is the whole path. The nested
model, or the map, is set as a copy, which is put back once the assignment has gone through. -/
def setNestedIn (field head rest : String) (v : Json) : EStateM ModelError Resource Unit := do
  let r ← getThe Resource
  if head = "innerModelProperty" then
    let inner ← onCopy (r.innerModelProperty.getD {}) (InnerModel.setIn rest v)
    modify fun r => { r with innerModelProperty := some inner }
  else if head = "fish" then
    let some f := r.fish | throw (.invalidPath ("'" ++ field ++ "': fish is not set"))
    let f ← onCopy f (Fish.setIn rest v)
    modify fun r => { r with fish := some f }
  else if head = "map" then
    let entries := r.map.getD []
    match splitOnce rest '.' with
    | none =>
      let e ← liftExcept (InnerModel.ofTracked field v)
      modify fun r => { r with map := some (Keyed.insert entries rest e) }
    | some (key, member) =>
      let entry ← onCopy (((Keyed.get? entries key).join).getD {}) (InnerModel.setIn member v)
      modify fun r => { r with map := some (Keyed.insert entries key (some entry)) }
  else if flatFields.contains head then
    throw (.invalidPath ("'" ++ field ++ "': '" ++ head ++ "' has no nested fields"))
  else throw (.unknownField modelName head)
  modify (·.mark head)

/-- Assigns in place the field or dotted path `field`: the value is decoded, or the nested model
built, before the field is stored, and the field is marked last. -/
def setIn (field : String) (v : Json) : EStateM ModelError Resource Unit :=
  match splitOnce field '.' with
  | some (head, rest) => setNestedIn field head rest v
  | none => do
    if field = "id" ∨ field = "name" then throw (.readOnlyField modelName field)
    else if field = "description" then
      let j ← liftExcept (decodeField field (.option .string) v)
      modify fun r => { r with description := j.str? }
    else if field = "map" then
      match v with
      | .object es =>
        let entries ← liftExcept (entriesOfTracked field es)
        modify fun r => { r with map := some entries }
      | _ =>
        let j ← liftExcept (decodeField field (.option (.dict (.option (.ref .innerModel)))) v)
        modify fun r => { r with map := mapOfChecked j }
    else if field = "longValue" then
      let j ← liftExcept (decodeField field (.option (.int .i64)) v)
      modify fun r => { r with longValue := j.int64? }
    else if field = "intValue" then
      let j ← liftExcept (decodeField field (.option (.int .i32)) v)
      modify fun r => { r with intValue := j.int32? }
    else if field = "enumValue" then
      let j ← liftExcept (decodeField field (.option .string) v)
      modify fun r => { r with enumValue := j.str?.map EnumValue.ofString }
    else if field = "innerModelProperty" then
      let m ← liftExcept (InnerModel.ofTracked field v)
      modify fun r => { r with innerModelProperty := m }
    else if field = "array" then
      let j ← liftExcept (decodeField field (.option (.seq (.ref .innerModel))) v)
      modify fun r => { r with array := arrayOfChecked j }
    else if field = "fish" then
      let f ← liftExcept (Fish.ofTracked field v)
      modify fun r => { r with fish := f }
    else throw (.unknownField modelName field)
    modify (·.mark field)

/-- The entries of a map of models, each model written in place in the scope `scope`. -/
def entriesIn (scope : Option Bool) : StateM (Keyed (Option InnerModel)) Json := fun es =>
  let ws := es.map fun (k, e) => (k, optIn (InnerModel.writeIn scope) e)
  (.object (ws.map fun (k, w) => (k, w.1.getD .null)), ws.map fun (k, w) => (k, w.2))

/-- Writes the resource in place in the scope `scope`, members in writing order. The map, the
inner model and the fish are nested models; the models of the array are written in their own
mode, which reads their flags and changes none. -/
def writeIn (scope : Option Bool) : StateM Resource Json := fun r =>
  let t := r.tracker.enter scope
  let merge := t.mergePatch
  let map := nestedIn entriesIn merge (t.isAssigned "map") r.map
  let inner :=
    nestedIn InnerModel.writeIn merge (t.isAssigned "innerModelProperty") r.innerModelProperty
  let fish := nestedIn Fish.writeIn merge (t.isAssigned "fish") r.fish
  (.object (
    t.member merge "description" "description" (optString r.description) ++
    t.member merge "map" "map" map.1 ++
    t.member merge "longValue" "longValue" (optInt64 r.longValue) ++
    t.member merge "intValue" "intValue" (optInt32 r.intValue) ++
    t.member merge "enumValue" "enumValue" (r.enumValue.map fun e => .string e.asString) ++
    t.member merge "innerModelProperty" "wireNameForInnerModelProperty" inner.1 ++
    t.member merge "array" "array" (r.array.map fun xs => .array (xs.map InnerModel.writeOwn)) ++
    t.member merge "fish" "fish" fish.1),
    { r with map := map.2, innerModelProperty := inner.2, fish := fish.2,
             tracker := t.leave r.tracker.mergePatch scope })

/-- Reads through a dotted path `head.rest` in place: an entry of the map read whole is written
in full. -/
def getNestedIn (head rest : String) : StateM Resource (Except ModelError Json) := fun r =>
  if head = "fish" then
    match r.fish with
    | none => (.ok .null, r)
    | some f =>
      let x := Fish.getIn rest f
      (x.1, { r with fish := some x.2 })
  else if head = "map" then
    match splitOnce rest '.', r.map with
    | none, some es =>
      let ws := es.map fun (k, e) => (k, if k = rest then optIn InnerModel.toJsonIn e else (none, e))
      ((Keyed.get? ws rest).elim (.ok .null) fun w => .ok (w.1.getD .null),
        { r with map := some (ws.map fun (k, w) => (k, w.2)) })
    | _, _ => (r.getNested head rest, r)
  else (r.getNested head rest, r)

/-- Reads the field or dotted path `field` as JSON, in place: the map, the inner model and the
fish read whole are written in full. -/
def getIn (field : String) : StateM Resource (Except ModelError Json) := fun r =>
  match splitOnce field '.' with
  | some (head, rest) => getNestedIn head rest r
  | none =>
    if field = "map" then
      match r.map with
      | none => (.ok .null, r)
      | some es =>
        let ws := es.map fun (k, e) => (k, optIn InnerModel.toJsonIn e)
        (.ok (.object (ws.map fun (k, w) => (k, w.1.getD .null))),
          { r with map := some (ws.map fun (k, w) => (k, w.2)) })
    else if field = "innerModelProperty" then
      Prod.map (.ok ∘ (·.getD .null)) (fun m' => { r with innerModelProperty := m' })
        (optIn InnerModel.toJsonIn r.innerModelProperty)
    else if field = "fish" then
      Prod.map (.ok ∘ (·.getD .null)) (fun f' => { r with fish := f' }) (optIn Fish.toJsonIn r.fish)
    else (r.get field, r)

end Resource

/-! ## Any model -/

namespace AnyModel

/-- Assigns a field or path in place, on the model held. -/
def setIn (p : String) (v : Json) : EStateM ModelError AnyModel Unit
  | resource r => liftResult resource ((Resource.setIn p v).run r)
  | inner n => liftResult inner ((InnerModel.setIn p v).run n)
  | fish f => liftResult fish ((Fish.setIn p v).run f)
  | variant f => liftResult variant ((Fish.setMemberIn p v).run f)

/-- Writes the model in place in the scope `scope`, members in writing order. -/
def writeIn (scope : Option Bool) : StateM AnyModel Json
  | resource r => Prod.map id resource (Resource.writeIn scope r)
  | inner n => Prod.map id inner (InnerModel.writeIn scope n)
  | fish f => Prod.map id fish (Fish.writeIn scope f)
  | variant f => Prod.map id variant (Fish.writeIn scope f)

/-- The full form, written in place in a scope that lowers the flag. -/
def toJsonIn : StateM AnyModel Json := Json.normalize <$> writeIn (some false)

/-- The merge patch, written in place in a scope that raises the flag. -/
def toMergePatchIn : StateM AnyModel Json := Json.normalize <$> writeIn (some true)

/-- The form of the model's current mode, written in place with no scope. -/
def serializeIn : StateM AnyModel Json := Json.normalize <$> writeIn none

/-- The text of the form `merge`, written in place in a scope that sets the flag to `merge`. -/
def toBodyIn (merge : Bool) : StateM AnyModel String := Json.compact <$> writeIn (some merge)

/-- Reads a field or path as JSON, in place. An inner model's fields are read without writing. -/
def getIn (p : String) : StateM AnyModel (Except ModelError Json)
  | resource r => Prod.map id resource (Resource.getIn p r)
  | inner n => (n.get p, inner n)
  | fish f => Prod.map id fish (Fish.getIn p f)
  | variant f => Prod.map id variant (Fish.getMemberIn p f)

end AnyModel

/-- Makes the assignment in place. -/
def Assignment.applyIn (a : Assignment) : EStateM ModelError AnyModel Unit :=
  AnyModel.setIn a.path a.value

end MergePatch
