import Mathlib
import MergePatch.Proofs.Tracking
import MergePatch.Proofs.Written
/-!
# The shape of a merge patch

A model's merge patch is an object that holds the fields assigned since the model was built,
under their names on the wire, and besides them only the `kind` of a fish (`PatchShape`). An
assigned field that is unset is `null` there; a value (a scalar, an enumerated value or an array)
is as in the full form; a nested model is its own merge patch; a map of inner models is an object
of the same keys, each model its own merge patch and each missing one `null`.

The writer sees a model as the `kind` of a fish (`AnyModel.fixed`) followed by its fields
(`AnyModel.members`), each written in one of three forms (`FieldForm`), as the writer's methods
for values, nested models and maps write them. Under a field's wire name the merge patch holds
that field's member alone (`get?_toMergePatch_member`), so the shape holds of every model whose
tracker names only fields it writes (`OwnFields.patchShape`); every model a client reaches from
one it starts from is such a model (`OwnFields.runCalls`).
-/

namespace MergePatch

/-- The name a field is written under: the inner model of a resource goes on the wire as
`wireNameForInnerModelProperty`, every other field under its own name. -/
def wireName (f : String) : String :=
  if f = "innerModelProperty" then "wireNameForInnerModelProperty" else f

theorem Keyed.mem_keys_iff {α : Type} (xs : Keyed α) (k : String) :
    k ∈ Keyed.keys xs ↔ (Keyed.get? xs k).isSome := by
  simp [Keyed.keys, Keyed.get?, List.find?_isSome]

theorem Json.normalize_eq_null {v : Json} : v.normalize = .null ↔ v = .null := by
  cases v <;> simp [Json.normalize]

theorem Json.ofOption_eq_null {α : Type} {g : α → Json} (hg : ∀ a, g a ≠ .null) (x : Option α) :
    Json.ofOption g x = .null ↔ x = none := by
  cases x <;> simp [Json.ofOption, hg]

theorem Json.Plain.ne_null {v : Json} (h : v.Plain) : v ≠ .null := by
  rintro rfl
  exact h

/-! ## The fields each model writes -/

namespace InnerModel

/-- The fields an inner model writes. -/
def fieldNames : List String := ["name", "description"]

theorem Sets.head_mem {v : Json} {m m' : InnerModel} {field : String} (h : Sets v m field m') :
    pathHead field ∈ fieldNames := by
  cases h <;> decide

theorem toJson_ne_null (m : InnerModel) : m.toJson ≠ .null := by
  simp [toJson, write, Json.normalize]

end InnerModel

namespace Fish

/-- The fields a fish writes after its kind. -/
def fieldNames : Fish → List String
  | shark .. => ["name", "age", "color", "weight"]
  | salmon .. => ["name", "age", "color", "partner"]
  | other .. => ["name", "age", "color"]

theorem logicals_members (f : Fish) : f.members.map Member.logical = f.fieldNames := by
  cases f <;> rfl

theorem fieldNames_withCore (f : Fish) (c : FishCore) : (f.withCore c).fieldNames = f.fieldNames := by
  cases f <;> rfl

/-- An assignment keeps the variant of a fish, and goes through one of its fields. -/
theorem SetsCommon.fields {v : Json} {f f' : Fish} {field : String} (h : SetsCommon v f field f') :
    f'.fieldNames = f.fieldNames ∧ pathHead field ∈ f.fieldNames := by
  cases h with
  | name f j _ | age f j _ | color f j _ =>
    refine ⟨fieldNames_withCore _ _, ?_⟩
    cases f <;> simp only [fieldNames] <;> decide
  | weight c w j _ => exact ⟨rfl, by simp only [fieldNames]; decide⟩

theorem Sets.fields {v : Json} {f f' : Fish} {field : String} (h : Sets v f field f') :
    f'.fieldNames = f.fieldNames ∧ pathHead field ∈ f.fieldNames := by
  cases h with
  | common h => exact h.fields
  | partner c p np _ => exact ⟨rfl, by simp only [fieldNames]; decide⟩
  | throughPartner c q q' field rest hrest _ _ =>
    rw [pathHead_of_dropPrefix? hrest]
    exact ⟨rfl, by simp only [fieldNames]; decide⟩

theorem toJson_ne_null (f : Fish) : f.toJson ≠ .null := by
  simp [toJson, write_eq, Json.normalize]

end Fish

namespace Resource

/-- The fields a resource writes. -/
def fieldNames : List String :=
  ["description", "map", "longValue", "intValue", "enumValue", "innerModelProperty", "array", "fish"]

theorem Sets.head_mem {v : Json} {r r' : Resource} {field : String} (h : Sets v r field r') :
    pathHead field ∈ fieldNames := by
  cases h with
  | description _ _ | mapObject _ _ _ _ | mapValue _ _ _ | longValue _ _ | intValue _ _
  | enumValue _ _ | innerModel _ _ | array _ _ | fish _ _ => decide
  | innerMember field rest m hsplit _ | fishMember field rest _ _ hsplit _ _
  | mapEntry field rest _ hsplit _ _ | mapMember field rest _ _ _ hsplit _ _ =>
    rw [pathHead_of_splitOnce hsplit]
    decide

end Resource


/-! ## Reading a field back -/

theorem dropPrefix?_eq_none {s p : String} (h : p.toList.isPrefixOf s.toList = false) :
    dropPrefix? s p = none := by
  simp [dropPrefix?, h]

/-- A field reads `null` exactly when it is unset. -/
theorem InnerModel.get_eq_null {n : InnerModel} {f : Member} (hf : f ∈ n.members) :
    n.get f.logical = .ok .null ↔ f.value false = none := by
  simp only [members, List.mem_cons, List.not_mem_nil, or_false] at hf
  rcases hf with rfl | rfl <;> simp [get, Member.scalar, optString, Json.ofOption_eq_null]

theorem Resource.get_eq_null {r : Resource} {f : Member} (hf : f ∈ r.members) :
    r.get f.logical = .ok .null ↔ f.value false = none := by
  simp only [members, List.mem_cons, List.not_mem_nil, or_false] at hf
  -- each field is read by its own branch, after the path is found to have no dot
  rcases hf with rfl | rfl | rfl | rfl | rfl | rfl | rfl | rfl <;> dsimp only [Member.scalar] <;>
    rw [get, splitOnce_eq_none (by decide)] <;>
    simp [optString, optInt32, optInt64, Json.int, Json.ofOption_eq_null, InnerModel.toJson_ne_null,
      Fish.toJson_ne_null]

theorem Fish.getMember_eq_null {q : Fish} {f : Member} (hf : f ∈ q.members) :
    q.getMember f.logical = .ok .null ↔ f.value false = none := by
  cases q with
  | shark c w =>
    simp only [members, FishCore.fields, List.cons_append, List.nil_append, List.mem_cons,
      List.not_mem_nil, or_false] at hf
    rcases hf with rfl | rfl | rfl | rfl <;>
      simp [getMember, getCommon, core, Member.scalar, optString, optInt32, Json.int,
        Json.ofOption_eq_null]
  | salmon c p =>
    simp only [members, FishCore.fields, List.cons_append, List.nil_append, List.mem_cons,
      List.not_mem_nil, or_false] at hf
    -- no field of a salmon is a path into its partner
    rcases hf with rfl | rfl | rfl | rfl <;> dsimp only [Member.scalar] <;>
      unfold getMember <;> rw [dropPrefix?_eq_none (by decide)]
    · simp [getCommon, core, optString, Json.ofOption_eq_null]
    · simp [getCommon, core, optInt32, Json.int, Json.ofOption_eq_null]
    · simp [getCommon, core, optString, Json.ofOption_eq_null]
    · cases p <;> simp [toJson_ne_null]
  | other k c =>
    simp only [members, FishCore.fields, List.mem_cons, List.not_mem_nil, or_false] at hf
    rcases hf with rfl | rfl | rfl <;>
      simp [getMember, getCommon, core, Member.scalar, optString, optInt32, Json.int,
        Json.ofOption_eq_null]

theorem Fish.kind_not_mem_fieldNames (q : Fish) : "kind" ∉ q.fieldNames := by
  cases q <;> simp only [fieldNames] <;> decide

/-! ## The writer's view of a model -/

namespace AnyModel

/-- The fields the model writes, after the `kind` of a fish. -/
def members : AnyModel → List Member
  | resource r => r.members
  | inner m => m.members
  | fish f => f.members
  | variant f => f.members

/-- The members written alike in both forms, before the fields: the `kind` of a fish. -/
def fixed : AnyModel → List (String × Json)
  | fish f => [("kind", .string f.kind)]
  | variant f => [("kind", .string f.kind)]
  | _ => []

/-- Whether the model is a fish, which writes its `kind` in both forms. -/
def isFish : AnyModel → Bool
  | fish _ => true
  | variant _ => true
  | _ => false

/-- The logical names of the fields the model writes. -/
def fieldNames : AnyModel → List String
  | resource _ => Resource.fieldNames
  | inner _ => InnerModel.fieldNames
  | fish f => f.fieldNames
  | variant f => f.fieldNames

/-- The nested model that the field `f` holds, when `f` is a field that holds one. -/
def child? : AnyModel → String → Option (Option AnyModel)
  | resource r, f =>
    if f = "innerModelProperty" then some (r.innerModelProperty.map inner)
    else if f = "fish" then some (r.fish.map fish)
    else none
  | inner _, _ => none
  | fish f, g | variant f, g =>
    match f with
    | .salmon _ p => if g = "partner" then some (p.map fish) else none
    | _ => none

/-- The entries that the field `f` holds, when `f` is a map of inner models. -/
def entries? : AnyModel → String → Option (Option (Keyed (Option InnerModel)))
  | resource r, f => if f = "map" then some r.map else none
  | _, _ => none

theorem write_eq (m : AnyModel) (b : Bool) :
    m.write b = .object (m.fixed ++ m.tracker.writeAll b m.members) := by
  cases m with
  | resource r => exact r.write_eq b
  | inner n => exact n.write_eq b
  | fish f => exact f.write_eq b
  | variant f => exact f.write_eq b

theorem logicals_members (m : AnyModel) : m.members.map Member.logical = m.fieldNames := by
  cases m with
  | resource r => rfl
  | inner n => rfl
  | fish f | variant f => exact f.logicals_members

theorem wires_members (m : AnyModel) : m.members.map Member.wire = m.fieldNames.map wireName := by
  cases m with
  | resource r => simp [members, Resource.members, fieldNames, Resource.fieldNames, wireName, Member.scalar]
  | inner n => rfl
  | fish f | variant f => cases f <;> rfl

theorem keys_fixed (m : AnyModel) : m.fixed.map Prod.fst = if m.isFish then ["kind"] else [] := by
  cases m <;> rfl

/-- No two fields, and no field and the `kind`, share a name on the wire. -/
theorem nodup_keys (m : AnyModel) : (m.fixed.map Prod.fst ++ m.members.map Member.wire).Nodup := by
  rw [keys_fixed, wires_members]
  cases m with
  | resource r => simp only [isFish, fieldNames, Resource.fieldNames, Bool.false_eq_true, ↓reduceIte]; decide
  | inner n => simp only [isFish, fieldNames, InnerModel.fieldNames, Bool.false_eq_true, ↓reduceIte]; decide
  | fish f | variant f => cases f <;> simp only [isFish, fieldNames, Fish.fieldNames] <;> decide

theorem wire_eq {m : AnyModel} {f : Member} (hf : f ∈ m.members) : f.wire = wireName f.logical := by
  have h : m.members.map Member.wire = m.members.map (wireName ∘ Member.logical) := by
    rw [wires_members, ← logicals_members, List.map_map]
  exact List.map_inj_left.mp h f hf

/-- Two fields with one wire name are one field. -/
theorem eq_of_wire_eq {m : AnyModel} {f g : Member} (hf : f ∈ m.members) (hg : g ∈ m.members)
    (h : f.wire = g.wire) : f = g :=
  List.inj_on_of_nodup_map (List.nodup_append.mp m.nodup_keys).2.1 hf hg h

theorem wire_not_fixed {m : AnyModel} {f : Member} (hf : f ∈ m.members) :
    f.wire ∉ m.fixed.map Prod.fst := fun hk =>
  (List.nodup_append.mp m.nodup_keys).2.2 _ hk _ (List.mem_map_of_mem hf) rfl

theorem get_eq_null {m : AnyModel} {f : Member} (hf : f ∈ m.members) :
    m.get f.logical = .ok .null ↔ f.value false = none := by
  cases m with
  | resource r => exact Resource.get_eq_null hf
  | inner n => exact InnerModel.get_eq_null hf
  | fish q =>
    have hk : f.logical ≠ "kind" := fun hk =>
      q.kind_not_mem_fieldNames (hk ▸ q.logicals_members ▸ List.mem_map_of_mem hf)
    rw [get, Fish.get, if_neg hk]
    exact Fish.getMember_eq_null hf
  | variant q => exact Fish.getMember_eq_null hf

/-! ## How each field is written -/

/-- How the writer writes a field of `m`, by the method it uses for it. -/
inductive FieldForm (m : AnyModel) (f : Member) : Prop
  /-- A value (a scalar, an enumerated value or an array): alike in both forms, and put in place
  whole by a merge patch. -/
  | value : m.child? f.logical = none → m.entries? f.logical = none →
      f.value true = f.value false → (∀ v ∈ f.value false, v.Plain) → FieldForm m f
  /-- A nested model: in the mode of the whole, unless it is itself in merge-patch mode. -/
  | nested (c : Option AnyModel) : m.child? f.logical = some c → m.entries? f.logical = none →
      (∀ b, f.value b = c.map fun n => n.write (b || n.tracker.mergePatch)) → FieldForm m f
  /-- A map of inner models: in a merge patch, each model as a merge patch. -/
  | entries (es : Option (Keyed (Option InnerModel))) : m.entries? f.logical = some es →
      m.child? f.logical = none → (∀ b, f.value b = es.map (Resource.writeMap · b)) → FieldForm m f

theorem FieldForm.scalar {m : AnyModel} {l w : String} {v : Option Json} (hc : m.child? l = none)
    (he : m.entries? l = none) (hv : ∀ j ∈ v, j.Plain) : FieldForm m (.scalar l w v) :=
  .value hc he rfl hv

/-- Every field of every model is written as a value, a nested model or a map. -/
theorem form_members {m : AnyModel} {f : Member} (hf : f ∈ m.members) : FieldForm m f := by
  cases m with
  | resource r =>
    simp only [members, Resource.members, List.mem_cons, List.not_mem_nil, or_false] at hf
    rcases hf with rfl | rfl | rfl | rfl | rfl | rfl | rfl | rfl
    · exact .scalar rfl rfl (Json.plain_optString _)
    · exact .entries r.map rfl rfl fun _ => rfl
    · exact .scalar rfl rfl (Json.plain_optInt64 _)
    · exact .scalar rfl rfl (Json.plain_optInt32 _)
    · exact .scalar rfl rfl (Json.plain_map (fun e : EnumValue => .string e.asString) (fun _ => trivial) _)
    · exact .nested _ rfl rfl fun _ => by cases r.innerModelProperty <;> rfl
    · exact .scalar rfl rfl
        (Json.plain_map (fun xs : List InnerModel => .array (xs.map InnerModel.writeOwn)) (fun _ => trivial) _)
    · exact .nested _ rfl rfl fun _ => by cases r.fish <;> rfl
  | inner n =>
    simp only [members, InnerModel.members, List.mem_cons, List.not_mem_nil, or_false] at hf
    rcases hf with rfl | rfl <;> exact .scalar rfl rfl (Json.plain_optString _)
  | fish q | variant q =>
    cases q with
    | shark c w =>
      simp only [members, Fish.members, FishCore.fields, List.cons_append, List.nil_append,
        List.mem_cons, List.not_mem_nil, or_false] at hf
      rcases hf with rfl | rfl | rfl | rfl
      · exact .scalar rfl rfl (Json.plain_optString _)
      · exact .scalar rfl rfl (Json.plain_optInt32 _)
      · exact .scalar rfl rfl (Json.plain_optString _)
      · exact .scalar rfl rfl (Json.plain_optInt32 _)
    | salmon c p =>
      simp only [members, Fish.members, FishCore.fields, List.cons_append, List.nil_append,
        List.mem_cons, List.not_mem_nil, or_false] at hf
      rcases hf with rfl | rfl | rfl | rfl
      · exact .scalar rfl rfl (Json.plain_optString _)
      · exact .scalar rfl rfl (Json.plain_optInt32 _)
      · exact .scalar rfl rfl (Json.plain_optString _)
      · exact .nested _ rfl rfl fun _ => by cases p <;> rfl
    | other k c =>
      simp only [members, Fish.members, FishCore.fields, List.mem_cons, List.not_mem_nil,
        or_false] at hf
      rcases hf with rfl | rfl | rfl
      · exact .scalar rfl rfl (Json.plain_optString _)
      · exact .scalar rfl rfl (Json.plain_optInt32 _)
      · exact .scalar rfl rfl (Json.plain_optString _)

theorem FieldForm.value_eq_none {m : AnyModel} {f : Member} (h : FieldForm m f) :
    f.value true = none ↔ f.value false = none := by
  cases h with
  | value _ _ hv _ => rw [hv]
  | nested c _ _ hv => simp [hv]
  | entries es _ _ hv => simp [hv]

/-- A field that is set is never written `null`. -/
theorem FieldForm.ne_null {m : AnyModel} {f : Member} (h : FieldForm m f) {v : Json}
    (hv : f.value true = some v) : v.normalize ≠ .null := by
  rw [Ne, Json.normalize_eq_null]
  cases h with
  | value _ _ heq hp =>
    rw [heq] at hv
    exact (hp v hv).ne_null
  | nested c _ _ hc =>
    obtain ⟨n, -, rfl⟩ := Option.map_eq_some_iff.mp ((hc true).symm.trans hv)
    rw [write_eq]
    exact nofun
  | entries es _ _ hes =>
    obtain ⟨xs, -, rfl⟩ := Option.map_eq_some_iff.mp ((hes true).symm.trans hv)
    rw [Resource.writeMap_eq]
    exact nofun

/-- In a merge patch an assigned field is `null` exactly when it is unset. -/
theorem FieldForm.patch_eq_null {m : AnyModel} {f : Member} (h : FieldForm m f) :
    ((f.value true).getD .null).normalize = .null ↔ f.value false = none := by
  rw [← h.value_eq_none]
  cases hv : f.value true with
  | none => simp [Json.normalize]
  | some v => simpa using h.ne_null hv

/-! ## The fields a tracker names -/

/-- The tracker names only fields that the model writes. -/
def OwnFields (m : AnyModel) : Prop := ∀ f ∈ m.mutated, f ∈ m.fieldNames

theorem fieldNames_withTracker (m : AnyModel) (t : Tracker) :
    (m.withTracker t).fieldNames = m.fieldNames := by
  cases m with
  | resource r => rfl
  | inner n => rfl
  | fish q | variant q => exact Fish.fieldNames_withCore q _

/-- A dynamic assignment keeps the fields a model writes, and goes through one of them. -/
theorem set_fields {m m' : AnyModel} {p : String} {v : Json} (h : m.set p v = .ok m') :
    m'.fieldNames = m.fieldNames ∧ pathHead p ∈ m.fieldNames := by
  cases m with
  | resource r =>
    obtain ⟨r', hr, rfl⟩ := Except.map_ok_inv h
    exact ⟨rfl, (Resource.set_ok hr).head_mem⟩
  | inner n =>
    obtain ⟨n', hn, rfl⟩ := Except.map_ok_inv h
    exact ⟨rfl, (InnerModel.set_ok hn).head_mem⟩
  | fish q =>
    obtain ⟨q', hq, rfl⟩ := Except.map_ok_inv h
    exact (Fish.set_ok hq).2.fields
  | variant q =>
    obtain ⟨q', hq, rfl⟩ := Except.map_ok_inv h
    exact (Fish.setMember_ok hq).fields

/-- A typed setter keeps the fields a model writes, and sets one of them. -/
theorem setter_fields {m : AnyModel} {field : String} {s : Schema Shape}
    {assign : Json → AnyModel} (h : m.setter field = some (s, assign)) (j : Json) :
    (assign j).fieldNames = m.fieldNames ∧ pathHead field ∈ m.fieldNames := by
  cases m with
  | resource r =>
    simp only [setter] at h
    split_ifs at h <;> cases h <;> subst_vars <;>
      exact ⟨rfl, by simp only [fieldNames, Resource.fieldNames]; decide⟩
  | inner n =>
    simp only [setter] at h
    split_ifs at h <;> cases h <;> subst_vars <;>
      exact ⟨rfl, by simp only [fieldNames, InnerModel.fieldNames]; decide⟩
  | fish q => cases h
  | variant q =>
    cases q with
    | shark c w =>
      simp only [setter] at h
      split_ifs at h <;> cases h <;> subst_vars <;>
        exact ⟨rfl, by simp only [fieldNames, Fish.fieldNames]; decide⟩
    | salmon c p =>
      simp only [setter] at h
      split_ifs at h <;> cases h <;> subst_vars <;>
        exact ⟨rfl, by simp only [fieldNames, Fish.fieldNames]; decide⟩
    | other k c =>
      simp only [setter] at h
      split_ifs at h <;> cases h <;> subst_vars <;>
        exact ⟨rfl, by simp only [fieldNames, Fish.fieldNames]; decide⟩

theorem withValue_fields {m m' : AnyModel} {field : String} {v : Json}
    (h : m.withValue field v = some (.ok m')) :
    m'.fieldNames = m.fieldNames ∧ pathHead field ∈ m.fieldNames := by
  simp only [withValue, Option.map_eq_some_iff] at h
  obtain ⟨⟨s, assign⟩, hs, hm⟩ := h
  obtain ⟨j, -, rfl⟩ := Except.map_ok_inv hm
  exact setter_fields hs j

/-- A call that goes through keeps the fields a model writes, and assigns through one of them. -/
theorem perform_fields {kind : ModelKind} {m m' : AnyModel} {c : ModelCall}
    (h : m.perform kind c = some m') :
    m'.fieldNames = m.fieldNames ∧ ∀ p ∈ c.target, pathHead p ∈ m.fieldNames := by
  cases c with
  | set p v =>
    obtain ⟨hf, hp⟩ := set_fields (Except.ok_of_toOption h)
    exact ⟨hf, fun q hq => by cases hq; exact hp⟩
  | assign e =>
    obtain ⟨a, ha, hm⟩ := Except.bind_ok_inv (Except.ok_of_toOption h)
    obtain ⟨hf, hp⟩ := set_fields hm
    refine ⟨hf, fun q hq => ?_⟩
    simp only [ModelCall.target, ha, Except.toOption, Option.map_some] at hq
    cases hq
    exact hp
  | withField field v =>
    obtain ⟨x, hx, hm⟩ := Option.bind_eq_some_iff.mp h
    rw [Except.ok_of_toOption hm] at hx
    obtain ⟨hf, hp⟩ := withValue_fields hx
    exact ⟨hf, fun q hq => by cases hq; exact hp⟩
  | get _ | equals _ =>
    obtain ⟨_, -, rfl⟩ := Option.map_eq_some_iff.mp h
    exact ⟨rfl, fun q hq => by cases hq⟩
  | enableMergePatch b =>
    cases h
    exact ⟨fieldNames_withTracker _ _, fun q hq => by cases hq⟩
  | toJson | toMergePatch | serialize | toBody _ =>
    cases h
    exact ⟨rfl, fun q hq => by cases hq⟩

theorem OwnFields.perform {kind : ModelKind} {m m' : AnyModel} {c : ModelCall} (h : m.OwnFields)
    (hp : m.perform kind c = some m') : m'.OwnFields := by
  obtain ⟨hfields, hhead⟩ := perform_fields hp
  intro f hf
  rw [hfields]
  rcases (perform_mutated hp f).mp hf with hf | hf
  · exact h f hf
  · -- the head of the path the call assigned
    rw [Option.mem_toList, Option.map_eq_some_iff] at hf
    obtain ⟨p, hp, rfl⟩ := hf
    exact hhead p hp

/-- Along every run of calls the tracker names only fields the model writes. -/
theorem OwnFields.runCalls {kind : ModelKind} {m : AnyModel} (h : m.OwnFields) (cs : List ModelCall) :
    (m.runCalls kind cs).OwnFields := by
  induction cs generalizing m with
  | nil => exact h
  | cons c cs ih =>
    cases hp : m.perform kind c with
    | none =>
      simp only [AnyModel.runCalls_cons, hp, Option.getD_none]
      exact ih h
    | some m' =>
      simp only [AnyModel.runCalls_cons, hp, Option.getD_some]
      exact ih (h.perform hp)

theorem Start.ownFields {kind : ModelKind} {m : AnyModel} (h : Start kind m) : m.OwnFields := by
  intro f hf
  rw [mutated_of_fresh h.fresh] at hf
  cases hf


/-! ## The merge patch, key by key -/

theorem get?_toMergePatch (m : AnyModel) (k : String) :
    m.toMergePatch.get? k =
      (Keyed.getLast? (m.fixed ++ m.tracker.writeAll true m.members) k).map Json.normalize := by
  rw [toMergePatch, write_eq, Json.get?_normalize_object]

theorem get?_toJson (m : AnyModel) (k : String) :
    m.toJson.get? k =
      (Keyed.getLast? (m.fixed ++ m.tracker.writeAll false m.members) k).map Json.normalize := by
  rw [toJson, write_eq, Json.get?_normalize_object]

theorem getLast?_fixed_of_not_mem {m : AnyModel} {k : String} (hk : k ∉ m.fixed.map Prod.fst) :
    Keyed.getLast? m.fixed k = none :=
  (Keyed.getLast?_eq_none_iff _ _).mpr
    (Keyed.get?_eq_none fun _ hp hpk => hk (hpk ▸ List.mem_map_of_mem hp))

/-- Under a field's wire name the merge patch holds the field when it has been assigned, `null`
when it is unset, and nothing when it has not been assigned. -/
theorem get?_toMergePatch_member {m : AnyModel} {f : Member} (hf : f ∈ m.members) :
    m.toMergePatch.get? f.wire =
      if m.tracker.isAssigned f.logical = true then some ((f.value true).getD .null).normalize
      else none := by
  rw [get?_toMergePatch, Keyed.getLast?_append,
    Tracker.getLast?_writeAll_patch _ (List.nodup_append.mp m.nodup_keys).2.1 hf,
    getLast?_fixed_of_not_mem (wire_not_fixed hf)]
  split <;> rfl

/-- Under a field's wire name the full form holds the field as it is set. -/
theorem get?_toJson_member {m : AnyModel} {f : Member} (hf : f ∈ m.members) :
    m.toJson.get? f.wire = (f.value false).map Json.normalize := by
  rw [get?_toJson, Keyed.getLast?_append,
    Tracker.getLast?_writeAll_full _ (List.nodup_append.mp m.nodup_keys).2.1 hf,
    getLast?_fixed_of_not_mem (wire_not_fixed hf), Option.or_none]

/-- The merge patch holds nothing under a name that is neither the `kind` nor a field's. -/
theorem get?_toMergePatch_of_not_mem {m : AnyModel} {k : String} (hk : k ∉ m.fixed.map Prod.fst)
    (hw : k ∉ m.members.map Member.wire) : m.toMergePatch.get? k = none := by
  rw [get?_toMergePatch, Keyed.getLast?_append, Tracker.getLast?_writeAll_of_not_mem _ _ hw,
    getLast?_fixed_of_not_mem hk]
  rfl

/-- The merge patch of a fish holds its `kind`. -/
theorem get?_toMergePatch_fixed {m : AnyModel} {k : String} (hk : k ∈ m.fixed.map Prod.fst) :
    (m.toMergePatch.get? k).isSome := by
  have hw : k ∉ m.members.map Member.wire := fun hw =>
    (List.nodup_append.mp m.nodup_keys).2.2 _ hk _ hw rfl
  rw [get?_toMergePatch, Keyed.getLast?_append, Tracker.getLast?_writeAll_of_not_mem _ _ hw,
    Option.none_or, Option.isSome_map, Keyed.getLast?, ← Keyed.mem_keys_iff]
  simpa [Keyed.keys] using hk

/-- An assigned field of a model whose tracker names only its fields is one of its members, and
the merge patch holds it under its wire name. -/
theorem OwnFields.member {m : AnyModel} (h : m.OwnFields) {f : String} (hf : f ∈ m.mutated) :
    ∃ g ∈ m.members, g.logical = f ∧ wireName f = g.wire ∧
      m.toMergePatch.get? (wireName f) = some ((g.value true).getD .null).normalize := by
  obtain ⟨g, hg, rfl⟩ := List.mem_map.mp ((logicals_members m).symm ▸ h f hf)
  have ha : m.tracker.isAssigned g.logical = true := List.contains_iff_mem.mpr hf
  refine ⟨g, hg, rfl, (wire_eq hg).symm, ?_⟩
  rw [← wire_eq hg, get?_toMergePatch_member hg, if_pos ha]

/-- The map as a merge patch: under each key, the entry's model as its own merge patch, or `null`. -/
theorem get?_writeMap_patch (es : Keyed (Option InnerModel)) (k : String) :
    (Resource.writeMap es true).normalize.get? k =
      (Keyed.getLast? es k).map (Json.ofOption fun n => (inner n).toMergePatch) := by
  rw [Resource.writeMap_eq, Json.get?_normalize_object,
    Keyed.getLast?_map es _ (Resource.entryJson true) (fun _ => rfl), Option.map_map]
  congr 1
  funext e
  cases e <;> rfl

end AnyModel

/-- The shape of the merge patch `j` of the model `m`. -/
structure PatchShape (m : AnyModel) (j : Json) : Prop where
  /-- The merge patch is an object. -/
  object : ∃ fs, j = .object fs
  /-- It has a member exactly under the wire name of each assigned field, and under `kind` in a
  fish. -/
  keys : ∀ k, (j.get? k).isSome ↔ (∃ f ∈ m.mutated, wireName f = k) ∨ (m.isFish ∧ k = "kind")
  /-- An assigned field is `null` exactly when the model reads it as `null`: when it is unset. -/
  null : ∀ f ∈ m.mutated, j.get? (wireName f) = some .null ↔ m.get f = .ok .null
  /-- An assigned value is written as in the full form, and as `null` when it is unset. -/
  value : ∀ f ∈ m.mutated, m.child? f = none → m.entries? f = none →
    j.get? (wireName f) = some ((m.toJson.get? (wireName f)).getD .null)
  /-- An assigned nested model is written as its own merge patch. -/
  nested : ∀ f ∈ m.mutated, ∀ n, m.child? f = some (some n) →
    j.get? (wireName f) = some n.toMergePatch
  /-- An assigned map is an object of the same keys, each model as its own merge patch and each
  missing one as `null`. -/
  entries : ∀ f ∈ m.mutated, ∀ es, m.entries? f = some (some es) →
    ∃ gs, j.get? (wireName f) = some (.object gs) ∧
      ∀ k, Keyed.get? gs k = (Keyed.getLast? es k).map (Json.ofOption fun n => (AnyModel.inner n).toMergePatch)

namespace AnyModel

theorem OwnFields.keys {m : AnyModel} (h : m.OwnFields) (k : String) :
    (m.toMergePatch.get? k).isSome ↔ (∃ f ∈ m.mutated, wireName f = k) ∨ (m.isFish ∧ k = "kind") := by
  have hfixed : k ∈ m.fixed.map Prod.fst ↔ m.isFish ∧ k = "kind" := by
    rw [keys_fixed]
    split <;> simp [*]
  by_cases hkf : k ∈ m.fixed.map Prod.fst
  · -- the kind of a fish
    exact iff_of_true (get?_toMergePatch_fixed hkf) (.inr (hfixed.mp hkf))
  by_cases hkw : k ∈ m.members.map Member.wire
  · -- the wire name of a field: present exactly when that field is assigned
    obtain ⟨g, hg, rfl⟩ := List.mem_map.mp hkw
    rw [get?_toMergePatch_member hg, or_iff_left (mt hfixed.mpr hkf)]
    constructor
    · intro ha
      split at ha
      · exact ⟨g.logical, List.contains_iff_mem.mp ‹_›, (wire_eq hg).symm⟩
      · cases ha
    · rintro ⟨f, hf, hfw⟩
      obtain ⟨g', hg', rfl, hw', -⟩ := h.member hf
      obtain rfl : g' = g := eq_of_wire_eq hg' hg (hw'.symm.trans hfw)
      have ha : m.tracker.isAssigned g'.logical = true := List.contains_iff_mem.mpr hf
      rw [if_pos ha]
      rfl
  · -- any other name: no field is written under it
    rw [get?_toMergePatch_of_not_mem hkf hkw, Option.isSome_none, Bool.false_eq_true, false_iff,
      not_or]
    refine ⟨?_, mt hfixed.mpr hkf⟩
    rintro ⟨f, hf, rfl⟩
    obtain ⟨g, hg, rfl, hw, -⟩ := h.member hf
    exact hkw (hw ▸ List.mem_map_of_mem hg)

/-- **The shape of the merge patch** of every model whose tracker names only fields it writes. -/
theorem OwnFields.patchShape {m : AnyModel} (h : m.OwnFields) : PatchShape m m.toMergePatch where
  object := ⟨_, by rw [toMergePatch, write_eq, Json.normalize_object]⟩
  keys := h.keys
  null f hf := by
    obtain ⟨g, hg, rfl, -, hget⟩ := h.member hf
    rw [hget, Option.some.injEq, (form_members hg).patch_eq_null, get_eq_null hg]
  value f hf hc he := by
    obtain ⟨g, hg, rfl, hw, hget⟩ := h.member hf
    rw [hget, hw, get?_toJson_member hg]
    cases form_members hg with
    | value _ _ hv _ =>
      rw [hv]
      cases g.value false <;> rfl
    | nested c hc' _ _ => rw [hc] at hc'; cases hc'
    | entries es he' _ _ => rw [he] at he'; cases he'
  nested f hf n hn := by
    obtain ⟨g, hg, rfl, -, hget⟩ := h.member hf
    rw [hget]
    cases form_members hg with
    | value hc _ _ _ => rw [hn] at hc; cases hc
    | nested c hc _ hv =>
      rw [hn] at hc
      cases hc
      simp [hv, toMergePatch]
    | entries es _ hc _ => rw [hn] at hc; cases hc
  entries f hf es hes := by
    obtain ⟨g, hg, rfl, -, hget⟩ := h.member hf
    cases form_members hg with
    | value _ he _ _ => rw [hes] at he; cases he
    | nested c _ he _ => rw [hes] at he; cases he
    | entries es' he _ hv =>
      rw [hes] at he
      cases he
      obtain ⟨gs, hgs⟩ : ∃ gs, (Resource.writeMap es true).normalize = .object gs :=
        ⟨_, by rw [Resource.writeMap_eq, Json.normalize_object]⟩
      refine ⟨gs, by simp [hget, hv, hgs], fun k => ?_⟩
      have hk := get?_writeMap_patch es k
      rw [hgs] at hk
      exact hk

end AnyModel

/-- **The shape of a merge patch.** From every model a client starts from, after any run of
calls, the merge patch is an object with a member under the wire name of each assigned field and
under the `kind` of a fish, and no other. An assigned field is `null` there exactly when it is
unset; a value is as in the full form, a nested model is its own merge patch, and a map is an
object of the same keys whose models are their own merge patches and whose missing models are
`null`. -/
theorem merge_patch_shape {kind : ModelKind} {m : AnyModel} (hm : AnyModel.Start kind m)
    (cs : List ModelCall) : PatchShape (m.runCalls kind cs) (m.runCalls kind cs).toMergePatch :=
  (hm.ownFields.runCalls cs).patchShape

theorem merge_patch_shape_new :
    AnyModel.Start .resource (.resource {}) ∧
    ∀ cs, PatchShape ((AnyModel.resource {}).runCalls .resource cs)
      ((AnyModel.resource {}).runCalls .resource cs).toMergePatch :=
  ⟨.new rfl, merge_patch_shape (.new rfl)⟩

end MergePatch
