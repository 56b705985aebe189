import Mathlib
import MergePatch.Proofs.ReadBack
import MergePatch.Proofs.TextDepth
/-!
# Reading a model's full form back

`AnyModel.fromText` reads the text a model writes in full, with its members in writing order
(`toBody false`) or in key order (`toJson`), back to `m.reread` (`full_round_trip`): the same
fields, save the `id`s and a resource's `name`, which are never written, with nothing assigned;
a model that writes the same full form and, when it had no ids to lose, is the same model.

The model has to be well formed (`AnyModel.WellFormed`): its nested models write themselves in
full, its maps are in key order, its enumerated value is in the form its text reads to, and a
fish of another kind has a kind that is neither a shark's nor a salmon's. Its full form has to
nest fewer than 128 containers: the reader refuses to go deeper, so a chain of 128 salmon is
not read back (`salmon_chain_unreadable`).

The text is read to the record of `ReadBack` (`AnyModel.readsBy_full`), and the record is made
into the model by `AnyModel.ofChecked` (`AnyModel.ofChecked_checked`).
-/

namespace MergePatch

/-! ## The model read back -/

namespace InnerModel

/-- The inner model its full form reads back to: the same fields, nothing assigned. -/
def reread (m : InnerModel) : InnerModel := { name := m.name, description := m.description }

end InnerModel

namespace FishCore

/-- The common fields a fish's full form reads back to: no `id`, nothing assigned. -/
def reread (c : FishCore) : FishCore := { name := c.name, age := c.age, color := c.color }

end FishCore

namespace Fish

/-- The fish its full form reads back to, partner and all. -/
def reread : Fish → Fish
  | shark c w => shark c.reread w
  | salmon c none => salmon c.reread none
  | salmon c (some q) => salmon c.reread (some q.reread)
  | other k c => other k c.reread

/-- A fish with no `id` at any depth. -/
def NoIds : Fish → Prop
  | shark c _ => c.id = none
  | salmon c none => c.id = none
  | salmon c (some q) => c.id = none ∧ q.NoIds
  | other _ c => c.id = none

end Fish

namespace Resource

/-- The resource its full form reads back to: no `id` or `name`, nothing assigned, each nested
model read back. -/
def reread (r : Resource) : Resource :=
  { description := r.description,
    map := r.map.map fun es => es.map fun p => (p.1, p.2.map InnerModel.reread),
    longValue := r.longValue, intValue := r.intValue, enumValue := r.enumValue,
    innerModelProperty := r.innerModelProperty.map InnerModel.reread,
    array := r.array.map fun xs => xs.map InnerModel.reread,
    fish := r.fish.map Fish.reread }

/-- A resource with no `id` or `name`, and no `id` in its fish. -/
structure NoIds (r : Resource) : Prop where
  id : r.id = none
  name : r.name = none
  fish : ∀ f ∈ r.fish, f.NoIds

end Resource

namespace AnyModel

/-- The kind of model a model's text is read as. -/
def modelKind : AnyModel → ModelKind
  | resource _ => .resource
  | inner _ => .innerModel
  | fish _ => .fish
  | variant (.shark ..) => .shark
  | variant (.salmon ..) => .salmon
  | variant (.other ..) => .otherFish

/-- A model whose full form reads back to itself. -/
def WellFormed : AnyModel → Prop
  | resource r => r.WellFormed
  | inner _ => True
  | fish f => f.WellFormed
  | variant f => f.WellFormed

/-- A model with no `id` at any depth, and, for a resource, no `name`. -/
def NoIds : AnyModel → Prop
  | resource r => r.NoIds
  | inner _ => True
  | fish f => f.NoIds
  | variant f => f.NoIds

/-- The model a model's full form reads back to. -/
def reread : AnyModel → AnyModel
  | resource r => resource r.reread
  | inner m => inner m.reread
  | fish f => fish f.reread
  | variant f => variant f.reread

/-- The record a model's full form reads to by the schema of its kind. -/
def checked : AnyModel → Json
  | resource r => r.checked
  | inner m => m.checked
  | fish f => f.checked
  | variant f => Json.obj f.variantPairs

end AnyModel

/-! ## Records made into models -/

namespace Json

theorem get?_obj (ps : List (String × Json)) (k : String) : (Json.obj ps).get? k = Keyed.getLast? ps k := by
  simp [Json.obj, Json.get?, Keyed.get?_ofList]

theorem depth_lt_of_get?_obj {ps : List (String × Json)} {k : String} {v : Json}
    (h : (Json.obj ps).get? k = some v) : v.depth < (Json.obj ps).depth := by
  unfold Json.obj at h ⊢
  exact depth_lt_of_mem_object (Keyed.get?_eq_some_mem h)

theorem get?_obj_of_mem {ps : List (String × Json)} (hnd : (ps.map Prod.fst).Nodup) {k : String} {v : Json}
    (hp : (k, v) ∈ ps) : (Json.obj ps).get? k = some v := by
  rw [get?_obj, Keyed.getLast?_eq_of_nodup hnd]
  exact Keyed.get?_of_mem hnd hp

@[simp] theorem str?_null : Json.null.str? = none := rfl

@[simp] theorem str?_string (s : String) : (Json.string s).str? = some s := rfl

@[simp] theorem str?_optString (v : Option String) : ((optString v).getD .null).str? = v := by
  cases v <;> rfl

@[simp] theorem int32?_optInt32 (v : Option Int32) : ((optInt32 v).getD .null).int32? = v := by
  cases v with
  | none => rfl
  | some x => exact int32?_int x

@[simp] theorem int64?_optInt64 (v : Option Int64) : ((optInt64 v).getD .null).int64? = v := by
  cases v with
  | none => rfl
  | some x => exact int64?_int x

end Json

/-- Setting a key again to the value it last had changes nothing. -/
theorem Keyed.ofList_append_self {ps : List (String × Json)} {k : String} {v : Json}
    (h : Keyed.getLast? ps k = some v) : Keyed.ofList (ps ++ [(k, v)]) = Keyed.ofList ps := by
  refine Keyed.ext (Keyed.sorted_ofList _) (Keyed.sorted_ofList _) fun k' => ?_
  rw [Keyed.get?_ofList, Keyed.get?_ofList, Keyed.getLast?_append]
  by_cases hk : k = k'
  · subst hk
    rw [h]
    simp [Keyed.getLast?, Keyed.get?]
  · have hlast : Keyed.getLast? [(k, v)] k' = none := by simp [Keyed.getLast?, Keyed.get?, hk]
    rw [hlast, Option.none_or]

theorem InnerModel.ofChecked_checked (m : InnerModel) : InnerModel.ofChecked m.checked = m.reread := by
  have hname : m.checked.get? "name" = some ((optString m.name).getD .null) :=
    Json.get?_obj_of_mem (by simp) (by simp)
  have hdescription : m.checked.get? "description" = some ((optString m.description).getD .null) :=
    Json.get?_obj_of_mem (by simp) (by simp)
  simp [ofChecked, reread, Json.textAt, hname, hdescription]

/-- A record that holds the common fields of a fish as they are read makes them into the fields
read back. -/
theorem FishCore.ofChecked_eq {c : FishCore} {j : Json}
    (hj : ∀ k v, (k, v) ∈ c.checkedPairs → j.get? k = some v) : FishCore.ofChecked j = c.reread := by
  have hid := hj "id" .null (by simp [checkedPairs])
  have hname := hj "name" ((optString c.name).getD .null) (by simp [checkedPairs])
  have hage := hj "age" ((optInt32 c.age).getD .null) (by simp [checkedPairs])
  have hcolor := hj "color" ((optString c.color).getD .null) (by simp [checkedPairs])
  simp [ofChecked, reread, Json.textAt, hid, hname, hage, hcolor]

namespace Fish

theorem nodup_variantPairs (f : Fish) : (f.variantPairs.map Prod.fst).Nodup := by
  rw [keys_variantPairs]
  exact f.shape.nodup_fields

/-- A fish's record holds the fields of its variant, then its kind. -/
theorem get?_checked {f : Fish} {k : String} {v : Json} (hp : (k, v) ∈ f.variantPairs) (hk : k ≠ "kind") :
    f.checked.get? k = some v := by
  rw [checked_eq, Json.get?_obj, Keyed.getLast?_append,
    Keyed.getLast?_eq_of_nodup f.nodup_variantPairs, Keyed.get?_of_mem f.nodup_variantPairs hp]
  simp [Keyed.getLast?, Keyed.get?, Ne.symm hk]

theorem textAt_kind (f : Fish) : f.checked.textAt "kind" = some f.kind := by
  simp [checked_eq, Json.textAt, Json.get?_obj, Keyed.getLast?, Keyed.get?, Json.str?]

theorem core_checkedPairs_sub (f : Fish) : ∀ p ∈ f.core.checkedPairs, p ∈ f.variantPairs := by
  intro p hp
  cases f <;> simp_all [variantPairs, core]

theorem ofChecked_core (f : Fish) : FishCore.ofChecked f.checked = f.core.reread := by
  refine FishCore.ofChecked_eq fun k v hp => get?_checked (f.core_checkedPairs_sub _ hp) ?_
  simp only [FishCore.checkedPairs, List.mem_cons, List.not_mem_nil, or_false, Prod.mk.injEq] at hp
  rcases hp with ⟨rfl, -⟩ | ⟨rfl, -⟩ | ⟨rfl, -⟩ | ⟨rfl, -⟩ <;> decide

theorem checked_object (f : Fish) : ∃ fs, f.checked = .object fs :=
  ⟨_, by rw [checked_eq, Json.obj]⟩

theorem one_le_depth_checked (f : Fish) : 1 ≤ f.checked.depth := by
  rw [checked_eq]
  simp [Json.obj, Json.depth]

/-- A salmon's partner's record nests less than the salmon's. -/
theorem depth_checked_partner (c : FishCore) (q : Fish) :
    q.checked.depth < (salmon c (some q)).checked.depth := by
  have h : (salmon c (some q)).checked.get? "partner" = some q.checked :=
    get?_checked (by simp [variantPairs]) (by decide)
  rw [(salmon c (some q)).checked_eq] at h ⊢
  exact Json.depth_lt_of_get?_obj h

/-- A well-formed fish's record is made back into the fish read back, when the fuel covers the
chain of partners. The induction is on the fuel. -/
theorem ofCheckedWith_checked {f : Fish} (hwf : f.WellFormed) {n : Nat} (hn : f.checked.depth ≤ n) :
    ofCheckedWith n f.checked = f.reread := by
  induction n generalizing f with
  | zero => exact absurd hn (by have := f.one_le_depth_checked; omega)
  | succ n ih =>
    have hcore := f.ofChecked_core
    have hkind := f.textAt_kind
    cases f with
    | shark c w =>
      have hweight : (shark c w).checked.get? "weight" = some ((optInt32 w).getD .null) :=
        get?_checked (by simp [variantPairs]) (by decide)
      simp only [kind] at hkind
      simp only [ofCheckedWith, hkind, hcore, hweight, core, reread, Option.bind_some, Json.int32?_optInt32]
    | salmon c p =>
      simp only [kind] at hkind
      cases p with
      | none =>
        have hpartner : (salmon c none).checked.get? "partner" = some .null :=
          get?_checked (by simp [variantPairs]) (by decide)
        simp only [ofCheckedWith, hkind, hcore, hpartner, core, reread]
      | some q =>
        obtain ⟨-, hwq⟩ := hwf
        have hpartner : (salmon c (some q)).checked.get? "partner" = some q.checked :=
          get?_checked (by simp [variantPairs]) (by decide)
        have hq : q.checked.depth ≤ n := by
          have := depth_checked_partner c q
          omega
        obtain ⟨fs, hobj⟩ := q.checked_object
        simp only [ofCheckedWith, hkind, hcore, hpartner, core, reread]
        rw [hobj]
        simp only
        rw [← hobj, ih hwq hq]
    | other k c =>
      simp only [kind] at hkind
      simp only [WellFormed, Shape.isModelledKind, Bool.or_eq_false_iff, beq_eq_false_iff_ne] at hwf
      unfold ofCheckedWith
      rw [hkind]
      split
      · simp_all
      · simp_all
      · simp [hcore, core, reread]

theorem ofChecked_checked {f : Fish} (hwf : f.WellFormed) : ofChecked f.checked = f.reread :=
  ofCheckedWith_checked hwf (Json.depth_le_size _)

end Fish

namespace Resource

theorem get?_checked {r : Resource} {k : String} {v : Json} (hp : (k, v) ∈ r.checkedPairs) :
    r.checked.get? k = some v :=
  Json.get?_obj_of_mem (by simp [checkedPairs]) hp

theorem mapOfChecked_checked (es : Keyed (Option InnerModel)) :
    mapOfChecked (.object (checkedEntries es)) = some (es.map fun p => (p.1, p.2.map InnerModel.reread)) := by
  simp only [mapOfChecked, checkedEntries, List.map_map, Option.some.injEq]
  refine List.map_congr_left fun p _ => ?_
  rcases p with ⟨k, _ | m⟩
  · rfl
  · show (k, InnerModel.ofChecked m.checked |> some) = (k, some m.reread)
    rw [InnerModel.ofChecked_checked]

/-- A well-formed resource's record is made back into the resource read back. -/
theorem ofChecked_checked {r : Resource} (hwf : r.WellFormed) : ofChecked r.checked = r.reread := by
  have hid := get?_checked (r := r) (k := "id") (v := .null) (by simp [checkedPairs])
  have hname := get?_checked (r := r) (k := "name") (v := .null) (by simp [checkedPairs])
  have hdescription := get?_checked (r := r) (k := "description")
    (v := (optString r.description).getD .null) (by simp [checkedPairs])
  have hmap := get?_checked (r := r) (k := "map")
    (v := (r.map.map fun es => Json.object (checkedEntries es)).getD .null) (by simp [checkedPairs])
  have hlong := get?_checked (r := r) (k := "longValue") (v := (optInt64 r.longValue).getD .null)
    (by simp [checkedPairs])
  have hint := get?_checked (r := r) (k := "intValue") (v := (optInt32 r.intValue).getD .null)
    (by simp [checkedPairs])
  have henum := get?_checked (r := r) (k := "enumValue")
    (v := (r.enumValue.map fun e => Json.string e.asString).getD .null) (by simp [checkedPairs])
  have hinner := get?_checked (r := r) (k := "wireNameForInnerModelProperty")
    (v := (r.innerModelProperty.map InnerModel.checked).getD .null) (by simp [checkedPairs])
  have harray := get?_checked (r := r) (k := "array")
    (v := (r.array.map fun xs => Json.array (xs.map InnerModel.checked)).getD .null) (by simp [checkedPairs])
  have hfish := get?_checked (r := r) (k := "fish") (v := (r.fish.map Fish.checked).getD .null)
    (by simp [checkedPairs])
  simp only [ofChecked, reread, Json.textAt, hid, hname, hdescription, hmap, hlong, hint, henum, hinner,
    harray, hfish, Option.bind_some, Json.str?_null, Json.str?_optString, Json.int64?_optInt64,
    Json.int32?_optInt32]
  congr 1
  · cases r.map with
    | none => rfl
    | some es => exact mapOfChecked_checked es
  · cases he : r.enumValue with
    | none => rfl
    | some e => simp [hwf.enumValue e he]
  · cases r.innerModelProperty with
    | none => rfl
    | some m => exact congrArg some m.ofChecked_checked
  · cases r.array with
    | none => rfl
    | some xs => simp [arrayOfChecked, InnerModel.ofChecked_checked]
  · cases hf : r.fish with
    | none => rfl
    | some f =>
      obtain ⟨fs, hobj⟩ := f.checked_object
      simp only [Option.map_some, Option.getD_some, hobj]
      rw [← hobj, Fish.ofChecked_checked (hwf.fish f hf).2]

end Resource

namespace Fish

/-- A shark's or a salmon's record read by its variant, with its kind put back, is its record. -/
theorem tagged_variantPairs (f : Fish) :
    Json.object (Keyed.insert (Keyed.ofList f.variantPairs) "kind" (.string f.kind)) = f.checked := by
  rw [checked_eq, Json.obj, Keyed.ofList_append_singleton]

/-- A fish of another kind reads its kind as a field: its record read by its variant is its record. -/
theorem obj_variantPairs_other (k : String) (c : FishCore) :
    Json.obj (other k c).variantPairs = (other k c).checked := by
  rw [checked_eq, Json.obj, Json.obj, Keyed.ofList_append_self]
  simp [variantPairs, FishCore.checkedPairs, kind, Keyed.getLast?, Keyed.get?]

end Fish

namespace AnyModel

theorem shapeOf_variant (f : Fish) : shapeOf (variant f).modelKind = f.shape := by
  cases f <;> rfl

/-- The record a well-formed model's full form reads to is made back into the model read back. -/
theorem ofChecked_checked {m : AnyModel} (hwf : m.WellFormed) : ofChecked m.modelKind m.checked = m.reread := by
  cases m with
  | resource r => exact congrArg resource (Resource.ofChecked_checked hwf)
  | inner n => exact congrArg inner n.ofChecked_checked
  | fish f => exact congrArg fish (Fish.ofChecked_checked hwf)
  | variant f =>
    cases f with
    | shark c w =>
      show variant (Fish.ofChecked (.object (Keyed.insert (Keyed.ofList (Fish.shark c w).variantPairs) "kind"
        (.string (Fish.shark c w).kind)))) = _
      rw [Fish.tagged_variantPairs, Fish.ofChecked_checked hwf]
      rfl
    | salmon c p =>
      show variant (Fish.ofChecked (.object (Keyed.insert (Keyed.ofList (Fish.salmon c p).variantPairs) "kind"
        (.string (Fish.salmon c p).kind)))) = _
      rw [Fish.tagged_variantPairs, Fish.ofChecked_checked hwf]
      rfl
    | other k c =>
      show variant (Fish.ofChecked (Json.obj (Fish.other k c).variantPairs)) = _
      rw [Fish.obj_variantPairs_other, Fish.ofChecked_checked hwf]
      rfl

/-- A well-formed model's full form, in either order of members, is read by the schema of its
kind to its record. -/
theorem readsBy_full {m : AnyModel} (hwf : m.WellFormed) (b : Bool) {fuel : Nat}
    (hfuel : ((m.write false).sortIf b).depth + 9 ≤ fuel) :
    ReadM.ReadsBy Shape.schema fuel (.ref (shapeOf m.modelKind)) ((m.write false).sortIf b) m.checked := by
  obtain ⟨n, rfl⟩ : ∃ n, fuel = n + 1 := ⟨fuel - 1, by omega⟩
  cases m with
  | resource r =>
    have h : ReadM.ReadsBy Shape.schema n (Shape.schema .resource) ((r.write false).sortIf b) r.checked :=
      Resource.readsBy b hwf (by simp only [write] at hfuel; omega)
    show ReadM.ReadsBy Shape.schema (n + 1) (.ref .resource) ((r.write false).sortIf b) r.checked
    exact ReadM.readsBy_ref h
  | inner m =>
    have h : ReadM.ReadsBy Shape.schema n (Shape.schema .innerModel) ((m.write false).sortIf b) m.checked :=
      InnerModel.readsBy b m (by omega)
    show ReadM.ReadsBy Shape.schema (n + 1) (.ref .innerModel) ((m.write false).sortIf b) m.checked
    exact ReadM.readsBy_ref h
  | fish f => exact Fish.readsBy_fish b hwf (by simp only [write] at hfuel; omega)
  | variant f =>
    have h : ReadM.ReadsBy Shape.schema n (Shape.schema f.shape) ((f.write false).sortIf b)
        (Json.obj f.variantPairs) := Fish.readsBy_variant b hwf (by simp only [write] at hfuel; omega)
    rw [shapeOf_variant]
    show ReadM.ReadsBy Shape.schema (n + 1) (.ref f.shape) ((f.write false).sortIf b) (Json.obj f.variantPairs)
    exact ReadM.readsBy_ref h

end AnyModel

/-! ## The model read back, its writing and its fields -/

theorem InnerModel.same_reread (m : InnerModel) : m.reread.same m = true := by
  simp [same, reread]

theorem InnerModel.write_reread (m : InnerModel) : m.reread.write false = m.write false := by
  simp [write, reread, Tracker.member]

theorem FishCore.same_reread {c : FishCore} (hid : c.id = none) : c.reread.same c = true := by
  simp [same, reread, hid]

theorem FishCore.members_reread (c : FishCore) : c.reread.members false = c.members false := by
  simp [members, reread, Tracker.member]

namespace Fish

theorem tracker_reread (f : Fish) : f.reread.tracker = {} := by
  rcases f with ⟨c, w⟩ | ⟨c, _ | q⟩ | ⟨k, c⟩ <;> rfl

/-- A fish with no ids is the same as the fish read back, partner by partner. -/
theorem same_reread : (f : Fish) → f.NoIds → f.reread.same f = true
  | shark c w, h => by simp [reread, same, FishCore.same_reread h]
  | salmon c none, h => by simp [reread, same, FishCore.same_reread h]
  | salmon c (some q), h => by simp [reread, same, FishCore.same_reread h.1, same_reread q h.2]
  | other k c, h => by simp [reread, same, FishCore.same_reread h]

/-- The fish read back writes the same full form, partner by partner. -/
theorem write_reread : (f : Fish) → f.WellFormed → f.reread.write false = f.write false
  | shark c w, _ => by simp [reread, write, FishCore.members_reread, Tracker.member]
  | salmon c none, _ => by simp [reread, write, FishCore.members_reread, Tracker.member]
  | salmon c (some q), h => by
    have hq := write_reread q h.2
    simp [reread, write, FishCore.members_reread, Tracker.member, tracker_reread, h.1, hq]
  | other k c, _ => by simp [reread, write, FishCore.members_reread]

end Fish

namespace Resource

/-- A resource with no ids is the same as the resource read back, field by field. -/
theorem same_reread {r : Resource} (h : r.NoIds) : r.reread.same r = true := by
  simp only [same, reread, h.id, h.name, beq_self_eq_true, Bool.true_and, Bool.and_true]
  refine Bool.and_eq_true_iff.mpr ⟨Bool.and_eq_true_iff.mpr ⟨Bool.and_eq_true_iff.mpr ⟨?_, ?_⟩, ?_⟩, ?_⟩
  · cases r.map with
    | none => rfl
    | some es =>
      simp only [Option.map_some, List.length_map, beq_self_eq_true, Bool.true_and]
      -- entry by entry, each model against the one it was read back from
      induction es with
      | nil => rfl
      | cons p es ih =>
        rw [List.map_cons, List.zip_cons_cons, List.all_cons, ih, Bool.and_true]
        rcases p with ⟨k, _ | m⟩
        · simp [sameInner]
        · simp [sameInner, InnerModel.same_reread]
  · cases r.innerModelProperty with
    | none => rfl
    | some m => exact m.same_reread
  · cases r.array with
    | none => rfl
    | some xs =>
      simp only [Option.map_some, List.length_map, beq_self_eq_true, Bool.true_and]
      induction xs with
      | nil => rfl
      | cons m xs ih => simp_all [InnerModel.same_reread]
  · cases hf : r.fish with
    | none => rfl
    | some f => exact Fish.same_reread f (h.fish f hf)

/-- A well-formed resource read back writes the same full form: the read-back nested models
write themselves in full, as the well-formed ones do. -/
theorem write_reread {r : Resource} (hwf : r.WellFormed) : r.reread.write false = r.write false := by
  have hmap : ∀ es ∈ r.map, writeMap (es.map fun p => (p.1, p.2.map InnerModel.reread)) false =
      writeMap es false := by
    intro es hes
    simp only [writeMap, List.map_map]
    congr 1
    refine List.map_congr_left fun p hp => ?_
    rcases p with ⟨k, _ | m⟩
    · rfl
    · have hm : m.tracker.mergePatch = false := (hwf.map es hes).2 _ hp m rfl
      show (k, m.reread.writeOwn) = (k, m.writeOwn)
      rw [InnerModel.writeOwn, InnerModel.writeOwn, hm]
      exact congrArg (Prod.mk k) m.write_reread
  have hinner : ∀ m ∈ r.innerModelProperty, m.reread.write (false || m.reread.tracker.mergePatch) =
      m.write (false || m.tracker.mergePatch) := by
    intro m hm
    rw [hwf.innerModelProperty m hm]
    exact m.write_reread
  have harray : ∀ xs ∈ r.array, (xs.map InnerModel.reread).map InnerModel.writeOwn =
      xs.map InnerModel.writeOwn := by
    intro xs hxs
    rw [List.map_map]
    refine List.map_congr_left fun m hm => ?_
    simp only [Function.comp, InnerModel.writeOwn, hwf.array xs hxs m hm]
    exact m.write_reread
  have hfish : ∀ f ∈ r.fish, f.reread.write (false || f.reread.tracker.mergePatch) =
      f.write (false || f.tracker.mergePatch) := by
    intro f hf
    obtain ⟨hq, hwq⟩ := hwf.fish f hf
    rw [Fish.tracker_reread, hq]
    exact f.write_reread hwq
  simp only [write, reread, Tracker.member]
  congr 1
  -- every member but the four that hold models is written from the same value
  cases hm : r.map <;> cases hi : r.innerModelProperty <;> cases ha : r.array <;> cases hf : r.fish <;>
    simp_all

end Resource

namespace AnyModel

theorem same_reread {m : AnyModel} (h : m.NoIds) : m.reread.same m = true := by
  cases m with
  | resource r => exact Resource.same_reread h
  | inner n => exact n.same_reread
  | fish f => exact Fish.same_reread f h
  | variant f => exact Fish.same_reread f h

theorem mutated_reread (m : AnyModel) : m.reread.mutated = [] := by
  cases m with
  | resource r => rfl
  | inner n => rfl
  | fish f => simp [reread, mutated, tracker, Fish.tracker_reread]
  | variant f => simp [reread, mutated, tracker, Fish.tracker_reread]

theorem write_reread {m : AnyModel} (hwf : m.WellFormed) : m.reread.write false = m.write false := by
  cases m with
  | resource r => exact Resource.write_reread hwf
  | inner n => exact n.write_reread
  | fish f => exact Fish.write_reread f hwf
  | variant f => exact Fish.write_reread f hwf

/-- The reader gives a text a fuel that covers the nesting of the value written in it, with
room to spare. -/
theorem depth_add_le_fuel (j : Json) {k : Nat} (hk : k ≤ 16) :
    j.depth + k ≤ 8 * j.compact.toUTF8.size + 16 := by
  have hdepth := Json.depth_le_length j
  have hsize : j.compact.toUTF8.size = (Text.bytes j.compact).length := by
    rw [String.toUTF8_eq_toByteArray, Text.toByteArray_eq, List.size_toByteArray]
  omega

/-- **The full form reads back.** The text of a well-formed model's full form, with members in
writing order or in key order, is read as the model read back, when the full form nests fewer
than 128 containers. -/
theorem fromText_full {m : AnyModel} (hwf : m.WellFormed) (b : Bool) (hd : (m.write false).depth < 128) :
    fromText m.modelKind ((m.write false).sortIf b).compact.toUTF8 = .ok m.reread := by
  have hdepth : ((m.write false).sortIf b).depth < 128 :=
    lt_of_le_of_lt (Json.depth_sortIf_le b _) hd
  have hread := ReadM.readText_of_readsBy hdepth (readsBy_full hwf b (depth_add_le_fuel _ (by omega)))
  unfold fromText readShapeText
  rw [hread]
  exact congrArg Except.ok (ofChecked_checked hwf)

end AnyModel

/-- **Full round trip.** A well-formed model of any kind (nested models in full mode, maps in key
order, the enumerated value in the form its text reads to, a fish of another kind of neither
modelled kind) whose full form nests fewer than 128 containers reads back from its full text.
When it has no ids (and, for a resource, no name), the text in writing order reads to a model
with the same fields and nothing assigned; with or without ids, the full form of the model read
from the full form's text is the full form. -/
theorem full_round_trip {m : AnyModel} (hwf : m.WellFormed) (hd : (m.write false).depth < 128) :
    (m.NoIds → ∃ m', AnyModel.fromText m.modelKind (m.toBody false).toUTF8 = .ok m' ∧
      m'.same m = true ∧ m'.mutated = []) ∧
    ∃ m', AnyModel.fromText m.modelKind m.toJson.compact.toUTF8 = .ok m' ∧ m'.toJson = m.toJson := by
  refine ⟨fun hid => ⟨m.reread, AnyModel.fromText_full hwf false hd, AnyModel.same_reread hid,
    m.mutated_reread⟩, ⟨m.reread, AnyModel.fromText_full hwf true hd, ?_⟩⟩
  rw [AnyModel.toJson, AnyModel.toJson, AnyModel.write_reread hwf]

/-- A salmon with a name and a shark for its partner reads back from its full text. -/
theorem full_round_trip_salmon :
    (AnyModel.fish (.salmon { name := some "s" } (some (.shark {} (some 3))))).WellFormed ∧
    ((AnyModel.fish (.salmon { name := some "s" } (some (.shark {} (some 3))))).write false).depth < 128 ∧
    ((AnyModel.fish (.salmon { name := some "s" } (some (.shark {} (some 3))))).NoIds →
      ∃ m', AnyModel.fromText .fish
          ((AnyModel.fish (.salmon { name := some "s" } (some (.shark {} (some 3))))).toBody false).toUTF8 =
          .ok m' ∧ m'.same (AnyModel.fish (.salmon { name := some "s" } (some (.shark {} (some 3))))) = true ∧
        m'.mutated = []) ∧
    ∃ m', AnyModel.fromText .fish
        (AnyModel.fish (.salmon { name := some "s" } (some (.shark {} (some 3))))).toJson.compact.toUTF8 =
        .ok m' ∧ m'.toJson = (AnyModel.fish (.salmon { name := some "s" } (some (.shark {} (some 3))))).toJson := by
  have hwf : (AnyModel.fish (.salmon { name := some "s" } (some (.shark {} (some 3))))).WellFormed :=
    ⟨rfl, trivial⟩
  have hd : ((AnyModel.fish (.salmon { name := some "s" } (some (.shark {} (some 3))))).write false).depth < 128 := by
    decide
  exact ⟨hwf, hd, full_round_trip hwf hd⟩

/-! ## Text nested too deep -/

namespace Fish

/-- The text of a fish whose full form nests 128 containers or more is not read as a fish: the
reader refuses to go deeper. -/
theorem fromText_deep {f : Fish} (hd : 128 ≤ (f.write false).depth) :
    ∃ e, AnyModel.fromText .fish ((AnyModel.fish f).toBody false).toUTF8 = .error e := by
  have hj : (f.write false).Canonical := f.canonical_write false
  have hat : Text.At (f.write false).compact.toUTF8 0 (Text.bytes (f.write false).compact) := by
    rw [String.toUTF8_eq_toByteArray]
    exact Text.at_toByteArray _
  have hfuel : (f.write false).depth < 8 * (f.write false).compact.toUTF8.size + 14 := by
    have := AnyModel.depth_add_le_fuel (f.write false) (show 3 ≤ 16 by omega)
    omega
  obtain ⟨e, c, he⟩ := ReadM.any_deep _ hj hfuel (by decide : 1 ≤ 128) hd hat
  -- the schema of a fish reads the text as any value first, and that reading stops
  have hread : ReadM.bySchema Shape.schema (8 * (f.write false).compact.toUTF8.size + 14 + 1 + 1) (.ref .fish)
      ⟨(f.write false).compact.toUTF8, 0, 128⟩ = .error e c := by
    rw [ReadM.bySchema]
    show ReadM.bySchema Shape.schema (8 * (f.write false).compact.toUTF8.size + 14 + 1)
      (.tagged "kind" Shape.ofKind) ⟨(f.write false).compact.toUTF8, 0, 128⟩ = _
    rw [ReadM.bySchema]
    exact ReadM.bind_error he
  refine ⟨.deserialization e, ?_⟩
  show AnyModel.fromText .fish (f.write false).compact.toUTF8 = _
  unfold AnyModel.fromText readShapeText Schema.readText
  simp only [EStateM.run, Cursor.start, AnyModel.shapeOf]
  rw [show 8 * (f.write false).compact.toUTF8.size + 16 = 8 * (f.write false).compact.toUTF8.size + 14 + 1 + 1
    from rfl, ReadM.bind_error hread]
  rfl

/-- A salmon whose partner is `q`, with nothing else set. -/
def withPartnerOnly (q : Fish) : Fish := salmon {} (some q)

/-- A chain of `n + 1` salmon, each but the last with the next as its partner. -/
def salmonChain (n : Nat) : Fish := withPartnerOnly^[n] (salmon {} none)

theorem salmonChain_succ (n : Nat) : salmonChain (n + 1) = salmon {} (some (salmonChain n)) :=
  Function.iterate_succ_apply' withPartnerOnly n _

theorem tracker_salmonChain (n : Nat) : (salmonChain n).tracker = {} := by
  cases n with
  | zero => rfl
  | succ n => rw [salmonChain_succ]; rfl

theorem salmonChain_wellFormed (n : Nat) : (salmonChain n).WellFormed ∧ (salmonChain n).NoIds := by
  induction n with
  | zero => exact ⟨trivial, rfl⟩
  | succ n ih =>
    rw [salmonChain_succ]
    exact ⟨⟨by rw [tracker_salmonChain], ih.1⟩, rfl, ih.2⟩

/-- Each salmon of the chain nests its partner's full form one level deeper. -/
theorem depth_write_salmonChain (n : Nat) : ((salmonChain n).write false).depth = n + 1 := by
  induction n with
  | zero => rfl
  | succ n ih =>
    rw [salmonChain_succ]
    simp [write, FishCore.members, Tracker.member, optString, optInt32, tracker_salmonChain, Json.depth,
      Json.depth.depthFields, ih]
    omega

end Fish

/-- **A chain of 128 salmon is not read back.** The fish is well formed and has no ids, yet its
full text nests 128 objects, and the reader refuses it. -/
theorem salmon_chain_unreadable :
    (AnyModel.fish (Fish.salmonChain 127)).WellFormed ∧ (AnyModel.fish (Fish.salmonChain 127)).NoIds ∧
    ∃ e, AnyModel.fromText .fish ((AnyModel.fish (Fish.salmonChain 127)).toBody false).toUTF8 = .error e :=
  ⟨(Fish.salmonChain_wellFormed 127).1, (Fish.salmonChain_wellFormed 127).2,
    Fish.fromText_deep (by rw [Fish.depth_write_salmonChain])⟩

end MergePatch
