import Mathlib
import MergePatch.Proofs.SparsePatch
import MergePatch.Proofs.PatchShape
/-!
# The two forms of a model agree

A model writes itself in full (`AnyModel.toJson`) or as the merge patch of the fields assigned
since it was built (`AnyModel.toMergePatch`). The two never contradict each other: the merge
patch, merged into the full form, gives the full form back (`own_patch_merges_to_full_form`).

Two things are needed of the model. Every nested model writes itself in full (`NestedFull`: its
merge-patch flag is off, as in every state calls reach): in a merge patch a nested model is
written as a merge patch of its own, and it is that patch that must merge into the nested
model's full form. And no entry of a map is missing (`NoMissingEntries`): a missing entry is
written `null` in both forms, and a `null` member of a patch removes the member.

The proof goes field by field: a field whose merge-patch member merges into its full member
(`Member.SelfMerges`) is one that `mergePatch_writeAll` merges with itself. Values are written
alike in both forms; a nested model merges by the same result one level down, by induction on
the chain of partners; a map merges entry by entry.
-/

namespace MergePatch

/-! ## Models whose nested models write themselves in full -/

namespace Fish

/-- Every partner along the chain writes itself in full. -/
def NestedFull : Fish → Prop
  | salmon _ (some q) => q.tracker.mergePatch = false ∧ q.NestedFull
  | _ => True

end Fish

namespace Resource

/-- Every nested model writes itself in full: the models of the map, the inner model, the models
of the array, and the fish with its partners. -/
structure NestedFull (r : Resource) : Prop where
  map : ∀ es ∈ r.map, ∀ p ∈ es, ∀ m ∈ p.2, m.tracker.mergePatch = false
  innerModelProperty : ∀ m ∈ r.innerModelProperty, m.tracker.mergePatch = false
  array : ∀ xs ∈ r.array, ∀ m ∈ xs, m.tracker.mergePatch = false
  fish : ∀ f ∈ r.fish, f.tracker.mergePatch = false ∧ f.NestedFull

/-- Every entry of the map holds a model. -/
def NoMissingEntries (r : Resource) : Prop := ∀ es ∈ r.map, ∀ p ∈ es, p.2.isSome

end Resource

namespace AnyModel

/-- Every model nested in the model writes itself in full. -/
def NestedFull : AnyModel → Prop
  | resource r => r.NestedFull
  | inner _ => True
  | fish f => f.NestedFull
  | variant f => f.NestedFull

/-- No entry of a map in the model is missing; only a resource has a map. -/
def NoMissingEntries : AnyModel → Prop
  | resource r => r.NoMissingEntries
  | _ => True

end AnyModel

/-! ## Fields that merge with themselves -/

/-- A field whose merge-patch member, merged into its full member, gives its full member. -/
def Member.SelfMerges (f : Member) : Prop :=
  Json.mergeAt ((f.value false).map Json.normalize) (some ((f.value true).getD .null).normalize) =
    (f.value false).map Json.normalize

theorem Member.SelfMerges.merges {f : Member} (h : f.SelfMerges) (t : Tracker) : Member.Merges t f f :=
  ⟨rfl, fun _ => h, fun _ => rfl⟩

/-- A value is written alike in both forms, and put in place whole. -/
theorem Member.selfMerges_scalar {l w : String} {v : Option Json} (hv : ∀ j ∈ v, j.Plain) :
    (Member.scalar l w v).SelfMerges := by
  cases v with
  | none => rfl
  | some j => exact Json.mergeAt_plain (hv j rfl).normalize _

/-- **A model's merge patch merged into its full form is its full form**, when every field
merges with itself. -/
theorem AnyModel.mergePatch_self {m : AnyModel} (h : ∀ f ∈ m.members, f.SelfMerges) :
    Json.mergePatch m.toJson m.toMergePatch = m.toJson := by
  have hfixed : ∀ p ∈ m.fixed, ∃ s, p.2 = .string s := by
    intro p hp
    cases m <;> simp only [fixed, List.mem_cons, or_false, List.mem_nil_iff] at hp
    all_goals exact ⟨_, by rw [hp]⟩
  have hmembers : List.Forall₂ (Member.Merges m.tracker) m.members m.members :=
    List.forall₂_same.mpr fun f hf => (h f hf).merges m.tracker
  rw [toJson, toMergePatch, write_eq, write_eq]
  exact mergePatch_writeAll m.fixed hfixed m.nodup_keys hmembers

/-! ## Inner models and fish -/

/-- An inner model in full mode: its merge patch merged into its full form is its full form. -/
theorem InnerModel.mergePatch_self {m : InnerModel} (h : m.tracker.mergePatch = false) :
    Json.mergePatch (m.write false).normalize (m.write true).normalize = (m.write false).normalize :=
  (InnerModel.Edit.refl h).mergePatch

/-- A nested inner model merges with itself when it writes itself in full. -/
theorem InnerModel.selfMerges_nested {l w : String} {x : Option InnerModel}
    (h : ∀ m ∈ x, m.tracker.mergePatch = false) :
    (⟨l, w, fun b => x.map fun m => m.write (b || m.tracker.mergePatch)⟩ : Member).SelfMerges := by
  cases x with
  | none => rfl
  | some m =>
    have hm : m.tracker.mergePatch = false := h m rfl
    simp only [Member.SelfMerges, Option.map_some, Option.getD_some, Bool.false_or, Bool.true_or, hm,
      InnerModel.mergeAt_write, InnerModel.mergePatch_self hm]

/-- A fish merges with itself when each of its fields does. -/
theorem Fish.mergePatch_of_members {f : Fish} (h : ∀ g ∈ f.members, g.SelfMerges) :
    Json.mergePatch (f.write false).normalize (f.write true).normalize = (f.write false).normalize :=
  @AnyModel.mergePatch_self (.fish f) h

/-- A fish whose partners write themselves in full: its merge patch merged into its full form is
its full form. The induction is on the chain of partners. -/
theorem Fish.mergePatch_self : (f : Fish) → f.NestedFull →
    Json.mergePatch (f.write false).normalize (f.write true).normalize = (f.write false).normalize
  | shark c w, _ => mergePatch_of_members fun g hg => by
    simp only [members, FishCore.fields, List.cons_append, List.nil_append, List.mem_cons,
      List.not_mem_nil, or_false] at hg
    rcases hg with rfl | rfl | rfl | rfl
    · exact Member.selfMerges_scalar (Json.plain_optString _)
    · exact Member.selfMerges_scalar (Json.plain_optInt32 _)
    · exact Member.selfMerges_scalar (Json.plain_optString _)
    · exact Member.selfMerges_scalar (Json.plain_optInt32 _)
  | salmon c p, h => mergePatch_of_members fun g hg => by
    simp only [members, FishCore.fields, List.cons_append, List.nil_append, List.mem_cons,
      List.not_mem_nil, or_false] at hg
    rcases hg with rfl | rfl | rfl | rfl
    · exact Member.selfMerges_scalar (Json.plain_optString _)
    · exact Member.selfMerges_scalar (Json.plain_optInt32 _)
    · exact Member.selfMerges_scalar (Json.plain_optString _)
    · -- the partner merges one level down
      cases p with
      | none => rfl
      | some q =>
        obtain ⟨hq, hqf⟩ : q.tracker.mergePatch = false ∧ q.NestedFull := h
        simp only [Member.SelfMerges, Option.map_some, Option.getD_some, Bool.false_or, Bool.true_or, hq,
          Fish.mergeAt_write, mergePatch_self q hqf]
  | other k c, _ => mergePatch_of_members fun g hg => by
    simp only [members, FishCore.fields, List.mem_cons, List.not_mem_nil, or_false] at hg
    rcases hg with rfl | rfl | rfl
    · exact Member.selfMerges_scalar (Json.plain_optString _)
    · exact Member.selfMerges_scalar (Json.plain_optInt32 _)
    · exact Member.selfMerges_scalar (Json.plain_optString _)

/-! ## Resources -/

namespace Resource

/-- Under each key, a map without missing entries holds the same model in the full form and in
the merge patch. -/
theorem entryEdit_self {xs : Keyed (Option InnerModel)}
    (hmode : ∀ p ∈ xs, ∀ m ∈ p.2, m.tracker.mergePatch = false) (hsome : ∀ p ∈ xs, p.2.isSome)
    (k : String) : EntryEdit (Keyed.getLast? xs k) (Keyed.getLast? xs k) := by
  cases hk : Keyed.getLast? xs k with
  | none => exact .absent
  | some e =>
    have hmem : (k, e) ∈ xs := List.mem_reverse.mp (Keyed.get?_eq_some_mem hk)
    cases e with
    | none => simpa using hsome _ hmem
    | some m => exact .edited (InnerModel.Edit.refl (hmode _ hmem m rfl))

/-- The map merges with itself, entry by entry. -/
theorem selfMerges_map {x : Option (Keyed (Option InnerModel))}
    (hmode : ∀ es ∈ x, ∀ p ∈ es, ∀ m ∈ p.2, m.tracker.mergePatch = false)
    (hsome : ∀ es ∈ x, ∀ p ∈ es, p.2.isSome) :
    (⟨"map", "map", fun b => x.map (writeMap · b)⟩ : Member).SelfMerges := by
  cases x with
  | none => rfl
  | some xs =>
    simp only [Member.SelfMerges, Option.map_some, Option.getD_some, mergeAt_writeMap]
    exact congrArg some (writeMap_mergePatch (entryEdit_self (hmode xs rfl) (hsome xs rfl)))

/-- The fish of a resource merges with itself when it and its partners write themselves in full. -/
theorem selfMerges_fish {x : Option Fish} (h : ∀ f ∈ x, f.tracker.mergePatch = false ∧ f.NestedFull) :
    (⟨"fish", "fish", fun b => x.map fun f => f.write (b || f.tracker.mergePatch)⟩ : Member).SelfMerges := by
  cases x with
  | none => rfl
  | some f =>
    obtain ⟨hf, hff⟩ := h f rfl
    simp only [Member.SelfMerges, Option.map_some, Option.getD_some, Bool.false_or, Bool.true_or, hf,
      Fish.mergeAt_write, Fish.mergePatch_self f hff]

/-- Every field of a resource whose nested models write themselves in full and whose map misses
no entry merges with itself. -/
theorem selfMerges_members {r : Resource} (h : r.NestedFull) (hmap : r.NoMissingEntries) :
    ∀ f ∈ r.members, f.SelfMerges := by
  intro f hf
  simp only [members, List.mem_cons, List.not_mem_nil, or_false] at hf
  rcases hf with rfl | rfl | rfl | rfl | rfl | rfl | rfl | rfl
  · exact Member.selfMerges_scalar (Json.plain_optString _)
  · exact selfMerges_map h.map hmap
  · exact Member.selfMerges_scalar (Json.plain_optInt64 _)
  · exact Member.selfMerges_scalar (Json.plain_optInt32 _)
  · exact Member.selfMerges_scalar (Json.plain_map (fun e : EnumValue => Json.string e.asString)
      (fun _ => trivial) _)
  · exact InnerModel.selfMerges_nested h.innerModelProperty
  · exact Member.selfMerges_scalar (Json.plain_map
      (fun xs : List InnerModel => Json.array (xs.map InnerModel.writeOwn)) (fun _ => trivial) _)
  · exact selfMerges_fish h.fish

end Resource

/-- **The two forms agree.** For a model of any kind whose nested models all write themselves in
full and whose map misses no entry, the merge patch merged into the full form is the full form. -/
theorem own_patch_merges_to_full_form {m : AnyModel} (hfull : m.NestedFull)
    (hmap : m.NoMissingEntries) :
    Json.mergePatch m.toJson m.toMergePatch = m.toJson := by
  cases m with
  | resource r => exact AnyModel.mergePatch_self (Resource.selfMerges_members hfull hmap)
  | inner n =>
    -- an inner model's own mode plays no part in either form
    exact AnyModel.mergePatch_self fun f hf => by
      simp only [AnyModel.members, InnerModel.members, List.mem_cons, List.not_mem_nil, or_false] at hf
      rcases hf with rfl | rfl <;> exact Member.selfMerges_scalar (Json.plain_optString _)
  | fish f => exact Fish.mergePatch_self f hfull
  | variant f => exact Fish.mergePatch_self f hfull

/-- A resource whose inner model has its name assigned and whose map holds one model. -/
theorem own_patch_merges_to_full_form_named :
    (AnyModel.resource (({ map := some [("k", some {})] } : Resource).withInnerModelProperty
      (some (({} : InnerModel).withName (some "n"))))).NestedFull ∧
    (AnyModel.resource (({ map := some [("k", some {})] } : Resource).withInnerModelProperty
      (some (({} : InnerModel).withName (some "n"))))).NoMissingEntries ∧
    Json.mergePatch
        (AnyModel.resource (({ map := some [("k", some {})] } : Resource).withInnerModelProperty
          (some (({} : InnerModel).withName (some "n"))))).toJson
        (AnyModel.resource (({ map := some [("k", some {})] } : Resource).withInnerModelProperty
          (some (({} : InnerModel).withName (some "n"))))).toMergePatch =
      (AnyModel.resource (({ map := some [("k", some {})] } : Resource).withInnerModelProperty
        (some (({} : InnerModel).withName (some "n"))))).toJson := by
  have hfull : (AnyModel.resource (({ map := some [("k", some {})] } : Resource).withInnerModelProperty
      (some (({} : InnerModel).withName (some "n"))))).NestedFull :=
    ⟨by simp [Resource.withInnerModelProperty, Resource.mark], by simp [Resource.withInnerModelProperty,
      Resource.mark, InnerModel.withName, Tracker.mark], by simp [Resource.withInnerModelProperty,
      Resource.mark], by simp [Resource.withInnerModelProperty, Resource.mark]⟩
  have hmap : (AnyModel.resource (({ map := some [("k", some {})] } : Resource).withInnerModelProperty
      (some (({} : InnerModel).withName (some "n"))))).NoMissingEntries := by
    simp [AnyModel.NoMissingEntries, Resource.NoMissingEntries, Resource.withInnerModelProperty,
      Resource.mark]
  exact ⟨hfull, hmap, own_patch_merges_to_full_form hfull hmap⟩

end MergePatch
