import Mathlib
import MergePatch.Proofs.Tracking
import MergePatch.Proofs.Written
/-!
# Sparse patches agree with the full form

A client reads a resource, assigns fields by dotted paths and sends its merge patch; the server
merges the patch into the full form it holds. This module proves that the server then holds the
client's full form, for every run of assignments by *sparse* paths (`SparsePath`): a value field
of the resource, or a scalar member of a nested model reached through `innerModelProperty`, an
entry of `map` (created if absent) or the fish and its chain of partners. A path that replaces a
whole nested model is left out: the client replaces, the server would merge.

The proof keeps an invariant between the model read (`base`) and the model now (`Edit`): every
field not assigned since is as it was, and every nested model assigned through is itself an edit
of the one it replaced (or of an empty one, when it was created). Each successful sparse
assignment keeps it (`Resource.Edit.set`), and an edit's merge patch merges into the base's full
form to give its own (`Resource.Edit.mergePatch`), field by field through `mergePatch_writeAll`.
-/

namespace MergePatch

/-! ## Marks -/

namespace Tracker

theorem isAssigned_mark (t : Tracker) (f g : String) :
    (t.mark f).isAssigned g = (g == f || t.isAssigned g) := by
  rw [Bool.eq_iff_iff]
  simp [isAssigned, mark, Names.mem_insert]

@[simp] theorem isAssigned_mark_self (t : Tracker) (f : String) : (t.mark f).isAssigned f = true := by
  simp [isAssigned_mark]

theorem isAssigned_mark_of_ne (t : Tracker) {f g : String} (h : g ≠ f) :
    (t.mark f).isAssigned g = t.isAssigned g := by
  simp [isAssigned_mark, h]

/-- A field not assigned after a mark was not assigned before it. -/
theorem isAssigned_of_mark {t : Tracker} {f g : String} (h : (t.mark f).isAssigned g = false) :
    t.isAssigned g = false := by
  rw [isAssigned_mark, Bool.or_eq_false_iff] at h
  exact h.2

theorem Fresh.isAssigned {t : Tracker} (h : t.Fresh) (f : String) : t.isAssigned f = false := by
  rw [show t = {} from h]
  rfl

theorem Fresh.mergePatch {t : Tracker} (h : t.Fresh) : t.mergePatch = false := by
  rw [show t = {} from h]

end Tracker

/-! ## Sparse paths -/

/-- The scalar members of the nested models. -/
def scalarMembers : List String := ["name", "description", "age", "color", "weight"]

/-- The fields of a resource that hold a value rather than a nested model. -/
def valueFields : List String := ["description", "longValue", "intValue", "enumValue", "array"]

/-- A path into a fish that ends in a scalar member, through any chain of partners. -/
inductive FishPath : String → Prop
  | member {f : String} : f ∈ scalarMembers → FishPath f
  | partner {p : String} : FishPath p → FishPath ("partner." ++ p)

/-- A path of a resource that assigns a value, never a whole nested model. -/
inductive SparsePath : String → Prop
  | value {f : String} : f ∈ valueFields → SparsePath f
  | inner {f : String} : f ∈ scalarMembers → SparsePath ("innerModelProperty." ++ f)
  | mapMember (k : String) {f : String} : f ∈ scalarMembers → SparsePath ("map." ++ k ++ "." ++ f)
  | fish {p : String} : FishPath p → SparsePath ("fish." ++ p)

namespace FishPath

theorem ne_partner {p : String} (h : FishPath p) : p ≠ "partner" := by
  cases h with
  | member hf =>
    rintro rfl
    simp [scalarMembers] at hf
  | partner hp =>
    intro heq
    have hlen := congrArg String.length heq
    simp only [String.length_append] at hlen
    have : "partner.".length = 8 := rfl
    have : "partner".length = 7 := rfl
    omega

theorem of_dropPrefix? {p rest : String} (h : FishPath p)
    (hd : dropPrefix? p "partner." = some rest) : FishPath rest := by
  cases h with
  | member hf =>
    have hnone : dropPrefix? p "partner." = none := by
      simp only [scalarMembers, List.mem_cons, List.not_mem_nil, or_false] at hf
      rcases hf with rfl | rfl | rfl | rfl | rfl <;> rfl
    rw [hnone] at hd
    cases hd
  | partner hp =>
    rw [dropPrefix?_dotted] at hd
    cases hd
    exact hp

end FishPath

/-- A path that contains a dot is cut at its first one. -/
theorem splitOnce_ne_none {s : String} (h : '.' ∈ s.toList) : splitOnce s '.' ≠ none := by
  have hsome : s.toList.findIdx? (· == '.') ≠ none := by
    rw [Ne, List.findIdx?_eq_none_iff]
    intro hall
    simpa using hall '.' h
  obtain ⟨i, hi⟩ := Option.ne_none_iff_exists'.mp hsome
  simp [splitOnce, hi]

namespace SparsePath

/-- Where the first dot of a sparse path falls. -/
theorem split {p : String} (h : SparsePath p) :
    (p ∈ valueFields ∧ splitOnce p '.' = none) ∨
    (∃ f, splitOnce p '.' = some ("innerModelProperty", f)) ∨
    (∃ rest, '.' ∈ rest.toList ∧ splitOnce p '.' = some ("map", rest)) ∨
    (∃ q, FishPath q ∧ splitOnce p '.' = some ("fish", q)) := by
  cases h with
  | value hf =>
    refine .inl ⟨hf, ?_⟩
    simp only [valueFields, List.mem_cons, List.not_mem_nil, or_false] at hf
    rcases hf with rfl | rfl | rfl | rfl | rfl <;> rfl
  | @inner f _ =>
    refine .inr (.inl ⟨f, ?_⟩)
    rw [show "innerModelProperty." ++ f = "innerModelProperty" ++ "." ++ f from rfl]
    exact splitOnce_dotted f (by decide)
  | @mapMember k f _ =>
    refine .inr (.inr (.inl ⟨k ++ "." ++ f, by simp, ?_⟩))
    rw [show "map." ++ k ++ "." ++ f = "map" ++ "." ++ (k ++ "." ++ f) by
      simp only [String.append_assoc]; rfl]
    exact splitOnce_dotted _ (by decide)
  | @fish q hq =>
    refine .inr (.inr (.inr ⟨q, hq, ?_⟩))
    rw [show "fish." ++ q = "fish" ++ "." ++ q from rfl]
    exact splitOnce_dotted q (by decide)

/-- A sparse path never names a nested model whole. -/
theorem ne_nested {p : String} (h : SparsePath p) (hp : p ∈ ["map", "innerModelProperty", "fish"]) :
    False := by
  have hnone : splitOnce p '.' = none := by
    simp only [List.mem_cons, List.not_mem_nil, or_false] at hp
    rcases hp with rfl | rfl | rfl <;> rfl
  rcases h.split with ⟨hv, -⟩ | ⟨f, hf⟩ | ⟨rest, -, hf⟩ | ⟨q, -, hf⟩
  · simp only [List.mem_cons, List.not_mem_nil, or_false] at hp
    rcases hp with rfl | rfl | rfl <;> simp [valueFields] at hv
  all_goals rw [hnone] at hf; cases hf

theorem fish_rest {p rest : String} (h : SparsePath p) (hs : splitOnce p '.' = some ("fish", rest)) :
    FishPath rest := by
  rcases h.split with ⟨-, hn⟩ | ⟨f, hf⟩ | ⟨r, -, hf⟩ | ⟨q, hq, hf⟩
  · rw [hn] at hs
    cases hs
  · rw [hf] at hs
    simp at hs
  · rw [hf] at hs
    simp at hs
  · rw [hf] at hs
    cases hs
    exact hq

/-- A sparse path through the map names a member of an entry, never the entry whole. -/
theorem map_rest {p rest : String} (h : SparsePath p) (hs : splitOnce p '.' = some ("map", rest)) :
    splitOnce rest '.' ≠ none := by
  rcases h.split with ⟨-, hn⟩ | ⟨f, hf⟩ | ⟨r, hr, hf⟩ | ⟨q, -, hf⟩
  · rw [hn] at hs
    cases hs
  · rw [hf] at hs
    simp at hs
  · rw [hf] at hs
    cases hs
    exact splitOnce_ne_none hr
  · rw [hf] at hs
    simp at hs

end SparsePath

/-! ## Edits of inner models -/

namespace InnerModel

/-- `m` is `base` with some fields assigned: each field not assigned is as in `base`, and
neither writes itself as a merge patch. -/
structure Edit (base m : InnerModel) : Prop where
  baseMode : base.tracker.mergePatch = false
  mode : m.tracker.mergePatch = false
  name : m.tracker.isAssigned "name" = false → m.name = base.name
  description : m.tracker.isAssigned "description" = false → m.description = base.description

theorem Edit.refl {m : InnerModel} (h : m.tracker.mergePatch = false) : Edit m m :=
  ⟨h, h, fun _ => rfl, fun _ => rfl⟩

theorem Edit.empty : Edit {} {} := Edit.refl rfl

theorem Edit.set {base m m' : InnerModel} {field : String} {v : Json} (h : Edit base m)
    (hs : Sets v m field m') : Edit base m' := by
  cases hs with
  | name j _ =>
    exact ⟨h.baseMode, h.mode, fun hx => by simp [withName] at hx,
      fun hx => h.description (Tracker.isAssigned_of_mark hx)⟩
  | description j _ =>
    exact ⟨h.baseMode, h.mode, fun hx => h.name (Tracker.isAssigned_of_mark hx),
      fun hx => by simp [withDescription] at hx⟩

theorem Edit.mergePatch {base m : InnerModel} (h : Edit base m) :
    Json.mergePatch (base.write false).normalize (m.write true).normalize = (m.write false).normalize := by
  have hmembers : List.Forall₂ (Member.Merges m.tracker) base.members m.members :=
    .cons (Member.merges_scalar (Json.plain_optString _) fun hx => by rw [h.name hx])
      (.cons (Member.merges_scalar (Json.plain_optString _) fun hx => by rw [h.description hx]) .nil)
  have key := @mergePatch_writeAll base.tracker m.tracker base.members m.members [] (by simp)
    (by simp [members, Member.scalar]) hmembers
  rw [write_eq, write_eq, write_eq]
  simpa only [List.nil_append] using key

/-- An inner model with nothing assigned writes nothing in full. -/
theorem empty_toJson : (({} : InnerModel).write false).normalize = .object [] := rfl

theorem mergeAt_write (t : Option Json) (m : InnerModel) (b : Bool) :
    Json.mergeAt t (some (m.write b).normalize) =
      some (Json.mergePatch (t.getD (.object [])) (m.write b).normalize) := by
  rw [write_eq]
  exact Json.mergeAt_normalize t _

theorem writeOwn_of_mode {m : InnerModel} (h : m.tracker.mergePatch = false) : m.writeOwn = m.write false := by
  rw [writeOwn, h]

/-- An edit merges into the base, or into nothing when the base is the empty model. -/
theorem Edit.mergeAt {base m : InnerModel} (h : Edit base m) {t : Option Json}
    (ht : t.getD (.object []) = (base.write false).normalize) :
    Json.mergeAt t (some (m.write true).normalize) = some (m.write false).normalize := by
  rw [mergeAt_write, ht, h.mergePatch]

end InnerModel

/-! ## Edits of fish -/

namespace FishCore

/-- The common fields of an edit. -/
structure Edit (base c : FishCore) : Prop where
  baseMode : base.tracker.mergePatch = false
  mode : c.tracker.mergePatch = false
  name : c.tracker.isAssigned "name" = false → c.name = base.name
  age : c.tracker.isAssigned "age" = false → c.age = base.age
  color : c.tracker.isAssigned "color" = false → c.color = base.color

theorem Edit.refl {c : FishCore} (h : c.tracker.Fresh) : Edit c c :=
  ⟨h.mergePatch, h.mergePatch, fun _ => rfl, fun _ => rfl, fun _ => rfl⟩

/-- Marking a field keeps an edit. -/
theorem Edit.mark {base c : FishCore} (h : Edit base c) (f : String) : Edit base (c.mark f) :=
  ⟨h.baseMode, h.mode, fun hx => h.name (Tracker.isAssigned_of_mark hx),
    fun hx => h.age (Tracker.isAssigned_of_mark hx), fun hx => h.color (Tracker.isAssigned_of_mark hx)⟩

theorem Edit.merges {base c : FishCore} (h : Edit base c) :
    List.Forall₂ (Member.Merges c.tracker) base.fields c.fields :=
  .cons (Member.merges_scalar (Json.plain_optString _) fun hx => by rw [h.name hx])
    (.cons (Member.merges_scalar (Json.plain_optInt32 _) fun hx => by rw [h.age hx])
      (.cons (Member.merges_scalar (Json.plain_optString _) fun hx => by rw [h.color hx]) .nil))

end FishCore

namespace Fish

/-- `f` is the fish `f₀` with some fields assigned. A salmon's partner is as in `f₀` unless it
has been assigned through, and then it is itself an edit of `f₀`'s. -/
inductive Edit : Fish → Fish → Prop
  | shark {c₀ c : FishCore} {w₀ w : Option Int32} : c₀.Edit c →
      (c.tracker.isAssigned "weight" = false → w = w₀) → Edit (.shark c₀ w₀) (.shark c w)
  | salmon {c₀ c : FishCore} {p : Option Fish} : c₀.Edit c →
      c.tracker.isAssigned "partner" = false → Edit (.salmon c₀ p) (.salmon c p)
  | partner {c₀ c : FishCore} {q₀ q : Fish} : c₀.Edit c →
      c.tracker.isAssigned "partner" = true → Edit q₀ q → Edit (.salmon c₀ (some q₀)) (.salmon c (some q))
  | other {k : String} {c₀ c : FishCore} : c₀.Edit c → Edit (.other k c₀) (.other k c)

theorem Fresh.partner {c : FishCore} {q : Fish} (h : (Fish.salmon c (some q)).Fresh) : q.Fresh :=
  (Fish.Fresh.eq_2 c q ▸ h).2

theorem Fresh.core {f : Fish} (h : f.Fresh) : f.core.tracker.Fresh := h.tracker

theorem Edit.refl {f : Fish} (h : f.Fresh) : Edit f f := by
  have hc : f.core.Edit f.core := FishCore.Edit.refl h.core
  cases f with
  | shark c w => exact .shark hc fun _ => rfl
  | salmon c p => exact .salmon hc (h.core.isAssigned _)
  | other k c => exact .other hc

theorem Edit.core {f₀ f : Fish} (h : Edit f₀ f) : f₀.core.Edit f.core := by
  cases h with
  | shark hc _ | salmon hc _ | partner hc _ _ | other hc => exact hc

/-- New common fields that keep the marks of `weight` and `partner` keep an edit. -/
theorem Edit.withCore {f₀ f : Fish} (h : Edit f₀ f) {c : FishCore} (hc : f₀.core.Edit c)
    (hw : c.tracker.isAssigned "weight" = f.tracker.isAssigned "weight")
    (hp : c.tracker.isAssigned "partner" = f.tracker.isAssigned "partner") :
    Edit f₀ (f.withCore c) := by
  cases h with
  | shark _ hw₀ => exact .shark hc fun hx => hw₀ (hw ▸ hx)
  | salmon _ hp₀ => exact .salmon hc (hp.trans hp₀)
  | partner _ hp₀ hq => exact .partner hc (hp.trans hp₀) hq
  | other _ => exact .other hc

theorem Edit.setCommon {f₀ f f' : Fish} {field : String} {v : Json} (h : Edit f₀ f)
    (hs : SetsCommon v f field f') : Edit f₀ f' := by
  have hc := h.core
  cases hs with
  | name f j _ =>
    refine h.withCore ⟨hc.baseMode, hc.mode, fun hx => by simp at hx,
      fun hx => hc.age (Tracker.isAssigned_of_mark hx), fun hx => hc.color (Tracker.isAssigned_of_mark hx)⟩
      (Tracker.isAssigned_mark_of_ne _ (by decide)) (Tracker.isAssigned_mark_of_ne _ (by decide))
  | age f j _ =>
    refine h.withCore ⟨hc.baseMode, hc.mode, fun hx => hc.name (Tracker.isAssigned_of_mark hx),
      fun hx => by simp at hx, fun hx => hc.color (Tracker.isAssigned_of_mark hx)⟩
      (Tracker.isAssigned_mark_of_ne _ (by decide)) (Tracker.isAssigned_mark_of_ne _ (by decide))
  | color f j _ =>
    refine h.withCore ⟨hc.baseMode, hc.mode, fun hx => hc.name (Tracker.isAssigned_of_mark hx),
      fun hx => hc.age (Tracker.isAssigned_of_mark hx), fun hx => by simp at hx⟩
      (Tracker.isAssigned_mark_of_ne _ (by decide)) (Tracker.isAssigned_mark_of_ne _ (by decide))
  | weight c w j _ =>
    cases h with
    | shark hc₀ _ => exact .shark (hc₀.mark "weight") fun hx => by simp [FishCore.mark] at hx

/-- **A sparse assignment keeps an edit of a fish**, through any chain of partners. -/
theorem Edit.set {f₀ f f' : Fish} {field : String} {v : Json} (hs : Sets v f field f')
    (hp : FishPath field) (h : Edit f₀ f) (h₀ : f₀.Fresh) : Edit f₀ f' := by
  induction hs generalizing f₀ with
  | common hc => exact h.setCommon hc
  | partner c p np _ => exact absurd rfl hp.ne_partner
  | throughPartner c q q' field rest hdrop _ _ ih =>
    have hrest := hp.of_dropPrefix? hdrop
    cases h with
    | salmon hc _ =>
      -- the partner is assigned through for the first time: it starts as the base's own
      exact .partner (hc.mark "partner") (by simp [FishCore.mark])
        (ih hrest (Edit.refl h₀.partner) h₀.partner)
    | partner hc _ hq => exact .partner (hc.mark "partner") (by simp [FishCore.mark]) (ih hrest hq h₀.partner)

theorem Edit.modes {f₀ f : Fish} (h : Edit f₀ f) :
    f₀.tracker.mergePatch = false ∧ f.tracker.mergePatch = false :=
  ⟨h.core.baseMode, h.core.mode⟩

/-- A fish is written as an object, so it merges into a target as a merge patch. -/
theorem mergeAt_write (t : Option Json) (f : Fish) (b : Bool) :
    Json.mergeAt t (some (f.write b).normalize) =
      some (Json.mergePatch (t.getD (.object [])) (f.write b).normalize) := by
  rw [write_eq]
  exact Json.mergeAt_normalize t _

theorem Edit.mergePatch {f₀ f : Fish} (h : Edit f₀ f) :
    Json.mergePatch (f₀.write false).normalize (f.write true).normalize = (f.write false).normalize := by
  induction h with
  | @shark c₀ c w₀ w hc hw =>
    rw [write_eq, write_eq, write_eq]
    refine mergePatch_writeAll _ (by simp) (by simp [members, FishCore.fields, Member.scalar])
      (List.rel_append hc.merges (.cons ?_ .nil))
    exact Member.merges_scalar (Json.plain_optInt32 _) fun hx => by rw [hw hx]
  | @salmon c₀ c p hc hp =>
    rw [write_eq, write_eq, write_eq]
    refine mergePatch_writeAll _ (by simp) (by simp [members, FishCore.fields, Member.scalar])
      (List.rel_append hc.merges (.cons ⟨rfl, fun hx => ?_, fun _ => rfl⟩ .nil))
    -- the partner is not assigned, so the patch does not write it
    simp [hp] at hx
  | @partner c₀ c q₀ q hc hp hq ih =>
    rw [write_eq, write_eq, write_eq]
    refine mergePatch_writeAll _ (by simp) (by simp [members, FishCore.fields, Member.scalar])
      (List.rel_append hc.merges (.cons ⟨rfl, fun _ => ?_, fun hx => ?_⟩ .nil))
    · obtain ⟨hq₀, hq⟩ := hq.modes
      simp only [Option.map_some, Option.getD_some, Bool.true_or, Bool.false_or, hq₀, hq,
        mergeAt_write, ih]
    · simp [hp] at hx
  | @other k c₀ c hc =>
    rw [write_eq, write_eq, write_eq]
    exact mergePatch_writeAll _ (by simp) (by simp [members, FishCore.fields, Member.scalar]) hc.merges

end Fish

/-! ## Edits of resources -/

namespace Resource

/-- The entry of the map under one key, in the base and now: absent from both, created by an
assignment of one of its members, or an edit of the base's entry. -/
inductive EntryEdit : Option (Option InnerModel) → Option (Option InnerModel) → Prop
  | absent : EntryEdit none none
  | created {m : InnerModel} : InnerModel.Edit {} m → EntryEdit none (some (some m))
  | edited {m₀ m : InnerModel} : InnerModel.Edit m₀ m → EntryEdit (some (some m₀)) (some (some m))

/-- The map of an edit, by whether it has been assigned: as in the base, or with every key's
entry an `EntryEdit` of the base's. -/
def MapEdit : Bool → Option (Keyed (Option InnerModel)) → Option (Keyed (Option InnerModel)) → Prop
  | false, es₀, es => es = es₀
  | true, es₀, es => ∃ xs, es = some xs ∧
      ∀ k, EntryEdit (Keyed.getLast? (es₀.getD []) k) (Keyed.getLast? xs k)

/-- The inner model of an edit: as in the base, or an edit of the base's (of an empty one when
the base has none). -/
def InnerEdit : Bool → Option InnerModel → Option InnerModel → Prop
  | false, m₀, m => m = m₀
  | true, m₀, m => ∃ e, m = some e ∧ InnerModel.Edit (m₀.getD {}) e

/-- The fish of an edit: as in the base, or an edit of the base's. -/
def FishEdit : Bool → Option Fish → Option Fish → Prop
  | false, f₀, f => f = f₀
  | true, f₀, f => ∃ g₀ g, f₀ = some g₀ ∧ f = some g ∧ Fish.Edit g₀ g

/-- The value fields of an edit not assigned since the base are as in the base. -/
structure ValuesEdit (base r : Resource) : Prop where
  description : r.tracker.isAssigned "description" = false → r.description = base.description
  longValue : r.tracker.isAssigned "longValue" = false → r.longValue = base.longValue
  intValue : r.tracker.isAssigned "intValue" = false → r.intValue = base.intValue
  enumValue : r.tracker.isAssigned "enumValue" = false → r.enumValue = base.enumValue
  array : r.tracker.isAssigned "array" = false → r.array = base.array

/-- `r` is the resource `base` after assignments by sparse paths. -/
structure Edit (base r : Resource) : Prop where
  values : ValuesEdit base r
  map : MapEdit (r.tracker.isAssigned "map") base.map r.map
  inner : InnerEdit (r.tracker.isAssigned "innerModelProperty") base.innerModelProperty r.innerModelProperty
  fish : FishEdit (r.tracker.isAssigned "fish") base.fish r.fish

/-- The base holds no `null` entry in its map. -/
def NoNullEntries (r : Resource) : Prop := ∀ k, Keyed.getLast? (r.map.getD []) k ≠ some none

theorem ValuesEdit.mark {base r : Resource} (h : ValuesEdit base r) (f : String) :
    ValuesEdit base (r.mark f) :=
  ⟨fun hx => h.description (Tracker.isAssigned_of_mark hx), fun hx => h.longValue (Tracker.isAssigned_of_mark hx),
    fun hx => h.intValue (Tracker.isAssigned_of_mark hx), fun hx => h.enumValue (Tracker.isAssigned_of_mark hx),
    fun hx => h.array (Tracker.isAssigned_of_mark hx)⟩

/-! ### Marking another field -/

theorem Edit.map_mark {base r : Resource} (h : Edit base r) {f : String} (hf : f ≠ "map") :
    MapEdit ((r.tracker.mark f).isAssigned "map") base.map r.map := by
  rw [Tracker.isAssigned_mark_of_ne _ (Ne.symm hf)]
  exact h.map

theorem Edit.inner_mark {base r : Resource} (h : Edit base r) {f : String} (hf : f ≠ "innerModelProperty") :
    InnerEdit ((r.tracker.mark f).isAssigned "innerModelProperty") base.innerModelProperty r.innerModelProperty := by
  rw [Tracker.isAssigned_mark_of_ne _ (Ne.symm hf)]
  exact h.inner

theorem Edit.fish_mark {base r : Resource} (h : Edit base r) {f : String} (hf : f ≠ "fish") :
    FishEdit ((r.tracker.mark f).isAssigned "fish") base.fish r.fish := by
  rw [Tracker.isAssigned_mark_of_ne _ (Ne.symm hf)]
  exact h.fish

/-! ### The nested models an assignment goes through -/

/-- The inner model an assignment goes through is an edit of the base's, or of an empty one. -/
theorem InnerEdit.getD {b : Bool} {m₀ m : Option InnerModel} (h : InnerEdit b m₀ m)
    (h₀ : ∀ x, m₀ = some x → x.Fresh) : InnerModel.Edit (m₀.getD {}) (m.getD {}) := by
  cases b with
  | false =>
    obtain rfl : m = m₀ := h
    cases m with
    | none => exact InnerModel.Edit.empty
    | some x => exact InnerModel.Edit.refl (Tracker.Fresh.mergePatch (h₀ x rfl))
  | true =>
    obtain ⟨e, rfl, he⟩ := h
    exact he

/-- The fish an assignment goes through is an edit of the base's. -/
theorem FishEdit.some {b : Bool} {f₀ f : Option Fish} (h : FishEdit b f₀ f)
    (h₀ : ∀ g, f₀ = some g → g.Fresh) {g : Fish} (hg : f = some g) :
    ∃ g₀, f₀ = some g₀ ∧ Fish.Edit g₀ g := by
  cases b with
  | false =>
    obtain rfl : f = f₀ := h
    exact ⟨g, hg, Fish.Edit.refl (h₀ g hg)⟩
  | true =>
    obtain ⟨g₀, g', hg₀, rfl, he⟩ := h
    cases hg
    exact ⟨g₀, hg₀, he⟩

/-- A map with fresh entries and no `null` one is an edit of itself, key by key. -/
theorem EntryEdit.refl {xs : Keyed (Option InnerModel)} (hfresh : ∀ e ∈ xs, ∀ m, e.2 = some m → m.Fresh)
    (hnull : ∀ k, Keyed.getLast? xs k ≠ some none) (k : String) :
    EntryEdit (Keyed.getLast? xs k) (Keyed.getLast? xs k) := by
  cases hk : Keyed.getLast? xs k with
  | none => exact .absent
  | some e =>
    cases e with
    | none => exact absurd hk (hnull k)
    | some m =>
      have hmem : (k, some m) ∈ xs := List.mem_reverse.mp (Keyed.get?_eq_some_mem hk)
      exact .edited (InnerModel.Edit.refl (Tracker.Fresh.mergePatch (hfresh _ hmem m rfl)))

theorem MapEdit.entries {b : Bool} {es₀ es : Option (Keyed (Option InnerModel))} (h : MapEdit b es₀ es)
    (hfresh : ∀ xs, es₀ = some xs → ∀ e ∈ xs, ∀ m, e.2 = some m → m.Fresh)
    (hnull : ∀ k, Keyed.getLast? (es₀.getD []) k ≠ some none) (k : String) :
    EntryEdit (Keyed.getLast? (es₀.getD []) k) (Keyed.getLast? (es.getD []) k) := by
  cases b with
  | false =>
    obtain rfl : es = es₀ := h
    cases es with
    | none => exact .absent
    | some xs => exact EntryEdit.refl (hfresh xs rfl) hnull k
  | true =>
    obtain ⟨xs, rfl, hx⟩ := h
    exact hx k

/-- Assigning a member of the entry `key` keeps every key's entry an edit. -/
theorem EntryEdit.insert {es₀ es : Keyed (Option InnerModel)}
    (h : ∀ k, EntryEdit (Keyed.getLast? es₀ k) (Keyed.getLast? es k)) {key member : String} {v : Json}
    {e : InnerModel} (hs : InnerModel.Sets v (((Keyed.get? es key).join).getD {}) member e) (k : String) :
    EntryEdit (Keyed.getLast? es₀ k) (Keyed.getLast? (Keyed.insert es key (some e)) k) := by
  by_cases hk : key = k
  · subst hk
    rcases Keyed.getLast?_insert es key (some e) with ⟨hlast, hget⟩ | hsame
    · -- the entry read and replaced is the last one of its key
      rw [hlast]
      rw [hget] at hs
      have hkey := h key
      generalize Keyed.getLast? es₀ key = x₀ at hkey
      generalize Keyed.getLast? es key = x at hkey hs
      cases hkey with
      | absent => exact .created (InnerModel.Edit.empty.set hs)
      | created hm => exact .created (hm.set hs)
      | edited hm => exact .edited (hm.set hs)
    · rw [hsame]
      exact h key
  · rw [Keyed.getLast?_insert_of_ne _ _ hk]
    exact h k

/-! ### One assignment -/

/-- **A sparse assignment keeps an edit of the base.** -/
theorem Edit.set {base r r' : Resource} {field : String} {v : Json} (hbase : base.Fresh)
    (hnull : base.NoNullEntries) (h : Edit base r) (hs : Sets v r field r') (hp : SparsePath field) :
    Edit base r' := by
  cases hs with
  | description j _ =>
    exact ⟨{ h.values.mark "description" with description := fun hx => by simp [mark] at hx },
      h.map_mark (by decide), h.inner_mark (by decide), h.fish_mark (by decide)⟩
  | longValue j _ =>
    exact ⟨{ h.values.mark "longValue" with longValue := fun hx => by simp [mark] at hx },
      h.map_mark (by decide), h.inner_mark (by decide), h.fish_mark (by decide)⟩
  | intValue j _ =>
    exact ⟨{ h.values.mark "intValue" with intValue := fun hx => by simp [mark] at hx },
      h.map_mark (by decide), h.inner_mark (by decide), h.fish_mark (by decide)⟩
  | enumValue j _ =>
    exact ⟨{ h.values.mark "enumValue" with enumValue := fun hx => by simp [mark] at hx },
      h.map_mark (by decide), h.inner_mark (by decide), h.fish_mark (by decide)⟩
  | array j _ =>
    exact ⟨{ h.values.mark "array" with array := fun hx => by simp [mark] at hx },
      h.map_mark (by decide), h.inner_mark (by decide), h.fish_mark (by decide)⟩
  -- a sparse path never assigns a nested model whole
  | mapObject es ms _ _ => exact (hp.ne_nested (by simp)).elim
  | mapValue j _ _ => exact (hp.ne_nested (by simp)).elim
  | innerModel m _ => exact (hp.ne_nested (by simp)).elim
  | fish f _ => exact (hp.ne_nested (by simp)).elim
  | mapEntry field rest e hsplit hrest _ => exact absurd hrest (hp.map_rest hsplit)
  | innerMember field rest m _ hset =>
    have hm := (h.inner.getD hbase.inner).set (InnerModel.set_ok hset)
    refine ⟨{ h.values.mark _ with }, h.map_mark (by decide), ?_, h.fish_mark (by decide)⟩
    show InnerEdit ((r.tracker.mark _).isAssigned _) _ _
    rw [Tracker.isAssigned_mark_self]
    exact ⟨m, rfl, hm⟩
  | fishMember field rest f f' hsplit hf hset =>
    obtain ⟨g₀, hg₀, hedit⟩ := h.fish.some hbase.fish hf
    have hf' := hedit.set (Fish.set_ok hset).2 (hp.fish_rest hsplit) (hbase.fish g₀ hg₀)
    refine ⟨{ h.values.mark _ with }, h.map_mark (by decide), h.inner_mark (by decide), ?_⟩
    show FishEdit ((r.tracker.mark _).isAssigned _) _ _
    rw [Tracker.isAssigned_mark_self]
    exact ⟨g₀, f', hg₀, rfl, hf'⟩
  | mapMember field rest key member e _ _ hset =>
    have hentries := EntryEdit.insert (h.map.entries hbase.map hnull) (InnerModel.set_ok hset)
    refine ⟨{ h.values.mark _ with }, ?_, h.inner_mark (by decide), h.fish_mark (by decide)⟩
    show MapEdit ((r.tracker.mark _).isAssigned _) _ _
    rw [Tracker.isAssigned_mark_self]
    exact ⟨_, rfl, hentries⟩

/-! ### Merging an edit -/

/-- The map of an edit merges entry by entry. -/
theorem writeMap_mergePatch {ys xs : Keyed (Option InnerModel)}
    (h : ∀ k, EntryEdit (Keyed.getLast? ys k) (Keyed.getLast? xs k)) :
    Json.mergePatch (writeMap ys false).normalize (writeMap xs true).normalize =
      (writeMap xs false).normalize := by
  rw [writeMap_eq, writeMap_eq, writeMap_eq]
  apply Json.mergePatch_normalize (Json.sorted_normalize_object _)
  intro k
  have hk := h k
  rw [Json.get?_normalize_object, Keyed.getLast?_map _ _ (entryJson false) (fun _ => rfl),
    Keyed.getLast?_map _ _ (entryJson true) (fun _ => rfl), Keyed.getLast?_map _ _ (entryJson false) (fun _ => rfl)]
  generalize Keyed.getLast? ys k = y at hk
  generalize Keyed.getLast? xs k = x at hk
  cases hk with
  | absent => rfl
  | created hm =>
    simp only [Option.map_some, Option.map_none, entryJson, if_true, InnerModel.writeOwn_of_mode hm.mode]
    exact hm.mergeAt InnerModel.empty_toJson.symm
  | edited hm =>
    simp only [Option.map_some, entryJson, if_true, InnerModel.writeOwn_of_mode hm.mode,
      InnerModel.writeOwn_of_mode hm.baseMode]
    exact hm.mergeAt rfl

theorem mergeAt_writeMap (t : Option Json) (xs : Keyed (Option InnerModel)) (b : Bool) :
    Json.mergeAt t (some (writeMap xs b).normalize) =
      some (Json.mergePatch (t.getD (.object [])) (writeMap xs b).normalize) := by
  rw [writeMap_eq]
  exact Json.mergeAt_normalize t _

theorem MapEdit.merges {t : Tracker} {es₀ es : Option (Keyed (Option InnerModel))}
    (h : MapEdit (t.isAssigned "map") es₀ es) :
    Member.Merges t ⟨"map", "map", fun b => es₀.map (writeMap · b)⟩ ⟨"map", "map", fun b => es.map (writeMap · b)⟩ where
  wire := rfl
  assigned ha := by
    rw [ha] at h
    obtain ⟨xs, rfl, hx⟩ := h
    simp only [Option.map_some, Option.getD_some, mergeAt_writeMap]
    congr 1
    cases es₀ with
    | none => exact writeMap_mergePatch hx
    | some ys => exact writeMap_mergePatch hx
  kept ha := by
    rw [ha] at h
    rw [show es = es₀ from h]

theorem InnerEdit.merges {t : Tracker} {m₀ m : Option InnerModel}
    (h : InnerEdit (t.isAssigned "innerModelProperty") m₀ m) :
    Member.Merges t ⟨"innerModelProperty", "wireNameForInnerModelProperty",
        fun b => m₀.map fun x => x.write (b || x.tracker.mergePatch)⟩
      ⟨"innerModelProperty", "wireNameForInnerModelProperty",
        fun b => m.map fun x => x.write (b || x.tracker.mergePatch)⟩ where
  wire := rfl
  assigned ha := by
    rw [ha] at h
    obtain ⟨e, rfl, he⟩ := h
    simp only [Option.map_some, Option.getD_some, Bool.true_or, Bool.false_or, he.mode]
    apply he.mergeAt
    cases m₀ with
    | none => exact InnerModel.empty_toJson.symm
    | some x => simp only [Option.map_some, Option.getD_some, show x.tracker.mergePatch = false from he.baseMode]
  kept ha := by
    rw [ha] at h
    rw [show m = m₀ from h]

theorem FishEdit.merges {t : Tracker} {f₀ f : Option Fish} (h : FishEdit (t.isAssigned "fish") f₀ f) :
    Member.Merges t ⟨"fish", "fish", fun b => f₀.map fun x => x.write (b || x.tracker.mergePatch)⟩
      ⟨"fish", "fish", fun b => f.map fun x => x.write (b || x.tracker.mergePatch)⟩ where
  wire := rfl
  assigned ha := by
    rw [ha] at h
    obtain ⟨g₀, g, rfl, rfl, he⟩ := h
    obtain ⟨hg₀, hg⟩ := he.modes
    simp only [Option.map_some, Option.getD_some, Bool.true_or, Bool.false_or, hg₀, hg,
      Fish.mergeAt_write, he.mergePatch]
  kept ha := by
    rw [ha] at h
    rw [show f = f₀ from h]

/-- **An edit's merge patch merged into the base's full form is its full form.** -/
theorem Edit.mergePatch {base r : Resource} (h : Edit base r) :
    Json.mergePatch (base.write false).normalize (r.write true).normalize = (r.write false).normalize := by
  have hv := h.values
  have hmembers : List.Forall₂ (Member.Merges r.tracker) base.members r.members :=
    .cons (Member.merges_scalar (Json.plain_optString _) fun hx => by rw [hv.description hx])
    (.cons (MapEdit.merges h.map)
    (.cons (Member.merges_scalar (Json.plain_optInt64 _) fun hx => by rw [hv.longValue hx])
    (.cons (Member.merges_scalar (Json.plain_optInt32 _) fun hx => by rw [hv.intValue hx])
    (.cons (Member.merges_scalar (Json.plain_map (fun e : EnumValue => Json.string e.asString)
        (fun _ => trivial) _) fun hx => by rw [hv.enumValue hx])
    (.cons (InnerEdit.merges h.inner)
    (.cons (Member.merges_scalar (Json.plain_map (fun xs : List InnerModel => Json.array (xs.map InnerModel.writeOwn))
        (fun _ => trivial) _) fun hx => by rw [hv.array hx])
    (.cons (FishEdit.merges h.fish) .nil)))))))
  have key := @mergePatch_writeAll base.tracker r.tracker base.members r.members [] (by simp)
    (by simp [members, Member.scalar]) hmembers
  rw [write_eq, write_eq, write_eq]
  simpa only [List.nil_append] using key

/-! ### Runs of assignments -/

/-- A resource with nothing assigned at any depth is an edit of itself. -/
theorem Edit.refl {r : Resource} (h : r.Fresh) : Edit r r where
  values := ⟨fun _ => rfl, fun _ => rfl, fun _ => rfl, fun _ => rfl, fun _ => rfl⟩
  map := by
    rw [Tracker.Fresh.isAssigned h.tracker]
    exact rfl
  inner := by
    rw [Tracker.Fresh.isAssigned h.tracker]
    exact rfl
  fish := by
    rw [Tracker.Fresh.isAssigned h.tracker]
    exact rfl

/-- **A run of sparse assignments keeps an edit of the base**; the ones that fail leave the
resource as it was. -/
theorem Edit.runCalls {base : Resource} (hbase : base.Fresh) (hnull : base.NoNullEntries)
    (steps : List (String × Json)) (hsparse : ∀ s ∈ steps, SparsePath s.1) (r : Resource)
    (h : Edit base r) :
    ∃ r', (AnyModel.resource r).runCalls .resource (steps.map fun s => .set s.1 s.2) = .resource r' ∧
      Edit base r' := by
  induction steps generalizing r with
  | nil => exact ⟨r, rfl, h⟩
  | cons s steps ih =>
    obtain ⟨p, v⟩ := s
    have hp : SparsePath p := hsparse _ List.mem_cons_self
    have hrest : ∀ s ∈ steps, SparsePath s.1 := fun s hs => hsparse s (List.mem_cons_of_mem _ hs)
    cases hset : r.set p v with
    | error e =>
      have hrun : AnyModel.perform .resource (.resource r) (.set p v) = none := by
        simp [AnyModel.perform, AnyModel.set, hset, Except.toOption]
      simpa only [List.map_cons, AnyModel.runCalls_cons, hrun, Option.getD_none] using ih hrest r h
    | ok r' =>
      have hrun : AnyModel.perform .resource (.resource r) (.set p v) = some (.resource r') := by
        simp [AnyModel.perform, AnyModel.set, hset, Except.toOption]
      simpa only [List.map_cons, AnyModel.runCalls_cons, hrun, Option.getD_some] using
        ih hrest r' (h.set hbase hnull (set_ok hset) hp)

/-- The map member of a resource's full form. -/
theorem toJson_map (r : Resource) :
    (AnyModel.resource r).toJson.get? "map" = (r.map.map (writeMap · false)).map Json.normalize := by
  have hmem : (⟨"map", "map", fun b => r.map.map (writeMap · b)⟩ : Member) ∈ r.members := by
    simp [members]
  show (r.write false).normalize.get? "map" = _
  rw [write_eq, Json.get?_normalize_object]
  exact congrArg (Option.map Json.normalize)
    (Tracker.getLast?_writeAll_full r.tracker (by simp [members, Member.scalar]) hmem)

/-- A full form without `null` map entries comes from a map without missing entries. -/
theorem noNullEntries_of_toJson {r : Resource}
    (h : ∀ es, (AnyModel.resource r).toJson.get? "map" = some (.object es) → ∀ p ∈ es, p.2 ≠ .null) :
    r.NoNullEntries := by
  intro k hk
  cases hm : r.map with
  | none =>
    rw [hm] at hk
    cases hk
  | some xs =>
    rw [hm, Option.getD_some] at hk
    obtain ⟨es, hes⟩ : ∃ es, (writeMap xs false).normalize = .object es :=
      ⟨_, by rw [writeMap_eq, Json.normalize_object]⟩
    have hget : (AnyModel.resource r).toJson.get? "map" = some (.object es) := by
      rw [toJson_map, hm, Option.map_some, Option.map_some, hes]
    -- the missing entry is written as `null`
    have hnull : Keyed.get? es k = some .null := by
      have hv := Json.get?_normalize_object (xs.map fun p => (p.1, entryJson false p.2)) k
      rw [← writeMap_eq, hes, Keyed.getLast?_map _ _ (entryJson false) (fun _ => rfl), hk] at hv
      exact hv
    exact h es hget (k, .null) (Keyed.get?_eq_some_mem hnull) rfl

end Resource

/-- **Sparse merge patches agree with the full form.** Start from a resource a client can start
from (read from text, or new) whose full form has no `null` map entry, and make any sequence of
assignments by sparse paths, failing ones included. The merge patch of the result, merged into
the full form read, is the full form of the result. -/
theorem merge_patch_agrees {r₀ : Resource} (hstart : AnyModel.Start .resource (.resource r₀))
    (hnull : ∀ es, (AnyModel.resource r₀).toJson.get? "map" = some (.object es) →
      ∀ p ∈ es, p.2 ≠ .null)
    (steps : List (String × Json)) (hsparse : ∀ s ∈ steps, SparsePath s.1) :
    Json.mergePatch (AnyModel.resource r₀).toJson
        ((AnyModel.resource r₀).runCalls .resource (steps.map fun s => .set s.1 s.2)).toMergePatch =
      ((AnyModel.resource r₀).runCalls .resource (steps.map fun s => .set s.1 s.2)).toJson := by
  have hfresh : r₀.Fresh := hstart.fresh
  obtain ⟨r, hrun, hedit⟩ := Resource.Edit.runCalls hfresh (Resource.noNullEntries_of_toJson hnull)
    steps hsparse r₀ (Resource.Edit.refl hfresh)
  rw [hrun]
  exact hedit.mergePatch

/-- A new resource given a description and an inner model's name by sparse paths. -/
theorem merge_patch_agrees_new :
    AnyModel.Start .resource (.resource {}) ∧
    (∀ es, (AnyModel.resource {}).toJson.get? "map" = some (.object es) → ∀ p ∈ es, p.2 ≠ .null) ∧
    SparsePath "description" ∧ SparsePath "innerModelProperty.name" ∧
    Json.mergePatch (AnyModel.resource {}).toJson
        ((AnyModel.resource {}).runCalls .resource
          ([("description", .string "d"), ("innerModelProperty.name", .string "n")].map
            fun s => .set s.1 s.2)).toMergePatch =
      ((AnyModel.resource {}).runCalls .resource
          ([("description", .string "d"), ("innerModelProperty.name", .string "n")].map
            fun s => .set s.1 s.2)).toJson := by
  have hnull : ∀ es, (AnyModel.resource {}).toJson.get? "map" = some (.object es) →
      ∀ p ∈ es, p.2 ≠ .null := by
    intro es hes
    cases hes
  have hdesc : SparsePath "description" := .value (by simp [valueFields])
  have hname : SparsePath "innerModelProperty.name" := by
    rw [show "innerModelProperty.name" = "innerModelProperty." ++ "name" from rfl]
    exact .inner (by simp [scalarMembers])
  refine ⟨.new rfl, hnull, hdesc, hname, merge_patch_agrees (.new rfl) hnull _ ?_⟩
  simp only [List.mem_cons, List.not_mem_nil, or_false]
  rintro s (rfl | rfl)
  · exact hdesc
  · exact hname

end MergePatch
