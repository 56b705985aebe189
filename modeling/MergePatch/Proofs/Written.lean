import Mathlib
import MergePatch.Model.Resource
import MergePatch.Proofs.MergeAlgebra
/-!
# Written members

Every model writes itself as an object whose members come from its fields one at a time:
`Tracker.member` puts a field in when it is set (the full form) or when it has been assigned
(the merge patch). A `Member` is a field as the writer sees it, and `Tracker.writeAll` writes a
list of them; each model's `write` is `writeAll` over its fields, after the `kind` of a fish
(`InnerModel.write_eq`, `Fish.write_eq`, `Resource.write_eq`).

The main result, `mergePatch_writeAll`, merges a merge patch written this way into a full form
written this way field by field: when each field assigned since the base merges into the base's
value to give the new one (`Member.Merges`), and each other field is written as in the base,
the patch merged into the base's full form is the new full form.
-/

namespace MergePatch

/-- A field as a writer sees it: its logical name, its name on the wire, and its JSON in each
mode (`none` when it is not set). -/
structure Member where
  logical : String
  wire : String
  value : Bool → Option Json

/-- A field whose JSON is the same in both modes. -/
def Member.scalar (logical wire : String) (v : Option Json) : Member := ⟨logical, wire, fun _ => v⟩

namespace Tracker

/-- The members written in mode `merge` for each field in turn. -/
def writeAll (t : Tracker) (merge : Bool) (ms : List Member) : List (String × Json) :=
  ms.flatMap fun f => t.member merge f.logical f.wire (f.value merge)

@[simp] theorem writeAll_nil (t : Tracker) (merge : Bool) : t.writeAll merge [] = [] := rfl

theorem writeAll_cons (t : Tracker) (merge : Bool) (f : Member) (ms : List Member) :
    t.writeAll merge (f :: ms) = t.member merge f.logical f.wire (f.value merge) ++ t.writeAll merge ms :=
  List.flatMap_cons

theorem writeAll_append (t : Tracker) (merge : Bool) (ms ns : List Member) :
    t.writeAll merge (ms ++ ns) = t.writeAll merge ms ++ t.writeAll merge ns :=
  List.flatMap_append

theorem getLast?_member_of_ne (t : Tracker) (merge : Bool) (l : String) {w k : String}
    (v : Option Json) (h : w ≠ k) : Keyed.getLast? (t.member merge l w v) k = none := by
  unfold member
  split
  · split <;> simp [Keyed.getLast?, Keyed.get?, h]
  · split <;> simp [Keyed.getLast?, Keyed.get?, h]

/-- The full form holds a field exactly when it is set. -/
theorem getLast?_member_full (t : Tracker) (l w : String) (v : Option Json) :
    Keyed.getLast? (t.member false l w v) w = v := by
  cases v <;> simp [member, Keyed.getLast?, Keyed.get?]

/-- The merge patch holds a field exactly when it has been assigned, `null` when it is unset. -/
theorem getLast?_member_patch (t : Tracker) (l w : String) (v : Option Json) :
    Keyed.getLast? (t.member true l w v) w =
      if t.isAssigned l = true then some (v.getD .null) else none := by
  by_cases hl : t.isAssigned l = true <;> simp [member, Keyed.getLast?, Keyed.get?, hl]

theorem getLast?_writeAll_of_not_mem (t : Tracker) (merge : Bool) {ms : List Member} {k : String}
    (hk : k ∉ ms.map Member.wire) : Keyed.getLast? (t.writeAll merge ms) k = none := by
  induction ms with
  | nil => rfl
  | cons f ms ih =>
    simp only [List.map_cons, List.mem_cons, not_or] at hk
    rw [writeAll_cons, Keyed.getLast?_append, ih hk.2,
      getLast?_member_of_ne _ _ _ _ (Ne.symm hk.1)]
    rfl

/-- Under a field's wire name the members written are the field's own, when the wire names are
distinct. -/
theorem getLast?_writeAll (t : Tracker) (merge : Bool) {ms : List Member}
    (hnd : (ms.map Member.wire).Nodup) {f : Member} (hf : f ∈ ms) :
    Keyed.getLast? (t.writeAll merge ms) f.wire =
      Keyed.getLast? (t.member merge f.logical f.wire (f.value merge)) f.wire := by
  induction ms with
  | nil => cases hf
  | cons g ms ih =>
    rw [List.map_cons, List.nodup_cons] at hnd
    rw [writeAll_cons, Keyed.getLast?_append]
    rcases List.mem_cons.mp hf with rfl | hf
    · rw [getLast?_writeAll_of_not_mem _ _ hnd.1, Option.none_or]
    · have hne : g.wire ≠ f.wire := fun h => hnd.1 (h ▸ List.mem_map_of_mem hf)
      rw [getLast?_member_of_ne _ _ _ _ hne, Option.or_none, ih hnd.2 hf]

/-- The full form holds each field as it is set, when the wire names are distinct. -/
theorem getLast?_writeAll_full (t : Tracker) {ms : List Member} (hnd : (ms.map Member.wire).Nodup)
    {f : Member} (hf : f ∈ ms) : Keyed.getLast? (t.writeAll false ms) f.wire = f.value false := by
  rw [getLast?_writeAll t false hnd hf, getLast?_member_full]

/-- The merge patch holds each assigned field, `null` when it is unset, and no other, when the
wire names are distinct. -/
theorem getLast?_writeAll_patch (t : Tracker) {ms : List Member} (hnd : (ms.map Member.wire).Nodup)
    {f : Member} (hf : f ∈ ms) :
    Keyed.getLast? (t.writeAll true ms) f.wire =
      if t.isAssigned f.logical = true then some ((f.value true).getD .null) else none := by
  rw [getLast?_writeAll t true hnd hf, getLast?_member_patch]

end Tracker

/-! ## Merging field by field -/

/-- A value that a merge patch puts in place whole: neither `null`, which deletes, nor an object,
which is merged. -/
def Json.Plain : Json → Prop
  | .null => False
  | .object _ => False
  | _ => True

theorem Json.mergeAt_plain {p : Json} (hp : p.Plain) (t : Option Json) :
    Json.mergeAt t (some p) = some p := by
  cases p with
  | null => exact hp.elim
  | object fs => exact hp.elim
  | bool b => rfl
  | number n => rfl
  | string s => rfl
  | array xs => rfl

theorem Json.Plain.normalize {p : Json} (hp : p.Plain) : p.normalize.Plain := by
  cases p with
  | null => exact hp.elim
  | object fs => exact hp.elim
  | bool b => trivial
  | number n => trivial
  | string s => trivial
  | array xs => trivial

theorem Json.plain_map {α : Type} (g : α → Json) (hg : ∀ a, (g a).Plain) (v : Option α) :
    ∀ j ∈ v.map g, j.Plain := by
  intro j hj
  obtain ⟨a, -, rfl⟩ := Option.mem_map.mp hj
  exact hg a

theorem Json.plain_optString (v : Option String) : ∀ j ∈ optString v, j.Plain :=
  Json.plain_map Json.string (fun _ => trivial) v

theorem Json.plain_optInt32 (v : Option Int32) : ∀ j ∈ optInt32 v, j.Plain :=
  Json.plain_map (fun i : Int32 => Json.int i.toInt) (fun _ => trivial) v

theorem Json.plain_optInt64 (v : Option Int64) : ∀ j ∈ optInt64 v, j.Plain :=
  Json.plain_map (fun i : Int64 => Json.int i.toInt) (fun _ => trivial) v

/-- The field `f` of a model whose tracker is `t`, against the same field `f₀` of the base: an
assigned field's merge-patch member merged into the base's full member gives its full member,
and a field not assigned is written in full as in the base. -/
structure Member.Merges (t : Tracker) (f₀ f : Member) : Prop where
  wire : f₀.wire = f.wire
  assigned : t.isAssigned f.logical = true →
    Json.mergeAt ((f₀.value false).map Json.normalize) (some ((f.value true).getD .null).normalize) =
      (f.value false).map Json.normalize
  kept : t.isAssigned f.logical = false →
    (f₀.value false).map Json.normalize = (f.value false).map Json.normalize

/-- A field holding a plain value merges whenever it is as in the base unless assigned. -/
theorem Member.merges_scalar {t : Tracker} {l w : String} {v₀ v : Option Json}
    (hv : ∀ j ∈ v, j.Plain) (hkept : t.isAssigned l = false → v₀ = v) :
    Member.Merges t (.scalar l w v₀) (.scalar l w v) where
  wire := rfl
  assigned _ := by
    cases v with
    | none => rfl
    | some j => exact Json.mergeAt_plain (hv j rfl).normalize _
  kept h := by rw [show v₀ = v from hkept h]

theorem Member.wires_eq {t : Tracker} {ms₀ ms : List Member} (h : List.Forall₂ (Member.Merges t) ms₀ ms) :
    ms₀.map Member.wire = ms.map Member.wire := by
  induction h with
  | nil => rfl
  | cons hf _ ih => rw [List.map_cons, List.map_cons, hf.wire, ih]

/-- Field by field, under each key. -/
theorem mergeAt_writeAll {t₀ t : Tracker} {ms₀ ms : List Member}
    (h : List.Forall₂ (Member.Merges t) ms₀ ms) (hnd : (ms.map Member.wire).Nodup) (k : String) :
    Json.mergeAt ((Keyed.getLast? (t₀.writeAll false ms₀) k).map Json.normalize)
        ((Keyed.getLast? (t.writeAll true ms) k).map Json.normalize) =
      (Keyed.getLast? (t.writeAll false ms) k).map Json.normalize := by
  induction h with
  | nil => rfl
  | @cons f₀ f ms₀ ms hf hrest ih =>
    rw [List.map_cons, List.nodup_cons] at hnd
    simp only [Tracker.writeAll_cons, Keyed.getLast?_append]
    by_cases hk : f.wire = k
    · -- the key of this field: the other fields do not write it
      subst hk
      have hk₀ : f.wire ∉ ms₀.map Member.wire := by rw [Member.wires_eq hrest]; exact hnd.1
      rw [Tracker.getLast?_writeAll_of_not_mem _ _ hnd.1, Tracker.getLast?_writeAll_of_not_mem _ _ hk₀,
        Tracker.getLast?_writeAll_of_not_mem _ _ hnd.1, ← hf.wire]
      simp only [Option.none_or]
      rw [Tracker.getLast?_member_full, Tracker.getLast?_member_patch, hf.wire,
        Tracker.getLast?_member_full]
      cases ha : t.isAssigned f.logical
      · exact hf.kept ha
      · simpa using hf.assigned ha
    · have hk₀ : f₀.wire ≠ k := by rw [hf.wire]; exact hk
      rw [Tracker.getLast?_member_of_ne _ _ _ _ hk, Tracker.getLast?_member_of_ne _ _ _ _ hk,
        Tracker.getLast?_member_of_ne _ _ _ _ hk₀]
      simpa using ih hnd.2

/-- A fixed member, such as the `kind` of a fish, written alike in both forms. -/
theorem getLast?_fixed {fixed : List (String × Json)} (hfixed : ∀ p ∈ fixed, ∃ s, p.2 = .string s)
    {k : String} {v : Json} (h : Keyed.getLast? fixed k = some v) :
    k ∈ fixed.map Prod.fst ∧ ∃ s, v = .string s := by
  have hmem : (k, v) ∈ fixed := List.mem_reverse.mp (Keyed.get?_eq_some_mem h)
  exact ⟨List.mem_map.mpr ⟨(k, v), hmem, rfl⟩, hfixed _ hmem⟩

/-- **Merging written members.** A merge patch written field by field, merged into the full form
of the base, gives the full form when every field merges. -/
theorem mergePatch_writeAll {t₀ t : Tracker} {ms₀ ms : List Member} (fixed : List (String × Json))
    (hfixed : ∀ p ∈ fixed, ∃ s, p.2 = .string s)
    (hnd : (fixed.map Prod.fst ++ ms.map Member.wire).Nodup)
    (h : List.Forall₂ (Member.Merges t) ms₀ ms) :
    Json.mergePatch (Json.object (fixed ++ t₀.writeAll false ms₀)).normalize
        (Json.object (fixed ++ t.writeAll true ms)).normalize =
      (Json.object (fixed ++ t.writeAll false ms)).normalize := by
  apply Json.mergePatch_normalize (Json.sorted_normalize_object _)
  intro k
  rw [Json.get?_normalize_object, Keyed.getLast?_append, Keyed.getLast?_append,
    Keyed.getLast?_append]
  cases hk : Keyed.getLast? fixed k with
  | none =>
    simp only [Option.or_none]
    exact mergeAt_writeAll h (List.nodup_append.mp hnd).2.1 k
  | some v =>
    -- a fixed key is no field's wire name
    obtain ⟨hkf, s, rfl⟩ := getLast?_fixed hfixed hk
    have hkm : k ∉ ms.map Member.wire := fun hm => (List.nodup_append.mp hnd).2.2 k hkf k hm rfl
    have hkm₀ : k ∉ ms₀.map Member.wire := by rw [Member.wires_eq h]; exact hkm
    rw [Tracker.getLast?_writeAll_of_not_mem _ _ hkm, Tracker.getLast?_writeAll_of_not_mem _ _ hkm,
      Tracker.getLast?_writeAll_of_not_mem _ _ hkm₀]
    rfl

/-! ## The models' writers -/

namespace InnerModel

/-- The fields an inner model writes. -/
def members (m : InnerModel) : List Member :=
  [.scalar "name" "name" (optString m.name), .scalar "description" "description" (optString m.description)]

theorem write_eq (m : InnerModel) (merge : Bool) :
    m.write merge = .object (m.tracker.writeAll merge m.members) := by
  simp [write, members, Tracker.writeAll, Member.scalar]

end InnerModel

namespace FishCore

/-- The common fields a fish writes. -/
def fields (c : FishCore) : List Member :=
  [.scalar "name" "name" (optString c.name), .scalar "age" "age" (optInt32 c.age),
    .scalar "color" "color" (optString c.color)]

theorem members_eq (c : FishCore) (merge : Bool) : c.members merge = c.tracker.writeAll merge c.fields := by
  simp [members, fields, Tracker.writeAll, Member.scalar]

end FishCore

namespace Fish

/-- The fields a fish writes after its kind: the common ones, then the weight of a shark or the
partner of a salmon, written in the mode of the whole unless it is itself in merge-patch mode. -/
def members : Fish → List Member
  | shark c w => c.fields ++ [.scalar "weight" "weight" (optInt32 w)]
  | salmon c p => c.fields ++ [⟨"partner", "partner", fun b => p.map fun q => q.write (b || q.tracker.mergePatch)⟩]
  | other _ c => c.fields

theorem write_eq (f : Fish) (merge : Bool) :
    f.write merge = .object ([("kind", .string f.kind)] ++ f.tracker.writeAll merge f.members) := by
  cases f with
  | shark c w => simp [write, members, kind, tracker, core, FishCore.members_eq, Tracker.writeAll_append,
      Tracker.writeAll_cons, Member.scalar]
  | salmon c p =>
    cases p <;> simp [write, members, kind, tracker, core, FishCore.members_eq, Tracker.writeAll_append,
      Tracker.writeAll_cons]
  | other k c => simp [write, members, kind, tracker, core, FishCore.members_eq]

end Fish

namespace Resource

/-- The fields a resource writes, nested models in the mode of the whole unless they are
themselves in merge-patch mode, and the map's entries as merge patches in a merge patch. -/
def members (r : Resource) : List Member :=
  [.scalar "description" "description" (optString r.description),
    ⟨"map", "map", fun b => r.map.map (writeMap · b)⟩,
    .scalar "longValue" "longValue" (optInt64 r.longValue),
    .scalar "intValue" "intValue" (optInt32 r.intValue),
    .scalar "enumValue" "enumValue" (r.enumValue.map fun e => .string e.asString),
    ⟨"innerModelProperty", "wireNameForInnerModelProperty",
      fun b => r.innerModelProperty.map fun m => m.write (b || m.tracker.mergePatch)⟩,
    .scalar "array" "array" (r.array.map fun xs => .array (xs.map InnerModel.writeOwn)),
    ⟨"fish", "fish", fun b => r.fish.map fun f => f.write (b || f.tracker.mergePatch)⟩]

theorem write_eq (r : Resource) (merge : Bool) :
    r.write merge = .object (r.tracker.writeAll merge r.members) := by
  simp [write, members, Tracker.writeAll, Member.scalar]

/-- How the map writes one entry: a model as a merge patch or in its own mode, a missing one as
`null`. -/
def entryJson (asPatch : Bool) : Option InnerModel → Json
  | some m => if asPatch then m.write true else m.writeOwn
  | none => .null

theorem writeMap_eq (es : Keyed (Option InnerModel)) (asPatch : Bool) :
    writeMap es asPatch = .object (es.map fun p => (p.1, entryJson asPatch p.2)) := rfl

theorem getLast?_writeMap (es : Keyed (Option InnerModel)) (asPatch : Bool) (k : String) :
    Keyed.getLast? (writeMap es asPatch).membersOf k = (Keyed.getLast? es k).map (entryJson asPatch) := by
  rw [writeMap_eq, Json.membersOf_object]
  exact Keyed.getLast?_map es _ _ (fun _ => rfl) k

end Resource

end MergePatch
