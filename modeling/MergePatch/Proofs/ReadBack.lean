import Mathlib
import MergePatch.Proofs.TextSchema
import MergePatch.Proofs.PatchShape
/-!
# What the reader gives for a model's full text

A model's full form is read back by the schema of its shape, from its text with members in writing
order (`toBody false`) or in key order (`toJson`): `Json.sortIf b` is the one or the other. This
module computes the record the reader gives, as a value of the model (`InnerModel.checked`,
`Fish.checked`, `Resource.checked`): each field its value as written, `null` when unset, and each
nested model the record it reads to itself.

A fish inside a resource or a salmon is read by its tagged schema: as any value first, then again
in memory by the schema its kind picks (`Fish.ofValue_checked`). The fields of a fish are read
alike either way (`Fish.fieldsRead`), for any reading `R` of the member values that reads strings,
32-bit integers and the partner.

The records are read when the model is well formed (`Fish.WellFormed`, `Resource.WellFormed`): its
nested models write themselves in full, its maps are in key order, its enumerated value is in the
form its text reads to, and a fish of another kind is neither a shark nor a salmon.
-/

namespace MergePatch

/-! ## Values as written and in key order -/

namespace Json

/-- A value as written (`false`) or with its members in key order at every depth (`true`). -/
def sortIf (b : Bool) (j : Json) : Json := if b then j.normalize else j

/-- The members of an object as written or in key order. -/
def sortFields (b : Bool) (ws : List (String × Json)) : List (String × Json) :=
  if b then Keyed.ofList (normalizeFields ws) else ws

@[simp] theorem sortIf_false (j : Json) : sortIf false j = j := rfl

@[simp] theorem sortIf_true (j : Json) : sortIf true j = j.normalize := rfl

theorem sortIf_object (b : Bool) (ws : List (String × Json)) :
    sortIf b (.object ws) = .object (sortFields b ws) := by
  cases b <;> rfl

@[simp] theorem sortIf_string (b : Bool) (s : String) : sortIf b (.string s) = .string s := by
  cases b <;> rfl

@[simp] theorem sortIf_number (b : Bool) (n : Number) : sortIf b (.number n) = .number n := by
  cases b <;> rfl

theorem nodup_sortFields (b : Bool) {ws : List (String × Json)} (hnd : (ws.map Prod.fst).Nodup) :
    ((sortFields b ws).map Prod.fst).Nodup := by
  cases b
  · exact hnd
  · exact (Keyed.sorted_ofList _).keys_nodup

/-- Under each key, the members hold the last one written, in key order when sorted. -/
theorem get?_sortFields (b : Bool) {ws : List (String × Json)} (hnd : (ws.map Prod.fst).Nodup)
    (k : String) : Keyed.get? (sortFields b ws) k = (Keyed.getLast? ws k).map (sortIf b) := by
  cases b
  · simp only [sortFields, Bool.false_eq_true, ↓reduceIte, Keyed.getLast?_eq_of_nodup hnd k]
    cases Keyed.get? ws k <;> rfl
  · rw [sortFields, if_pos rfl, Keyed.get?_ofList, normalizeFields_eq_map, getLast?_map_normalize]
    rfl

theorem mem_sortFields {b : Bool} {ws : List (String × Json)} {p : String × Json}
    (hp : p ∈ sortFields b ws) : ∃ w ∈ ws, p = (w.1, sortIf b w.2) := by
  cases b
  · exact ⟨p, hp, rfl⟩
  · have hp' := Keyed.mem_ofList hp
    rw [normalizeFields_eq_map] at hp'
    obtain ⟨w, hw, rfl⟩ := List.mem_map.mp hp'
    exact ⟨w, hw, rfl⟩

theorem Canonical.normalize {j : Json} (h : j.Canonical) : j.normalize.Canonical := by
  induction h with
  | null => exact .null
  | bool v => exact .bool v
  | number hn => exact .number hn
  | string s => exact .string s
  | @array items _ ih =>
    rw [Json.normalize, normalizeList_eq_map]
    exact .array fun y hy => by
      obtain ⟨x, hx, rfl⟩ := List.mem_map.mp hy
      exact ih x hx
  | @object fields _ ih =>
    rw [normalize_object]
    refine .object fun p hp => ?_
    have hp' := Keyed.mem_ofList hp
    rw [normalizeFields_eq_map] at hp'
    obtain ⟨q, hq, rfl⟩ := List.mem_map.mp hp'
    exact ih q hq

theorem Canonical.sortIf {j : Json} (h : j.Canonical) (b : Bool) : (j.sortIf b).Canonical := by
  cases b
  · exact h
  · exact h.normalize

theorem le_depthList {items : List Json} {x : Json} (hx : x ∈ items) : x.depth ≤ depth.depthList items := by
  have := depth_lt_of_mem_array hx
  simp only [depth] at this
  omega

theorem le_depthFields {fields : List (String × Json)} {p : String × Json} (hp : p ∈ fields) :
    p.2.depth ≤ depth.depthFields fields := by
  have := depth_lt_of_mem_object hp
  simp only [depth] at this
  omega

/-- Sorting members nests no deeper. The induction is on the depth; the members of a sorted object
are members of the object, sorted. -/
theorem depth_normalize_le (j : Json) : j.normalize.depth ≤ j.depth := by
  induction h : j.depth using Nat.strong_induction_on generalizing j with
  | _ n ih =>
    subst h
    cases j with
    | array items =>
      rw [Json.normalize, normalizeList_eq_map]
      have hle : depth.depthList (items.map normalize) ≤ depth.depthList items :=
        depthList_le fun y hy => by
          obtain ⟨x, hx, rfl⟩ := List.mem_map.mp hy
          exact (ih _ (depth_lt_of_mem_array hx) x rfl).trans (le_depthList hx)
      simp only [depth]
      omega
    | object fields =>
      rw [normalize_object]
      have hle : depth.depthFields (Keyed.ofList (normalizeFields fields)) ≤ depth.depthFields fields :=
        depthFields_le fun p hp => by
          have hp' := Keyed.mem_ofList hp
          rw [normalizeFields_eq_map] at hp'
          obtain ⟨q, hq, rfl⟩ := List.mem_map.mp hp'
          exact (ih _ (depth_lt_of_mem_object hq) q.2 rfl).trans (le_depthFields hq)
      simp only [depth]
      omega
    | _ => simp [Json.normalize, depth]

theorem depth_sortIf_le (b : Bool) (j : Json) : (j.sortIf b).depth ≤ j.depth := by
  cases b
  · exact le_refl _
  · exact depth_normalize_le j

/-- Sorting twice is sorting once. The induction is on the depth. -/
theorem normalize_normalize (j : Json) : j.normalize.normalize = j.normalize := by
  induction h : j.depth using Nat.strong_induction_on generalizing j with
  | _ n ih =>
    subst h
    cases j with
    | array items =>
      simp only [Json.normalize, normalizeList_eq_map, List.map_map]
      congr 1
      refine List.map_congr_left fun x hx => ?_
      exact ih _ (depth_lt_of_mem_array hx) x rfl
    | object fields =>
      rw [normalize_object, normalize_object, normalizeFields_eq_map, normalizeFields_eq_map]
      congr 1
      have hsorted := Keyed.sorted_ofList (fields.map fun p => (p.1, p.2.normalize))
      -- the members are sorted already, and each is sorted once more to itself
      have hmap : ∀ p ∈ Keyed.ofList (fields.map fun p => (p.1, p.2.normalize)),
          (p.1, p.2.normalize) = p := by
        intro p hp
        obtain ⟨q, hq, rfl⟩ := List.mem_map.mp (Keyed.mem_ofList hp)
        simp [ih _ (depth_lt_of_mem_object hq) q.2 rfl]
      rw [List.map_congr_left hmap, List.map_id', Keyed.ofList_of_sorted hsorted]
    | _ => rfl

theorem sortIf_normalize (b : Bool) (j : Json) : (j.sortIf b).normalize = j.normalize := by
  cases b
  · rfl
  · exact normalize_normalize j

@[simp] theorem sortIf_null (b : Bool) : sortIf b .null = .null := by
  cases b <;> rfl

@[simp] theorem sortIf_int (b : Bool) (i : Int) : sortIf b (Json.int i) = Json.int i :=
  sortIf_number b _

theorem sortIf_array (b : Bool) (xs : List Json) : sortIf b (.array xs) = .array (xs.map (sortIf b)) := by
  cases b
  · exact congrArg Json.array (List.map_id'' sortIf_false xs).symm
  · simp [Json.normalize, normalizeList_eq_map]

mutual

/-- A value nests no more containers than it has nodes. -/
theorem depth_le_size : (j : Json) → j.depth ≤ j.size
  | .array items => by
    have := depthList_le_sizeList items
    simp only [depth, size]
    omega
  | .object fields => by
    have := depthFields_le_sizeFields fields
    simp only [depth, size]
    omega
  | .null | .bool _ | .number _ | .string _ => by simp [depth, size]

theorem depthList_le_sizeList : (items : List Json) → depth.depthList items ≤ size.sizeList items
  | [] => by simp [depth.depthList, size.sizeList]
  | x :: xs => by
    have := depth_le_size x
    have := depthList_le_sizeList xs
    simp only [depth.depthList, size.sizeList]
    omega

theorem depthFields_le_sizeFields : (fields : List (String × Json)) →
    depth.depthFields fields ≤ size.sizeFields fields
  | [] => by simp [depth.depthFields, size.sizeFields]
  | (_, x) :: xs => by
    have := depth_le_size x
    have := depthFields_le_sizeFields xs
    simp only [depth.depthFields, size.sizeFields]
    omega

end

end Json

/-! ## Integers as written -/

namespace Number

theorem ofInt_canonical {i : Int} (hlo : -2 ^ 63 ≤ i) (hhi : i < 2 ^ 63) : (Number.ofInt i).Canonical := by
  unfold Number.ofInt
  split
  · rename_i hneg
    show (Int64.ofInt i).toInt < 0
    rw [Int64.toInt_ofInt_of_le hlo hhi]
    exact hneg
  · trivial

end Number

/-- An integer within a range and within 64 bits, written as JSON, is accepted by the range as
written. -/
theorem IntRange.accept_ofInt (r : IntRange) {i : Int} (hlo : r.bounds.1 ≤ i) (hhi : i ≤ r.bounds.2)
    (h64lo : -2 ^ 63 ≤ i) (h64hi : i < 2 ^ 63) : r.accept (Number.ofInt i) = .ok (Json.int i) := by
  unfold Number.ofInt Json.int
  split
  · rename_i hneg
    rw [IntRange.accept, if_pos (by rw [Int64.toInt_ofInt_of_le h64lo h64hi]; exact hlo)]
    simp [Number.ofInt, hneg]
  · rename_i hneg
    have hnat : ((UInt64.ofNat i.toNat).toNat : Int) = i := by
      rw [UInt64.toNat_ofNat_of_lt' (by simp only [UInt64.size]; norm_num at h64hi; omega)]
      omega
    rw [IntRange.accept, if_pos (by rw [hnat]; exact hhi)]
    simp [Number.ofInt, hneg]

theorem Json.intValue?_int {i : Int} (hlo : -2 ^ 63 ≤ i) (hhi : i < 2 ^ 63) :
    (Json.int i).intValue? = some i := by
  unfold Json.int Number.ofInt
  split
  · simp only [Json.intValue?, Int64.toInt_ofInt_of_le hlo hhi]
  · rename_i hneg
    have hnat : ((UInt64.ofNat i.toNat).toNat : Int) = i := by
      rw [UInt64.toNat_ofNat_of_lt' (by simp only [UInt64.size]; norm_num at hhi; omega)]
      omega
    simp only [Json.intValue?, hnat]

theorem Int32.fits (x : Int32) : -2 ^ 63 ≤ x.toInt ∧ x.toInt < 2 ^ 63 ∧
    IntRange.i32.bounds.1 ≤ x.toInt ∧ x.toInt ≤ IntRange.i32.bounds.2 := by
  have h1 := Int32.toInt_lt x
  have h2 := Int32.le_toInt x
  have hb : IntRange.i32.bounds = (-2147483648, 2147483647) := rfl
  rw [hb]
  norm_num at h1 h2 ⊢
  omega

theorem Int64.fits (x : Int64) : -2 ^ 63 ≤ x.toInt ∧ x.toInt < 2 ^ 63 ∧
    IntRange.i64.bounds.1 ≤ x.toInt ∧ x.toInt ≤ IntRange.i64.bounds.2 := by
  have h1 := Int64.toInt_lt x
  have h2 := Int64.le_toInt x
  have hb : IntRange.i64.bounds = (-9223372036854775808, 9223372036854775807) := rfl
  rw [hb]
  norm_num at h1 h2 ⊢
  omega

theorem Json.int32?_int (x : Int32) : (Json.int x.toInt).int32? = some x := by
  obtain ⟨hlo, hhi, -⟩ := Int32.fits x
  simp [Json.int32?, Json.intValue?_int hlo hhi]

theorem Json.int64?_int (x : Int64) : (Json.int x.toInt).int64? = some x := by
  obtain ⟨hlo, hhi, -⟩ := Int64.fits x
  simp [Json.int64?, Json.intValue?_int hlo hhi]

/-! ## A model's full form -/

namespace Tracker

/-- The members written are the fields' wire names, in order, each at most once. -/
theorem keys_writeAll (t : Tracker) (merge : Bool) (ms : List Member) :
    ((t.writeAll merge ms).map Prod.fst).Sublist (ms.map Member.wire) := by
  induction ms with
  | nil => exact List.Sublist.slnil
  | cons f ms ih =>
    rw [writeAll_cons, List.map_append, List.map_cons]
    unfold member
    split
    · split
      · exact ih.cons_cons _
      · exact ih.cons _
    · split
      · exact ih.cons_cons _
      · exact ih.cons _

end Tracker

namespace AnyModel

/-- The members of the model's full form, as written (`false`) or in key order (`true`). -/
def fullFields (m : AnyModel) (b : Bool) : List (String × Json) :=
  Json.sortFields b (m.fixed ++ m.tracker.writeAll false m.members)

theorem sortIf_write (m : AnyModel) (b : Bool) : (m.write false).sortIf b = .object (m.fullFields b) := by
  rw [write_eq, Json.sortIf_object]
  rfl

theorem nodup_written (m : AnyModel) (merge : Bool) :
    ((m.fixed ++ m.tracker.writeAll merge m.members).map Prod.fst).Nodup := by
  rw [List.map_append]
  exact m.nodup_keys.sublist ((List.Sublist.refl _).append (Tracker.keys_writeAll _ _ _))

theorem nodup_fullFields (m : AnyModel) (b : Bool) : ((m.fullFields b).map Prod.fst).Nodup :=
  Json.nodup_sortFields b (m.nodup_written false)

theorem get?_fullFields (m : AnyModel) (b : Bool) (k : String) :
    Keyed.get? (m.fullFields b) k =
      (Keyed.getLast? (m.fixed ++ m.tracker.writeAll false m.members) k).map (Json.sortIf b) :=
  Json.get?_sortFields b (m.nodup_written false) k

/-- The full form holds each field under its wire name as it is set. -/
theorem get?_fullFields_member {m : AnyModel} (b : Bool) (f : Member) (hf : f ∈ m.members) :
    Keyed.get? (m.fullFields b) f.wire = (f.value false).map (Json.sortIf b) := by
  have hfixed : Keyed.getLast? m.fixed f.wire = none := by
    rw [Keyed.getLast?_eq_none_iff]
    exact Keyed.get?_eq_none fun p hp hk => wire_not_fixed hf (hk ▸ List.mem_map_of_mem hp)
  rw [get?_fullFields, Keyed.getLast?_append, hfixed, Option.or_none,
    Tracker.getLast?_writeAll_full _ (List.nodup_append.mp m.nodup_keys).2.1 hf]

/-- The full form holds the fixed members, a fish's `kind`, as they are. -/
theorem get?_fullFields_fixed {m : AnyModel} (b : Bool) {p : String × Json} (hp : p ∈ m.fixed) :
    Keyed.get? (m.fullFields b) p.1 = some (p.2.sortIf b) := by
  have hw : p.1 ∉ m.members.map Member.wire := fun hw =>
    (List.nodup_append.mp m.nodup_keys).2.2 _ (List.mem_map_of_mem hp) _ hw rfl
  have hfixed : Keyed.getLast? m.fixed p.1 = some p.2 := by
    rw [Keyed.getLast?_eq_of_nodup (List.nodup_append.mp m.nodup_keys).1]
    exact Keyed.get?_of_mem (List.nodup_append.mp m.nodup_keys).1 hp
  rw [get?_fullFields, Keyed.getLast?_append, Tracker.getLast?_writeAll_of_not_mem _ _ hw,
    Option.none_or, hfixed]
  rfl

/-- A name that is neither a field's nor a fixed member's is not in the full form. -/
theorem get?_fullFields_of_not_mem {m : AnyModel} (b : Bool) {k : String}
    (hk : k ∉ m.fixed.map Prod.fst ++ m.members.map Member.wire) :
    Keyed.get? (m.fullFields b) k = none := by
  rw [List.mem_append, not_or] at hk
  have hfixed : Keyed.getLast? m.fixed k = none := by
    rw [Keyed.getLast?_eq_none_iff]
    exact Keyed.get?_eq_none fun p hp hpk => hk.1 (hpk ▸ List.mem_map_of_mem hp)
  rw [get?_fullFields, Keyed.getLast?_append, Tracker.getLast?_writeAll_of_not_mem _ _ hk.2,
    Option.none_or, hfixed]
  rfl

/-- Each member of the full form is a field, by its wire name, or a fixed member. -/
theorem mem_fullFields {m : AnyModel} {b : Bool} {p : String × Json} (hp : p ∈ m.fullFields b) :
    p.1 ∈ m.members.map Member.wire ∨ ∃ q ∈ m.fixed, p = (q.1, q.2.sortIf b) := by
  obtain ⟨w, hw, rfl⟩ := Json.mem_sortFields hp
  rcases List.mem_append.mp hw with hw | hw
  · exact .inr ⟨w, hw, rfl⟩
  · exact .inl ((Tracker.keys_writeAll _ _ _).subset (List.mem_map.mpr ⟨w, hw, rfl⟩))

end AnyModel

/-! ## Numbers in the models' writing -/

namespace Json

theorem canonical_int {i : Int} (hlo : -2 ^ 63 ≤ i) (hhi : i < 2 ^ 63) : (Json.int i).Canonical :=
  .number (Number.ofInt_canonical hlo hhi)

theorem canonical_optString (v : Option String) : ∀ x ∈ optString v, x.Canonical := by
  intro x hx
  simp only [optString, Option.mem_def, Option.map_eq_some_iff] at hx
  obtain ⟨s, -, rfl⟩ := hx
  exact .string s

theorem canonical_optInt32 (v : Option Int32) : ∀ x ∈ optInt32 v, x.Canonical := by
  intro x hx
  simp only [optInt32, Option.mem_def, Option.map_eq_some_iff] at hx
  obtain ⟨i, -, rfl⟩ := hx
  exact canonical_int (Int32.fits i).1 (Int32.fits i).2.1

theorem canonical_optInt64 (v : Option Int64) : ∀ x ∈ optInt64 v, x.Canonical := by
  intro x hx
  simp only [optInt64, Option.mem_def, Option.map_eq_some_iff] at hx
  obtain ⟨i, -, rfl⟩ := hx
  exact canonical_int (Int64.fits i).1 (Int64.fits i).2.1

end Json

/-- Members whose values hold integers in their kinds are written so, in either mode. -/
theorem Tracker.canonical_writeAll (t : Tracker) (merge : Bool) {ms : List Member}
    (h : ∀ f ∈ ms, ∀ x ∈ f.value merge, x.Canonical) : ∀ p ∈ t.writeAll merge ms, p.2.Canonical := by
  intro p hp
  obtain ⟨f, hf, hp⟩ := List.mem_flatMap.mp hp
  unfold member at hp
  split at hp
  · split at hp
    · rw [List.mem_singleton.mp hp]
      cases hv : f.value merge with
      | none => exact .null
      | some x => exact h f hf x hv
    · cases hp
  · split at hp
    · rename_i x hv
      rw [List.mem_singleton.mp hp]
      exact h f hf x hv
    · cases hp

theorem InnerModel.canonical_write (m : InnerModel) (b : Bool) : (m.write b).Canonical := by
  rw [write_eq]
  refine .object (Tracker.canonical_writeAll _ _ fun f hf => ?_)
  simp only [members, Member.scalar, List.mem_cons, List.not_mem_nil, or_false] at hf
  rcases hf with rfl | rfl <;> exact Json.canonical_optString _

/-- The model around a fish's fields: its kind and its members. -/
theorem Fish.canonical_of_members (f : Fish) (b : Bool) (h : ∀ g ∈ f.members, ∀ x ∈ g.value b, x.Canonical) :
    (f.write b).Canonical := by
  rw [write_eq]
  refine .object fun p hp => ?_
  rcases List.mem_append.mp hp with hp | hp
  · rw [List.mem_singleton.mp hp]
    exact .string _
  · exact Tracker.canonical_writeAll _ _ h p hp

theorem FishCore.canonical_fields (c : FishCore) (b : Bool) : ∀ g ∈ c.fields, ∀ x ∈ g.value b, x.Canonical := by
  intro g hg
  simp only [fields, Member.scalar, List.mem_cons, List.not_mem_nil, or_false] at hg
  rcases hg with rfl | rfl | rfl
  · exact Json.canonical_optString _
  · exact Json.canonical_optInt32 _
  · exact Json.canonical_optString _

/-- Every fish writes its integers in their kinds, in either mode; the recursion is on the chain
of partners. -/
theorem Fish.canonical_write : (f : Fish) → (b : Bool) → (f.write b).Canonical
  | .shark c w, b => canonical_of_members _ b fun g hg => by
    rcases List.mem_append.mp hg with hg | hg
    · exact c.canonical_fields b g hg
    · rw [List.mem_singleton.mp hg]
      exact Json.canonical_optInt32 w
  | .salmon c p, b => canonical_of_members _ b fun g hg => by
    rcases List.mem_append.mp hg with hg | hg
    · exact c.canonical_fields b g hg
    · rw [List.mem_singleton.mp hg]
      intro x hx
      cases p with
      | none => cases hx
      | some q =>
        have hx' : some (q.write (b || q.tracker.mergePatch)) = some x := hx
        rw [← Option.some.inj hx']
        exact canonical_write q _
  | .other _ c, b => canonical_of_members _ b (c.canonical_fields b)

theorem Resource.canonical_writeMap (es : Keyed (Option InnerModel)) (asPatch : Bool) :
    (writeMap es asPatch).Canonical := by
  rw [writeMap_eq]
  refine .object fun p hp => ?_
  obtain ⟨e, -, rfl⟩ := List.mem_map.mp hp
  rcases e with ⟨k, _ | m⟩
  · exact .null
  · show (entryJson asPatch (some m)).Canonical
    cases asPatch
    · exact m.canonical_write _
    · exact m.canonical_write true

theorem Resource.canonical_write (r : Resource) (b : Bool) : (r.write b).Canonical := by
  rw [write_eq]
  refine .object (Tracker.canonical_writeAll _ _ fun f hf x hx => ?_)
  simp only [members, Member.scalar, List.mem_cons, List.not_mem_nil, or_false] at hf
  rcases hf with rfl | rfl | rfl | rfl | rfl | rfl | rfl | rfl
  · exact Json.canonical_optString _ x hx
  · obtain ⟨es, -, rfl⟩ := Option.map_eq_some_iff.mp hx
    exact canonical_writeMap es b
  · exact Json.canonical_optInt64 _ x hx
  · exact Json.canonical_optInt32 _ x hx
  · obtain ⟨e, -, rfl⟩ := Option.map_eq_some_iff.mp hx
    exact .string _
  · obtain ⟨m, -, rfl⟩ := Option.map_eq_some_iff.mp hx
    exact m.canonical_write _
  · obtain ⟨xs, -, rfl⟩ := Option.map_eq_some_iff.mp hx
    refine .array fun y hy => ?_
    obtain ⟨m, -, rfl⟩ := List.mem_map.mp hy
    exact m.canonical_write _
  · obtain ⟨f, -, rfl⟩ := Option.map_eq_some_iff.mp hx
    exact f.canonical_write _

theorem AnyModel.canonical_write (m : AnyModel) (b : Bool) : (m.write b).Canonical := by
  cases m with
  | resource r => exact r.canonical_write b
  | inner n => exact n.canonical_write b
  | fish f | variant f => exact f.canonical_write b

/-! ## The records the models read to -/

namespace Keyed

variable {α : Type}

theorem get?_ofList_of_mem {ps : List (String × α)} (hnd : (ps.map Prod.fst).Nodup) {p : String × α}
    (hp : p ∈ ps) : get? (ofList ps) p.1 = some p.2 := by
  rw [get?_ofList, getLast?_eq_of_nodup hnd]
  exact get?_of_mem hnd hp

theorem get?_ofList_of_not_mem {ps : List (String × α)} {k : String} (hk : k ∉ ps.map Prod.fst) :
    get? (ofList ps) k = none := by
  rw [get?_ofList, getLast?_eq_none_iff]
  exact get?_eq_none fun p hp hpk => hk (hpk ▸ List.mem_map_of_mem hp)

end Keyed

namespace Shape

/-- The fields of a model's record; none for a fish of any kind, which is tagged. -/
def fields (s : Shape) : List (String × Absent × Schema Shape) :=
  match schema s with
  | .record _ fs _ => fs
  | _ => []

/-- The name of a model's record. -/
def recordName (s : Shape) : String :=
  match schema s with
  | .record n _ _ => n
  | _ => ""

/-- Every model but a fish of any kind is a record that reads no members after its fields. -/
theorem schema_eq_record {s : Shape} (hs : s ≠ .fish) : schema s = .record s.recordName s.fields [] := by
  cases s <;> first | rfl | exact absurd rfl hs

theorem nodup_fields (s : Shape) : (s.fields.map Prod.fst).Nodup := by
  cases s <;> decide

theorem checkOtherKind_string {k : String} (hk : isModelledKind k = false) :
    checkOtherKind (.string k) = .ok (.string k) := by
  simp [checkOtherKind, hk]

end Shape

/-- A record of the pairs `ps`, whose names are the fields of a record, holds nothing under any
other name. -/
theorem Keyed.get?_ofList_other {ps : List (String × Json)} {fields : List (String × Absent × Schema Shape)}
    (hkeys : ps.map Prod.fst = fields.map Prod.fst) (k : String) (hk : ∀ f ∈ fields, f.1 ≠ k) :
    Keyed.get? (Keyed.ofList ps) k = none := by
  refine Keyed.get?_ofList_of_not_mem fun hmem => ?_
  rw [hkeys] at hmem
  obtain ⟨f, hf, hfk⟩ := List.mem_map.mp hmem
  exact hk f hf hfk

namespace InnerModel

/-- The record an inner model's full form reads to: each field as written, `null` where unset. -/
def checked (m : InnerModel) : Json :=
  Json.obj [("name", (optString m.name).getD .null), ("description", (optString m.description).getD .null)]

end InnerModel

namespace FishCore

/-- The common fields of a fish as its record reads them: each as written, `null` where unset;
the `id` is never written. -/
def checkedPairs (c : FishCore) : List (String × Json) :=
  [("id", .null), ("name", (optString c.name).getD .null), ("age", (optInt32 c.age).getD .null),
    ("color", (optString c.color).getD .null)]

end FishCore

namespace Fish

/-- The record a fish's full form reads to by its kind: the fields of its variant, the partner
as the record it reads to, then the kind. -/
def checked : Fish → Json
  | shark c w => Json.obj (c.checkedPairs ++ [("weight", (optInt32 w).getD .null), ("kind", .string "shark")])
  | salmon c none => Json.obj (c.checkedPairs ++ [("partner", .null), ("kind", .string "salmon")])
  | salmon c (some q) => Json.obj (c.checkedPairs ++ [("partner", q.checked), ("kind", .string "salmon")])
  | other k c => Json.obj (("kind", .string k) :: c.checkedPairs ++ [("kind", .string k)])

/-- The fields of a fish's variant as its record reads them. -/
def variantPairs : Fish → List (String × Json)
  | shark c w => c.checkedPairs ++ [("weight", (optInt32 w).getD .null)]
  | salmon c p => c.checkedPairs ++ [("partner", (p.map checked).getD .null)]
  | other k c => ("kind", .string k) :: c.checkedPairs

theorem checked_eq (f : Fish) : f.checked = Json.obj (f.variantPairs ++ [("kind", .string f.kind)]) := by
  rcases f with ⟨c, w⟩ | ⟨c, _ | q⟩ | ⟨k, c⟩ <;> simp [checked, variantPairs, kind]

/-- The model a fish's variant is read into. -/
def shape : Fish → Shape
  | shark .. => .shark
  | salmon .. => .salmon
  | other .. => .otherFish

theorem shape_ne_fish (f : Fish) : f.shape ≠ .fish := by
  cases f <;> simp [shape]

theorem keys_variantPairs (f : Fish) : f.variantPairs.map Prod.fst = f.shape.fields.map Prod.fst := by
  cases f <;> rfl

/-- A fish whose full form reads back to itself: each partner writes itself in full, and a fish of
another kind has a kind that is neither a shark's nor a salmon's. -/
def WellFormed : Fish → Prop
  | shark .. => True
  | salmon _ none => True
  | salmon _ (some q) => q.tracker.mergePatch = false ∧ q.WellFormed
  | other k _ => Shape.isModelledKind k = false

theorem ofKind_kind {f : Fish} (hf : f.WellFormed) : Shape.ofKind f.kind = f.shape := by
  cases f with
  | shark => rfl
  | salmon => rfl
  | other k c =>
    simp only [WellFormed, Shape.isModelledKind, Bool.or_eq_false_iff, beq_eq_false_iff_ne] at hf
    simp [Shape.ofKind, kind, shape, hf.1, hf.2]

end Fish

/-! ## Readings of plain members -/

/-- A reading of member values by their schema that gives optional strings and 32-bit integers
as they are and accepts the kind of a fish without a model of its own: the reader of text and
the reader of values in memory both are one (`ScalarReading.readsBy`, `ScalarReading.ofValue`). -/
structure ScalarReading (R : Schema Shape → Json → Json → Prop) : Prop where
  text (s : String) : R (.option .string) (.string s) (.string s)
  int32 (x : Int32) : R (.option (.int .i32)) (Json.int x.toInt) (Json.int x.toInt)
  kind (k : String) : Shape.isModelledKind k = false →
    R (.refine .string Shape.checkOtherKind) (.string k) (.string k)

namespace ReadM

variable {ν : Type} {env : ν → Schema ν}

theorem readsBy_optText {fuel : Nat} (h : 2 ≤ fuel) (s : String) :
    ReadsBy env fuel (.option .string) (.string s) (.string s) := by
  obtain ⟨n, rfl⟩ : ∃ n, fuel = n + 2 := ⟨fuel - 2, by omega⟩
  exact readsBy_option (.string s) (by simp) (readsBy_text rfl)

theorem readsBy_optInt {fuel : Nat} (h : 2 ≤ fuel) (r : IntRange) {i : Int} (hlo : r.bounds.1 ≤ i)
    (hhi : i ≤ r.bounds.2) (h64lo : -2 ^ 63 ≤ i) (h64hi : i < 2 ^ 63) :
    ReadsBy env fuel (.option (.int r)) (Json.int i) (Json.int i) := by
  obtain ⟨n, rfl⟩ : ∃ n, fuel = n + 2 := ⟨fuel - 2, by omega⟩
  exact readsBy_option (Json.canonical_int h64lo h64hi) (by simp [Json.int])
    (readsBy_int (Number.ofInt_canonical h64lo h64hi) (IntRange.accept_ofInt r hlo hhi h64lo h64hi))

end ReadM

theorem ScalarReading.readsBy {fuel : Nat} (h : 2 ≤ fuel) : ScalarReading (ReadM.ReadsBy Shape.schema fuel) where
  text := ReadM.readsBy_optText h
  int32 x := ReadM.readsBy_optInt h .i32 (Int32.fits x).2.2.1 (Int32.fits x).2.2.2 (Int32.fits x).1
    (Int32.fits x).2.1
  kind k hk := by
    obtain ⟨n, rfl⟩ : ∃ n, fuel = n + 2 := ⟨fuel - 2, by omega⟩
    exact ReadM.readsBy_refine (ReadM.readsBy_text rfl) (Shape.checkOtherKind_string hk)

theorem ScalarReading.ofValue {fuel : Nat} (h : 2 ≤ fuel) :
    ScalarReading (fun s x r => Schema.ofValue Shape.schema fuel s x = .ok r) := by
  obtain ⟨n, rfl⟩ : ∃ n, fuel = n + 2 := ⟨fuel - 2, by omega⟩
  refine ⟨fun s => ?_, fun x => ?_, fun k hk => ?_⟩
  · rw [Schema.ofValue_option _ _ (by simp)]
    exact Schema.ofValue_text _ rfl
  · obtain ⟨h64lo, h64hi, hlo, hhi⟩ := Int32.fits x
    rw [Schema.ofValue_option _ _ (by simp [Json.int]), Json.int, Schema.ofValue_int]
    exact IntRange.accept_ofInt _ hlo hhi h64lo h64hi
  · exact Schema.ofValue_refine _ (Schema.ofValue_text _ rfl) (Shape.checkOtherKind_string hk)

/-- A field whose value reads as it is written, in either order of members, stands in the record
as it is, `null` when unset. -/
theorem Schema.fieldReads_same {R : Schema Shape → Json → Json → Prop} {G : Fields}
    {sf : String × Absent × Schema Shape} (hsf : sf.2.1 = .null) (b : Bool) {v : Option Json}
    (hG : Keyed.get? G sf.1 = some (v.getD .null)) (hR : ∀ x ∈ v, x.sortIf b = x ∧ R sf.2.2 x x) :
    Schema.FieldReads R G (v.map (Json.sortIf b)) sf := by
  cases v with
  | none => exact ⟨.null, by rw [hsf]; rfl, hG⟩
  | some x =>
    obtain ⟨hx, hr⟩ := hR x rfl
    exact ⟨x, hG, by rw [hx]; exact hr⟩

namespace ScalarReading

variable {R : Schema Shape → Json → Json → Prop}

theorem optString (hR : ScalarReading R) (b : Bool) (v : Option String) :
    ∀ x ∈ optString v, x.sortIf b = x ∧ R (.option .string) x x := by
  intro x hx
  simp only [MergePatch.optString, Option.mem_def, Option.map_eq_some_iff] at hx
  obtain ⟨s, -, rfl⟩ := hx
  exact ⟨Json.sortIf_string b s, hR.text s⟩

theorem optInt32 (hR : ScalarReading R) (b : Bool) (v : Option Int32) :
    ∀ x ∈ optInt32 v, x.sortIf b = x ∧ R (.option (.int .i32)) x x := by
  intro x hx
  simp only [MergePatch.optInt32, Option.mem_def, Option.map_eq_some_iff] at hx
  obtain ⟨i, -, rfl⟩ := hx
  exact ⟨Json.sortIf_int b _, hR.int32 i⟩

end ScalarReading

/-! ## Fish -/

/-- A plain member of a model's full form, one that reads as it is written, stands in the record
as it is, `null` when unset. -/
theorem AnyModel.fieldReads_scalar {R : Schema Shape → Json → Json → Prop} {m : AnyModel} (b : Bool)
    {G : Fields} (l : String) {w : String} {v : Option Json} {s : Schema Shape}
    (hf : Member.scalar l w v ∈ m.members) (hG : Keyed.get? G w = some (v.getD .null))
    (hR : ∀ x ∈ v, x.sortIf b = x ∧ R s x x) :
    Schema.FieldReads R G (Keyed.get? (m.fullFields b) w) (w, .null, s) := by
  rw [show w = (Member.scalar l w v).wire from rfl, get?_fullFields_member b _ hf]
  exact Schema.fieldReads_same rfl b hG hR

/-- A member of a model's full form that holds `v`, written as `wr a` when it holds `a` and read
to `rd a`, stands in the record as read, `null` when unset. -/
theorem AnyModel.fieldReads_member {R : Schema Shape → Json → Json → Prop} {m : AnyModel} (b : Bool)
    {G : Fields} (f : Member) {s : Schema Shape} {α : Type} {v : Option α} {wr : α → Json} (rd : α → Json)
    (hf : f ∈ m.members) (hv : f.value false = v.map wr) (hG : Keyed.get? G f.wire = some ((v.map rd).getD .null))
    (hR : ∀ a ∈ v, R s ((wr a).sortIf b) (rd a)) :
    Schema.FieldReads R G (Keyed.get? (m.fullFields b) f.wire) (f.wire, .null, s) := by
  rw [get?_fullFields_member b f hf, hv, Option.map_map]
  exact Schema.fieldReads_optional rfl hG hR

/-- What stands in a model's full form nests less than the form. -/
theorem AnyModel.depth_lt_of_get? {m : AnyModel} {b : Bool} {k : String} {v : Json}
    (h : Keyed.get? (m.fullFields b) k = some v) : v.depth < ((m.write false).sortIf b).depth := by
  rw [sortIf_write]
  exact Json.depth_lt_of_mem_object (Keyed.get?_eq_some_mem h)

/-- A record whose fields name every member a model writes passes over the rest of its full form
when it passes over the fixed members it does not name. -/
theorem AnyModel.skips_of_fields {m : AnyModel} {b : Bool} {fields : List (String × Absent × Schema Shape)}
    (hw : ∀ w ∈ m.members.map Member.wire, w ∈ fields.map Prod.fst)
    (hfixed : ∀ q ∈ m.fixed, (∀ f ∈ fields, f.1 ≠ q.1) → ReadM.Skips (q.2.sortIf b)) :
    ∀ p ∈ m.fullFields b, (∀ f ∈ fields, f.1 ≠ p.1) → ReadM.Skips p.2 := by
  intro p hp hnot
  rcases mem_fullFields hp with hwire | ⟨q, hq, rfl⟩
  · obtain ⟨f, hf, hfp⟩ := List.mem_map.mp (hw _ hwire)
    exact absurd hfp (hnot f hf)
  · exact hfixed q hq hnot

namespace Fish

theorem sortIf_write (f : Fish) (b : Bool) :
    (f.write false).sortIf b = .object ((AnyModel.fish f).fullFields b) :=
  (AnyModel.fish f).sortIf_write b

theorem get?_fullFields_kind (f : Fish) (b : Bool) :
    Keyed.get? ((AnyModel.fish f).fullFields b) "kind" = some (.string f.kind) := by
  have h := AnyModel.get?_fullFields_fixed b (show ("kind", .string f.kind) ∈ (AnyModel.fish f).fixed from
    List.mem_singleton_self _)
  simpa using h

/-- Every member a fish writes, but its kind, is a field of its variant's record. -/
theorem wire_mem_fields (f : Fish) :
    ∀ w ∈ (AnyModel.fish f).members.map Member.wire, w ∈ f.shape.fields.map Prod.fst := by
  rw [AnyModel.wires_members]
  cases f <;> simp only [AnyModel.fieldNames, fieldNames, shape] <;> decide

/-- A salmon's partner nests less than the salmon, in either order of members. -/
theorem depth_partner_lt {c : FishCore} {q : Fish} (hq : q.tracker.mergePatch = false) (b : Bool) :
    ((q.write false).sortIf b).depth < (((salmon c (some q)).write false).sortIf b).depth := by
  refine AnyModel.depth_lt_of_get? (m := AnyModel.fish (salmon c (some q))) (k := "partner") ?_
  rw [AnyModel.get?_fullFields_member b
    ⟨"partner", "partner", fun b => (some q).map fun q => q.write (b || q.tracker.mergePatch)⟩
    (by simp [AnyModel.members, members])]
  simp [hq]

end Fish

/-- The common fields of a fish's full form read to the common fields of its record. -/
theorem FishCore.fieldsRead {R : Schema Shape → Json → Json → Prop} (hR : ScalarReading R) (b : Bool)
    (f : Fish) {G : Fields} (hG : ∀ k v, (k, v) ∈ f.core.checkedPairs → Keyed.get? G k = some v) :
    ∀ sf ∈ [Shape.optText "id", Shape.optText "name", Shape.optInt32 "age", Shape.optText "color"],
      Schema.FieldReads R G (Keyed.get? ((AnyModel.fish f).fullFields b) sf.1) sf := by
  have hmem : ∀ g ∈ f.core.fields, g ∈ (AnyModel.fish f).members := by
    intro g hg
    cases f <;> simp_all [AnyModel.members, Fish.members, Fish.core]
  have hid : "id" ∉ (AnyModel.fish f).fixed.map Prod.fst ++ (AnyModel.fish f).members.map Member.wire := by
    rw [AnyModel.keys_fixed, AnyModel.wires_members]
    cases f <;> simp only [AnyModel.isFish, AnyModel.fieldNames, Fish.fieldNames, ↓reduceIte] <;> decide
  simp only [List.mem_cons, List.not_mem_nil, or_false, forall_eq_or_imp, forall_eq, Shape.optText,
    Shape.optInt32]
  refine ⟨?_, ?_, ?_, ?_⟩
  · -- the `id` is never written, and reads `null`
    rw [AnyModel.get?_fullFields_of_not_mem b hid]
    exact ⟨.null, rfl, hG _ _ (by simp [FishCore.checkedPairs])⟩
  · exact AnyModel.fieldReads_scalar b "name" (hmem _ (by simp [FishCore.fields]))
      (hG _ _ (by simp [FishCore.checkedPairs])) (hR.optString b f.core.name)
  · exact AnyModel.fieldReads_scalar b "age" (hmem _ (by simp [FishCore.fields]))
      (hG _ _ (by simp [FishCore.checkedPairs])) (hR.optInt32 b f.core.age)
  · exact AnyModel.fieldReads_scalar b "color" (hmem _ (by simp [FishCore.fields]))
      (hG _ _ (by simp [FishCore.checkedPairs])) (hR.optString b f.core.color)

namespace Fish

/-- The record of a fish's variant reads its full form field by field to the variant's fields,
given how the partner of a salmon is read. -/
theorem fieldsRead {R : Schema Shape → Json → Json → Prop} (hR : ScalarReading R) (b : Bool) {f : Fish}
    (hwf : f.WellFormed)
    (hpartner : ∀ c q, f = .salmon c (some q) → R (.option (.ref .fish)) ((q.write false).sortIf b) q.checked) :
    ∀ sf ∈ f.shape.fields, Schema.FieldReads R (Keyed.ofList f.variantPairs)
      (Keyed.get? ((AnyModel.fish f).fullFields b) sf.1) sf := by
  have hG : ∀ k v, (k, v) ∈ f.variantPairs → Keyed.get? (Keyed.ofList f.variantPairs) k = some v :=
    fun k v hp => Keyed.get?_ofList_of_mem (f.keys_variantPairs ▸ f.shape.nodup_fields) hp
  have hcore := FishCore.fieldsRead hR b f fun k v hp => hG k v (by cases f <;> simp_all [variantPairs, core])
  cases f with
  | shark c w =>
    intro sf hsf
    rcases List.mem_append.mp (show sf ∈ [Shape.optText "id", Shape.optText "name", Shape.optInt32 "age",
      Shape.optText "color"] ++ [Shape.optInt32 "weight"] from hsf) with h | h
    · exact hcore sf h
    · rw [List.mem_singleton.mp h, Shape.optInt32]
      exact AnyModel.fieldReads_scalar b "weight" (by simp [AnyModel.members, members])
        (hG _ _ (by simp [variantPairs])) (hR.optInt32 b w)
  | salmon c p =>
    intro sf hsf
    rcases List.mem_append.mp (show sf ∈ [Shape.optText "id", Shape.optText "name", Shape.optInt32 "age",
      Shape.optText "color"] ++ [("partner", .null, .option (.ref .fish))] from hsf) with h | h
    · exact hcore sf h
    · rw [List.mem_singleton.mp h, AnyModel.get?_fullFields_member b
        ⟨"partner", "partner", fun b => p.map fun q => q.write (b || q.tracker.mergePatch)⟩
        (by simp [AnyModel.members, members])]
      cases p with
      | none => exact ⟨.null, rfl, hG _ _ (by simp [variantPairs])⟩
      | some q =>
        -- the partner writes itself in full, as the salmon around it does
        obtain ⟨hq, -⟩ := hwf
        refine ⟨q.checked, hG _ _ (by simp [variantPairs]), ?_⟩
        simpa [hq] using hpartner c q rfl
  | other k c =>
    intro sf hsf
    rcases List.mem_cons.mp hsf with h | h
    · rw [h]
      show Schema.FieldReads R _ (Keyed.get? _ "kind") _
      rw [get?_fullFields_kind]
      exact ⟨.string k, hG _ _ (by simp [variantPairs]), hR.kind k hwf⟩
    · exact hcore sf h

/-- A well-formed fish's full form in key order is read in memory by its kind to its record, with
fuel for four steps for each level of partners. The induction is on the fuel: a partner nests
less than its salmon. -/
theorem ofValue_checked {f : Fish} (hwf : f.WellFormed) {fuel : Nat} (hfuel : 4 * f.toJson.depth + 4 ≤ fuel) :
    Schema.ofValue Shape.schema fuel (.tagged "kind" Shape.ofKind) f.toJson = .ok f.checked := by
  induction fuel using Nat.strong_induction_on generalizing f with
  | _ fuel ih =>
  obtain ⟨n, rfl⟩ : ∃ n, fuel = n + 4 := ⟨fuel - 4, by omega⟩
  have hjson : f.toJson = .object ((AnyModel.fish f).fullFields true) := f.sortIf_write true
  have hkind : f.toJson.get? "kind" = some (.string f.kind) := by
    rw [hjson]
    exact get?_fullFields_kind f true
  have hrecord : Schema.ofValue Shape.schema (n + 3) (Shape.schema (Shape.ofKind f.kind)) f.toJson =
      .ok (.object (Keyed.ofList f.variantPairs)) := by
    rw [ofKind_kind hwf, Shape.schema_eq_record f.shape_ne_fish, hjson]
    refine Schema.ofValue_record (n + 2) ((AnyModel.fish f).nodup_fullFields true) (Keyed.sorted_ofList _)
      (fieldsRead (ScalarReading.ofValue (by omega)) true hwf ?_) (Keyed.get?_ofList_other f.keys_variantPairs)
    rintro c q rfl
    obtain ⟨hq, hwq⟩ := hwf
    have hdepth : q.toJson.depth < (salmon c (some q)).toJson.depth := depth_partner_lt hq true
    show Schema.ofValue Shape.schema (n + 2) (.option (.ref .fish)) q.toJson = .ok q.checked
    rw [Schema.ofValue_option _ _ q.toJson_ne_null, Schema.ofValue_ref]
    exact ih n (by omega) hwq (by omega)
  rw [Schema.ofValue_tagged (n + 3) hkind hrecord, checked_eq, Json.obj, Keyed.ofList_append_singleton]

/-- A well-formed fish's full form, in either order of members, is read by the schema of any fish
to its record: as any value, then in memory by its kind. -/
theorem readsBy_fish (b : Bool) {f : Fish} (hwf : f.WellFormed) {fuel : Nat}
    (hfuel : ((f.write false).sortIf b).depth + 3 ≤ fuel) :
    ReadM.ReadsBy Shape.schema fuel (.ref .fish) ((f.write false).sortIf b) f.checked := by
  obtain ⟨n, rfl⟩ : ∃ n, fuel = n + 2 := ⟨fuel - 2, by omega⟩
  refine ReadM.readsBy_ref (ReadM.readsBy_tagged ((f.canonical_write false).sortIf b) (by omega) ?_)
  · rw [Json.sortIf_normalize]
    have hsize : f.toJson.depth ≤ (f.write false).normalize.size := Json.depth_le_size _
    exact ofValue_checked hwf (by omega)

/-- The same, where a fish may be left out. -/
theorem readsBy_option (b : Bool) {f : Fish} (hwf : f.WellFormed) {fuel : Nat}
    (hfuel : ((f.write false).sortIf b).depth + 4 ≤ fuel) :
    ReadM.ReadsBy Shape.schema fuel (.option (.ref .fish)) ((f.write false).sortIf b) f.checked := by
  obtain ⟨n, rfl⟩ : ∃ n, fuel = n + 1 := ⟨fuel - 1, by omega⟩
  have hf : ReadM.ReadsBy Shape.schema n (.ref .fish) ((f.write false).sortIf b) f.checked :=
    readsBy_fish b hwf (by omega)
  have hnull : (f.write false).sortIf b ≠ .null := by
    rw [sortIf_write]
    simp
  exact @ReadM.readsBy_option Shape Shape.schema n (.ref .fish) _ _ ((f.canonical_write false).sortIf b)
    hnull hf

/-- A well-formed fish's full form, in either order of members, is read by the record of its
variant to the variant's fields. -/
theorem readsBy_variant (b : Bool) {f : Fish} (hwf : f.WellFormed) {fuel : Nat}
    (hfuel : ((f.write false).sortIf b).depth + 4 ≤ fuel) :
    ReadM.ReadsBy Shape.schema fuel (Shape.schema f.shape) ((f.write false).sortIf b)
      (Json.obj f.variantPairs) := by
  obtain ⟨n, rfl⟩ : ∃ n, fuel = n + 1 := ⟨fuel - 1, by omega⟩
  rw [Shape.schema_eq_record f.shape_ne_fish, sortIf_write]
  refine ReadM.readsBy_record ((AnyModel.fish f).nodup_fullFields b) (Keyed.sorted_ofList _)
    (fieldsRead (ScalarReading.readsBy (by omega)) b hwf ?_) ?_ (Keyed.get?_ofList_other f.keys_variantPairs)
  · rintro c q rfl
    obtain ⟨hq, hwq⟩ := hwf
    have hdepth := depth_partner_lt (c := c) hq b
    show ReadM.ReadsBy Shape.schema n (.option (.ref .fish)) ((q.write false).sortIf b) q.checked
    exact readsBy_option b hwq (by omega)
  · -- every member but the kind is a field; the kind of a shark or a salmon is passed over
    refine AnyModel.skips_of_fields (wire_mem_fields f) fun r hr hnot => ?_
    obtain rfl := List.mem_singleton.mp hr
    show ReadM.Skips ((Json.string f.kind).sortIf b)
    rw [Json.sortIf_string]
    cases f with
    | shark => exact ReadM.skips_plain (by simp [Json.plainChar, kind])
    | salmon => exact ReadM.skips_plain (by simp [Json.plainChar, kind])
    | other k c => exact (hnot _ List.mem_cons_self rfl).elim

end Fish

/-! ## Inner models -/

namespace InnerModel

theorem sortIf_write (m : InnerModel) (b : Bool) :
    (m.write false).sortIf b = .object ((AnyModel.inner m).fullFields b) :=
  (AnyModel.inner m).sortIf_write b

/-- An inner model's full form, in either order of members, is read by its record to its fields. -/
theorem readsBy (b : Bool) (m : InnerModel) {fuel : Nat} (hfuel : 3 ≤ fuel) :
    ReadM.ReadsBy Shape.schema fuel (Shape.schema .innerModel) ((m.write false).sortIf b) m.checked := by
  obtain ⟨n, rfl⟩ : ∃ n, fuel = n + 1 := ⟨fuel - 1, by omega⟩
  have hR : ScalarReading (ReadM.ReadsBy Shape.schema n) := ScalarReading.readsBy (by omega)
  have hG : ∀ k v, (k, v) ∈ [("name", (optString m.name).getD .null),
      ("description", (optString m.description).getD .null)] →
      Keyed.get? (Keyed.ofList [("name", (optString m.name).getD .null),
        ("description", (optString m.description).getD .null)]) k = some v :=
    fun k v hp => Keyed.get?_ofList_of_mem (by simp) hp
  rw [Shape.schema_eq_record (by decide), sortIf_write]
  show ReadM.ReadsBy _ _ _ _ (.object (Keyed.ofList _))
  refine ReadM.readsBy_record ((AnyModel.inner m).nodup_fullFields b) (Keyed.sorted_ofList _) ?_ ?_ ?_
  rotate_left
  · exact AnyModel.skips_of_fields (by simp [AnyModel.members, members, Member.scalar, Shape.fields,
      Shape.schema, Shape.optText]) fun q hq => by cases hq
  · exact Keyed.get?_ofList_other rfl
  simp only [Shape.fields, Shape.schema, List.mem_cons, List.not_mem_nil, or_false, forall_eq_or_imp,
    forall_eq, Shape.optText]
  exact ⟨AnyModel.fieldReads_scalar b "name" (by simp [AnyModel.members, members]) (hG _ _ (by simp))
      (hR.optString b m.name),
    AnyModel.fieldReads_scalar b "description" (by simp [AnyModel.members, members]) (hG _ _ (by simp))
      (hR.optString b m.description)⟩

/-- The same, where an inner model may be left out. -/
theorem readsBy_option (b : Bool) (m : InnerModel) {fuel : Nat} (hfuel : 5 ≤ fuel) :
    ReadM.ReadsBy Shape.schema fuel (.option (.ref .innerModel)) ((m.write false).sortIf b) m.checked := by
  obtain ⟨n, rfl⟩ : ∃ n, fuel = n + 2 := ⟨fuel - 2, by omega⟩
  have hm : ReadM.ReadsBy Shape.schema (n + 1) (.ref .innerModel) ((m.write false).sortIf b) m.checked :=
    ReadM.readsBy_ref (readsBy b m (by omega))
  have hnull : (m.write false).sortIf b ≠ .null := by
    rw [sortIf_write]
    simp
  exact @ReadM.readsBy_option Shape Shape.schema (n + 1) (.ref .innerModel) _ _
    ((m.canonical_write false).sortIf b) hnull hm

end InnerModel

/-! ## Resources -/

namespace ReadM

theorem optInt64_reads {fuel : Nat} (h : 2 ≤ fuel) (b : Bool) (v : Option Int64) :
    ∀ x ∈ optInt64 v, x.sortIf b = x ∧ ReadsBy Shape.schema fuel (.option (.int .i64)) x x := by
  intro x hx
  simp only [optInt64, Option.mem_def, Option.map_eq_some_iff] at hx
  obtain ⟨i, -, rfl⟩ := hx
  obtain ⟨h64lo, h64hi, hlo, hhi⟩ := Int64.fits i
  exact ⟨Json.sortIf_int b _, readsBy_optInt h .i64 hlo hhi h64lo h64hi⟩

end ReadM

namespace Resource

/-- A resource whose full form reads back to itself: its nested models write themselves in full,
its map is in key order, its enumerated value is in the form its text reads to, and its fish is
well formed. -/
structure WellFormed (r : Resource) : Prop where
  map : ∀ es ∈ r.map, Keyed.Sorted es ∧ ∀ p ∈ es, ∀ m ∈ p.2, m.tracker.mergePatch = false
  enumValue : ∀ e ∈ r.enumValue, EnumValue.ofString e.asString = e
  innerModelProperty : ∀ m ∈ r.innerModelProperty, m.tracker.mergePatch = false
  array : ∀ xs ∈ r.array, ∀ m ∈ xs, m.tracker.mergePatch = false
  fish : ∀ f ∈ r.fish, f.tracker.mergePatch = false ∧ f.WellFormed

/-- The entries of a map as its record reads them: each model as the record it reads to, a
missing one as `null`. -/
def checkedEntries (es : Keyed (Option InnerModel)) : List (String × Json) :=
  es.map fun p => (p.1, (p.2.map InnerModel.checked).getD .null)

/-- The fields of a resource as its record reads them: each as written, `null` where unset, each
nested model as the record it reads to; the `id` and `name` are never written. -/
def checkedPairs (r : Resource) : List (String × Json) :=
  [("id", .null), ("name", .null), ("description", (optString r.description).getD .null),
    ("map", (r.map.map fun es => Json.object (checkedEntries es)).getD .null),
    ("longValue", (optInt64 r.longValue).getD .null), ("intValue", (optInt32 r.intValue).getD .null),
    ("enumValue", (r.enumValue.map fun e => Json.string e.asString).getD .null),
    ("wireNameForInnerModelProperty", (r.innerModelProperty.map InnerModel.checked).getD .null),
    ("array", (r.array.map fun xs => Json.array (xs.map InnerModel.checked)).getD .null),
    ("fish", (r.fish.map Fish.checked).getD .null)]

/-- The record a resource's full form reads to. -/
def checked (r : Resource) : Json := Json.obj r.checkedPairs

/-- A map in key order keeps its order when its members are put in key order. -/
theorem sortIf_writeMap {es : Keyed (Option InnerModel)} (hs : Keyed.Sorted es) (b : Bool) :
    (writeMap es false).sortIf b = .object (es.map fun p => (p.1, (entryJson false p.2).sortIf b)) := by
  rw [writeMap_eq]
  cases b
  · simp
  · have hsorted : Keyed.Sorted (es.map fun p => (p.1, (entryJson false p.2).normalize)) :=
      List.Pairwise.map _ (fun _ _ h => h) hs
    rw [Json.sortIf_true, Json.normalize_object, Json.normalizeFields_eq_map, List.map_map]
    exact congrArg Json.object (Keyed.ofList_of_sorted hsorted)

/-- A map in key order whose models write themselves in full is read entry by entry. -/
theorem readsBy_map (b : Bool) {es : Keyed (Option InnerModel)} (hs : Keyed.Sorted es)
    (hm : ∀ p ∈ es, ∀ m ∈ p.2, m.tracker.mergePatch = false) {fuel : Nat} (hfuel : 7 ≤ fuel) :
    ReadM.ReadsBy Shape.schema fuel (.option (.dict (.option (.ref .innerModel))))
      ((writeMap es false).sortIf b) (.object (checkedEntries es)) := by
  obtain ⟨n, rfl⟩ : ∃ n, fuel = n + 2 := ⟨fuel - 2, by omega⟩
  have hcan := (canonical_writeMap es false).sortIf b
  rw [sortIf_writeMap hs] at hcan ⊢
  have hsorted : Keyed.Sorted (checkedEntries es) := List.Pairwise.map _ (fun _ _ h => h) hs
  have hread : List.Forall₂ (fun p q => p.1 = q.1 ∧
      ReadM.ReadsBy Shape.schema n (.option (.ref .innerModel)) p.2 q.2)
      (es.map fun p => (p.1, (entryJson false p.2).sortIf b)) (checkedEntries es) := by
    unfold checkedEntries
    rw [List.forall₂_map_left_iff, List.forall₂_map_right_iff]
    refine List.forall₂_same.mpr fun p hp => ⟨rfl, ?_⟩
    rcases p with ⟨k, _ | m⟩
    · -- a missing model is written and read as `null`
      obtain ⟨n', rfl⟩ : ∃ n', n = n' + 1 := ⟨n - 1, by omega⟩
      show ReadM.ReadsBy Shape.schema (n' + 1) (.option (.ref .innerModel)) ((entryJson false none).sortIf b) .null
      rw [show entryJson false none = .null from rfl, Json.sortIf_null]
      exact ReadM.readsBy_null
    · show ReadM.ReadsBy Shape.schema n (.option (.ref .innerModel))
        ((m.write m.tracker.mergePatch).sortIf b) m.checked
      rw [hm _ hp m rfl]
      exact InnerModel.readsBy_option b m (by omega)
  have hdict : ReadM.ReadsBy Shape.schema (n + 1) (.dict (.option (.ref .innerModel)))
      (.object (es.map fun p => (p.1, (entryJson false p.2).sortIf b)))
      (.object (Keyed.ofList (checkedEntries es))) := ReadM.readsBy_dict hread
  rw [Keyed.ofList_of_sorted hsorted] at hdict
  exact @ReadM.readsBy_option Shape Shape.schema (n + 1) _ _ _ hcan (by simp) hdict

/-- An array of inner models that write themselves in full is read element by element. -/
theorem readsBy_array (b : Bool) {xs : List InnerModel} (hm : ∀ m ∈ xs, m.tracker.mergePatch = false)
    {fuel : Nat} (hfuel : 6 ≤ fuel) :
    ReadM.ReadsBy Shape.schema fuel (.option (.seq (.ref .innerModel)))
      ((Json.array (xs.map InnerModel.writeOwn)).sortIf b) (.array (xs.map InnerModel.checked)) := by
  obtain ⟨n, rfl⟩ : ∃ n, fuel = n + 2 := ⟨fuel - 2, by omega⟩
  rw [Json.sortIf_array, List.map_map]
  have hcan : ∀ x ∈ xs.map (Json.sortIf b ∘ InnerModel.writeOwn), x.Canonical := by
    intro x hx
    obtain ⟨m, -, rfl⟩ := List.mem_map.mp hx
    exact (m.canonical_write _).sortIf b
  have hread : List.Forall₂ (ReadM.ReadsBy Shape.schema n (.ref .innerModel))
      (xs.map (Json.sortIf b ∘ InnerModel.writeOwn)) (xs.map InnerModel.checked) := by
    rw [List.forall₂_map_left_iff, List.forall₂_map_right_iff]
    refine List.forall₂_same.mpr fun m hmx => ?_
    obtain ⟨n', rfl⟩ : ∃ n', n = n' + 1 := ⟨n - 1, by omega⟩
    show ReadM.ReadsBy Shape.schema (n' + 1) (.ref .innerModel) ((m.write m.tracker.mergePatch).sortIf b)
      m.checked
    rw [hm m hmx]
    exact ReadM.readsBy_ref (InnerModel.readsBy b m (by omega))
  have hseq : ReadM.ReadsBy Shape.schema (n + 1) (.seq (.ref .innerModel))
      (.array (xs.map (Json.sortIf b ∘ InnerModel.writeOwn))) (.array (xs.map InnerModel.checked)) :=
    ReadM.readsBy_seq hread hcan
  exact @ReadM.readsBy_option Shape Shape.schema (n + 1) _ _ _ (.array hcan) (by simp) hseq

theorem sortIf_write (r : Resource) (b : Bool) :
    (r.write false).sortIf b = .object ((AnyModel.resource r).fullFields b) :=
  (AnyModel.resource r).sortIf_write b

/-- A resource's fish nests less than the resource. -/
theorem depth_fish_lt {r : Resource} {f : Fish} (hf : r.fish = some f) (hq : f.tracker.mergePatch = false)
    (b : Bool) : ((f.write false).sortIf b).depth < ((r.write false).sortIf b).depth :=
  AnyModel.depth_lt_of_get? (m := .resource r) (k := "fish") (by
    rw [AnyModel.get?_fullFields_member b
      ⟨"fish", "fish", fun b => r.fish.map fun f => f.write (b || f.tracker.mergePatch)⟩
      (by simp [AnyModel.members, members])]
    simp [hf, hq])

/-- A well-formed resource's full form, in either order of members, is read by its record to the
record of its fields, one case for each field. -/
theorem readsBy (b : Bool) {r : Resource} (hwf : r.WellFormed) {fuel : Nat}
    (hfuel : ((r.write false).sortIf b).depth + 8 ≤ fuel) :
    ReadM.ReadsBy Shape.schema fuel (Shape.schema .resource) ((r.write false).sortIf b) r.checked := by
  obtain ⟨n, rfl⟩ : ∃ n, fuel = n + 1 := ⟨fuel - 1, by omega⟩
  have hR : ScalarReading (ReadM.ReadsBy Shape.schema n) := ScalarReading.readsBy (by omega)
  have hG : ∀ k v, (k, v) ∈ r.checkedPairs → Keyed.get? (Keyed.ofList r.checkedPairs) k = some v :=
    fun k v hp => Keyed.get?_ofList_of_mem (by simp [checkedPairs]) hp
  have hunwritten : ∀ k ∈ ["id", "name"], Keyed.get? ((AnyModel.resource r).fullFields b) k = none := by
    intro k hk
    refine AnyModel.get?_fullFields_of_not_mem b ?_
    simp only [List.mem_cons, List.not_mem_nil, or_false] at hk
    rcases hk with rfl | rfl <;> simp [AnyModel.fixed, AnyModel.members, members, Member.scalar]
  rw [Shape.schema_eq_record (by decide), sortIf_write]
  show ReadM.ReadsBy _ _ _ _ (.object (Keyed.ofList _))
  refine ReadM.readsBy_record ((AnyModel.resource r).nodup_fullFields b) (Keyed.sorted_ofList _) ?_ ?_ ?_
  rotate_left
  · exact AnyModel.skips_of_fields
      (by simp [AnyModel.members, members, Member.scalar, Shape.fields, Shape.schema, Shape.optText,
        Shape.optInt32]) fun q hq => by cases hq
  · exact Keyed.get?_ofList_other rfl
  simp only [Shape.fields, Shape.schema, List.mem_cons, List.not_mem_nil, or_false, forall_eq_or_imp,
    forall_eq, Shape.optText, Shape.optInt32]
  refine ⟨?_, ?_, ?_, ?_, ?_, ?_, ?_, ?_, ?_, ?_⟩
  · -- id
    rw [hunwritten "id" (by simp)]
    exact ⟨.null, rfl, hG _ _ (by simp [checkedPairs])⟩
  · -- name
    rw [hunwritten "name" (by simp)]
    exact ⟨.null, rfl, hG _ _ (by simp [checkedPairs])⟩
  · exact AnyModel.fieldReads_scalar b "description" (by simp [AnyModel.members, members])
      (hG _ _ (by simp [checkedPairs])) (hR.optString b r.description)
  · exact AnyModel.fieldReads_member b ⟨"map", "map", fun b => r.map.map (writeMap · b)⟩
      (fun es => .object (checkedEntries es)) (by simp [AnyModel.members, members]) rfl
      (hG _ _ (by simp [checkedPairs])) fun es hes =>
        readsBy_map b (hwf.map es hes).1 (hwf.map es hes).2 (by omega)
  · exact AnyModel.fieldReads_scalar b "longValue" (by simp [AnyModel.members, members])
      (hG _ _ (by simp [checkedPairs])) (ReadM.optInt64_reads (by omega) b r.longValue)
  · exact AnyModel.fieldReads_scalar b "intValue" (by simp [AnyModel.members, members])
      (hG _ _ (by simp [checkedPairs])) (hR.optInt32 b r.intValue)
  · refine AnyModel.fieldReads_scalar b "enumValue" (v := r.enumValue.map fun e => .string e.asString)
      (by simp [AnyModel.members, members])
      (hG _ _ (by simp [checkedPairs])) fun x hx => ?_
    obtain ⟨e, -, rfl⟩ := Option.map_eq_some_iff.mp hx
    exact ⟨Json.sortIf_string b _, hR.text _⟩
  · refine AnyModel.fieldReads_member b ⟨"innerModelProperty", "wireNameForInnerModelProperty",
      fun b => r.innerModelProperty.map fun m => m.write (b || m.tracker.mergePatch)⟩ InnerModel.checked
      (by simp [AnyModel.members, members]) rfl (hG _ _ (by simp [checkedPairs])) fun m hm => ?_
    show ReadM.ReadsBy Shape.schema n _ ((m.write (false || m.tracker.mergePatch)).sortIf b) m.checked
    rw [hwf.innerModelProperty m hm]
    exact InnerModel.readsBy_option b m (by omega)
  · exact AnyModel.fieldReads_member b (.scalar "array" "array" (r.array.map fun xs =>
      .array (xs.map InnerModel.writeOwn))) (fun xs => .array (xs.map InnerModel.checked))
      (by simp [AnyModel.members, members]) rfl (hG _ _ (by simp [checkedPairs, Member.scalar])) fun xs hxs =>
        readsBy_array b (hwf.array xs hxs) (by omega)
  · refine AnyModel.fieldReads_member b ⟨"fish", "fish",
      fun b => r.fish.map fun f => f.write (b || f.tracker.mergePatch)⟩ Fish.checked
      (by simp [AnyModel.members, members]) rfl (hG _ _ (by simp [checkedPairs])) fun f hf => ?_
    obtain ⟨hq, hwq⟩ := hwf.fish f hf
    have hdepth := depth_fish_lt hf hq b
    show ReadM.ReadsBy Shape.schema n _ ((f.write (false || f.tracker.mergePatch)).sortIf b) f.checked
    rw [hq]
    exact Fish.readsBy_option b hwq (by omega)

end Resource

end MergePatch
