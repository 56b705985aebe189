import Mathlib
import MergePatch.Proofs.FullRoundTrip
import MergePatch.Proofs.Commute
import MergePatch.Proofs.PatchLaws

/-!
# Models built member by member

A nested model assigned whole is built from the value by assigning the value's members in turn
(`InnerModel.ofTracked`, `Fish.ofTracked`); a model read from text is built by the schema reader
instead. This module shows that the two agree: the record the value reads to is the record of
the model built, and the model built has assigned exactly the value's members
(`tracked_construction_reads_alike`).

A fish assigns each member as a path, so a member whose name holds a dot reaches into the
partner instead of naming a field, where the reader puts it aside. The agreement therefore holds
for values whose member names have no dot (`Json.PlainNames`), and
`dotted_member_assigned_as_path` shows a salmon where it fails. Numbers are integers held in
their kind (`Json.Canonical`), as the reader builds them.

The fish half goes by induction on the depth of the value (`Fish.builtFrom_ofTracked`). Each
member is assigned to a field of its own (`Fish.setAll_fields`). A field no member names keeps
what a new fish holds (`Fish.setAll_sameAt`). The partner is built from a member, which nests
less.
-/
namespace MergePatch

namespace Json

/-- No member name of the value, at any depth, has a dot: each names a field, none a path. -/
inductive PlainNames : Json → Prop
  | null : PlainNames .null
  | bool (b : Bool) : PlainNames (.bool b)
  | number (n : Number) : PlainNames (.number n)
  | string (s : String) : PlainNames (.string s)
  | array {items : List Json} : (∀ x ∈ items, PlainNames x) → PlainNames (.array items)
  | object {fields : Fields} : (∀ p ∈ fields, '.' ∉ p.1.toList) → (∀ p ∈ fields, PlainNames p.2) →
      PlainNames (.object fields)

/-- The names of an object's members but `kind`, in order: the fields a model built from it
assigns. -/
def memberNames : Json → List String
  | .object fs => (fs.map Prod.fst).filter (· != "kind")
  | _ => []

theorem Canonical.numberInKind {j : Json} (h : j.Canonical) : j.NumberInKind := by
  rintro n rfl
  cases h with
  | number hn =>
    cases n with
    | nat _ => trivial
    | neg _ => exact hn
    | float _ => exact hn.elim

end Json

theorem Names.insert_of_lt {ns : Names} {n : String} (h : ∀ m ∈ ns, m < n) :
    Names.insert ns n = ns ++ [n] := by
  induction ns with
  | nil => rfl
  | cons m rest ih =>
    have hm : m < n := h m List.mem_cons_self
    simp only [Names.insert, not_lt_of_gt hm, ne_of_gt hm, ↓reduceIte, List.cons_append,
      ih fun x hx => h x (List.mem_cons_of_mem _ hx)]

/-- Names inserted in increasing order, each above all before, are kept in that order. -/
theorem Names.foldl_insert {ns ks : Names} (h : (ns ++ ks).Pairwise (· < ·)) :
    ks.foldl Names.insert ns = ns ++ ks := by
  induction ks generalizing ns with
  | nil => simp
  | cons k rest ih =>
    have hk : ∀ m ∈ ns, m < k := fun m hm => (List.pairwise_append.mp h).2.2 m hm k List.mem_cons_self
    rw [List.foldl_cons, Names.insert_of_lt hk, ih (by simpa using h)]
    simp

/-! ## Inner models -/

namespace InnerModel

theorem Sets.tracker_mark {v : Json} {m m' : InnerModel} {p : String} (h : Sets v m p m') :
    m'.tracker = m.tracker.mark p := by
  cases h <;> rfl

/-- Assigning members in turn marks their names in turn. -/
theorem setAll_tracker_eq {m m' : InnerModel} {fs : Fields} (h : m.setAll fs = .ok m') :
    m'.tracker = { m.tracker with assigned := (fs.map Prod.fst).foldl Names.insert m.tracker.assigned } := by
  induction fs generalizing m with
  | nil =>
    cases h
    rfl
  | cons p rest ih =>
    obtain ⟨m₁, h₁, h₂⟩ := Except.bind_ok_inv h
    rw [ih h₂, (set_ok h₁).tracker_mark]
    rfl

/-- A field no member names keeps what it held. -/
theorem setAll_get_of_not_mem {m m' : InnerModel} {fs : Fields} (h : m.setAll fs = .ok m')
    {q : String} (hq : q ∉ fs.map Prod.fst) : m'.get q = m.get q := by
  induction fs generalizing m with
  | nil =>
    cases h
    rfl
  | cons p rest ih =>
    obtain ⟨m₁, h₁, h₂⟩ := Except.bind_ok_inv h
    rw [List.map_cons, List.mem_cons, not_or] at hq
    rw [ih h₂ hq.2, (set_ok h₁).get_of_ne hq.1]

/-- A member reads back, once the members name distinct fields. -/
theorem setAll_get_of_mem {m m' : InnerModel} {fs : Fields} (h : m.setAll fs = .ok m')
    (hnd : (fs.map Prod.fst).Nodup) {p : String × Json} (hp : p ∈ fs) : m'.get p.1 = .ok p.2 := by
  induction fs generalizing m with
  | nil => cases hp
  | cons p₀ rest ih =>
    obtain ⟨m₁, h₁, h₂⟩ := Except.bind_ok_inv h
    rw [List.map_cons, List.nodup_cons] at hnd
    rcases List.mem_cons.mp hp with rfl | hp
    · rw [setAll_get_of_not_mem h₂ hnd.1]
      exact get_set h₁
    · exact ih h₂ hnd.2 hp

/-- Every member names a field of an inner model. -/
theorem setAll_names {m m' : InnerModel} {fs : Fields} (h : m.setAll fs = .ok m') :
    ∀ p ∈ fs, p.1 ∈ fieldNames := by
  induction fs generalizing m with
  | nil => exact fun _ hp => absurd hp List.not_mem_nil
  | cons p₀ rest ih =>
    obtain ⟨k, x⟩ := p₀
    obtain ⟨m₁, h₁, h₂⟩ := Except.bind_ok_inv h
    intro p hp
    rcases List.mem_cons.mp hp with rfl | hp
    · cases set_ok h₁ <;> simp [fieldNames]
    · exact ih h₂ p hp

/-- A new inner model given the members `fs` in turn reads under each field the member of that
name, `null` where there is none. -/
theorem setAll_get {m : InnerModel} {fs : Fields} (h : ({} : InnerModel).setAll fs = .ok m)
    (hnd : (fs.map Prod.fst).Nodup) {q : String} (hq : q ∈ fieldNames) :
    m.get q = .ok ((Keyed.get? fs q).getD .null) := by
  cases hx : Keyed.get? fs q with
  | none =>
    have hnot : q ∉ fs.map Prod.fst := fun hmem => by
      obtain ⟨p, hp, rfl⟩ := List.mem_map.mp hmem
      rw [Keyed.get?_of_mem hnd hp] at hx
      cases hx
    rw [setAll_get_of_not_mem h hnot]
    exact get_empty hq
  | some x => exact setAll_get_of_mem h hnd (Keyed.get?_eq_some_mem hx)

end InnerModel

/-! ## Members read by the record of a model -/

theorem optString_getD (v : Option String) : (optString v).getD .null = Json.ofOption .string v := by
  cases v <;> rfl

theorem optInt32_getD (v : Option Int32) :
    (optInt32 v).getD .null = Json.ofOption (fun i => Json.int i.toInt) v := by
  cases v <;> rfl

/-- An optional string, as JSON, is read as it is. -/
theorem ofValue_ofOption_string {fuel : Nat} (h : 2 ≤ fuel) (v : Option String) :
    Schema.ofValue Shape.schema fuel (.option .string) (Json.ofOption .string v) =
      .ok (Json.ofOption .string v) := by
  obtain ⟨n, rfl⟩ : ∃ n, fuel = n + 1 := ⟨fuel - 1, by omega⟩
  cases v with
  | none => exact Schema.ofValue_null _ _
  | some s => exact (ScalarReading.ofValue h).text s

/-- An optional 32-bit integer, as JSON, is read as it is. -/
theorem ofValue_ofOption_int32 {fuel : Nat} (h : 2 ≤ fuel) (v : Option Int32) :
    Schema.ofValue Shape.schema fuel (.option (.int .i32)) (Json.ofOption (fun i => Json.int i.toInt) v) =
      .ok (Json.ofOption (fun i => Json.int i.toInt) v) := by
  obtain ⟨n, rfl⟩ : ∃ n, fuel = n + 1 := ⟨fuel - 1, by omega⟩
  cases v with
  | none => exact Schema.ofValue_null _ _
  | some x => exact (ScalarReading.ofValue h).int32 x

/-- An optional field whose record entry is its member as it is, `null` where it is left out. -/
theorem Schema.fieldReads_member {ν : Type} {R : Schema ν → Json → Json → Prop} {G fs : Fields}
    {sf : String × Absent × Schema ν} (hsf : sf.2.1 = .null)
    (hG : Keyed.get? G sf.1 = some ((Keyed.get? fs sf.1).getD .null))
    (hR : ∀ x, Keyed.get? fs sf.1 = some x → R sf.2.2 x x) :
    Schema.FieldReads R G (Keyed.get? fs sf.1) sf := by
  cases hx : Keyed.get? fs sf.1 with
  | none =>
    rw [hx] at hG
    exact ⟨.null, by rw [hsf]; rfl, hG⟩
  | some x =>
    rw [hx] at hG
    exact ⟨x, hG, hR x hx⟩

namespace InnerModel

/-- The record of an inner model holds each field as the model reads it. -/
theorem get?_checked {m : InnerModel} {q : String} {v : Json} (hq : q ∈ fieldNames)
    (h : m.get q = .ok v) : m.checked.get? q = some v := by
  simp only [fieldNames, List.mem_cons, List.not_mem_nil, or_false] at hq
  rcases hq with rfl | rfl
  · simp only [get, ↓reduceIte, Except.ok.injEq] at h
    rw [← h, ← optString_getD]
    exact Json.get?_obj_of_mem (by simp) (by simp)
  · simp only [get, String.reduceEq, ↓reduceIte, Except.ok.injEq] at h
    rw [← h, ← optString_getD]
    exact Json.get?_obj_of_mem (by simp) (by simp)

/-- What an inner model reads under a field is an optional string, read as it is. -/
theorem ofValue_of_get {m : InnerModel} {q : String} {v : Json} (h : m.get q = .ok v) {fuel : Nat}
    (hfuel : 2 ≤ fuel) : Schema.ofValue Shape.schema fuel (.option .string) v = .ok v := by
  unfold get at h
  split_ifs at h
  · cases h
    exact ofValue_ofOption_string hfuel _
  · cases h
    exact ofValue_ofOption_string hfuel _

/-- The record a new inner model given the members `fs` reads from: the record of the model. -/
theorem ofValue_of_setAll {m : InnerModel} {fs : Fields} (h : ({} : InnerModel).setAll fs = .ok m)
    (hs : Keyed.Sorted fs) {fuel : Nat} (hfuel : 3 ≤ fuel) :
    Schema.ofValue Shape.schema fuel (Shape.schema .innerModel) (.object fs) = .ok m.checked := by
  obtain ⟨n, rfl⟩ : ∃ n, fuel = n + 1 := ⟨fuel - 1, by omega⟩
  have hnd := hs.keys_nodup
  refine Schema.ofValue_record n hnd (Keyed.sorted_ofList _) ?_ (Keyed.get?_ofList_other rfl)
  -- each field holds the member of its name, or `null`, and reads it as it is
  intro sf hsf
  simp only [Shape.optText, List.mem_cons, List.not_mem_nil, or_false] at hsf
  obtain ⟨hq, hsf⟩ : sf.1 ∈ fieldNames ∧ sf.2 = (.null, .option .string) := by
    rcases hsf with rfl | rfl <;> exact ⟨by decide, rfl⟩
  have hget := setAll_get h hnd hq
  refine Schema.fieldReads_member (by rw [hsf]) (get?_checked hq hget) fun x hx => ?_
  rw [hx, Option.getD_some] at hget
  rw [hsf]
  exact ofValue_of_get hget (by omega)

/-- A model built from a value by assigning its members: what it reads from its schema's record, and
what it has assigned. -/
theorem ofTracked_reads {field : String} {o : Json} {m : InnerModel} (ho : o.Ordered)
    (h : ofTracked field o = .ok (some m)) :
    readShape (.ref .innerModel) o = .ok m.checked ∧ m.tracker = { assigned := o.memberNames } := by
  cases o with
  | object fs =>
    obtain ⟨m', hset, hm⟩ := Except.map_ok_inv h
    cases hm
    have hs := ho.sorted
    refine ⟨?_, ?_⟩
    · unfold readShape Schema.read
      rw [Schema.ofValue_ref]
      exact ofValue_of_setAll hset hs (by omega)
    · -- the members, all fields and none `kind`, are marked in increasing order
      have hkeys : ((fs.map Prod.fst).filter (· != "kind")) = fs.map Prod.fst := by
        refine List.filter_eq_self.mpr fun k hk => ?_
        obtain ⟨p, hp, rfl⟩ := List.mem_map.mp hk
        have := setAll_names hset p hp
        simp only [fieldNames, List.mem_cons, List.not_mem_nil, or_false] at this
        rcases this with h' | h' <;> simp [h']
      have hsorted : ([] ++ fs.map Prod.fst).Pairwise (· < ·) := List.pairwise_map.mpr hs
      rw [setAll_tracker_eq hset, Json.memberNames, hkeys, Names.foldl_insert hsorted]
      rfl
  | null => cases h
  | bool _ | number _ | string _ | array _ => cases h

end InnerModel

/-! ## Fish -/

/-- A name without a dot is its own head. -/
theorem pathHead_of_plain {k : String} (hk : '.' ∉ k.toList) : pathHead k = k :=
  pathHead_of_splitOnce_none (splitOnce_eq_none hk)

/-- A name without a dot goes into no partner. -/
theorem dropPrefix?_partner_of_plain {k : String} (hk : '.' ∉ k.toList) :
    dropPrefix? k "partner." = none := by
  cases h : dropPrefix? k "partner." with
  | none => rfl
  | some rest =>
    rw [eq_of_dropPrefix? h, String.toList_append] at hk
    exact absurd (List.mem_append_left _ (by decide)) hk

/-- Two distinct names without a dot reach into neither. -/
theorem not_segmentPrefix_of_plain {p q : String} (hq : '.' ∉ q.toList) (hne : q ≠ p) :
    ¬ SegmentPrefix p q := by
  rintro (h | ⟨rest, h⟩)
  · exact hne h
  · apply hq
    rw [h]
    simp

theorem Shape.isModelledKind_of_ofKind {k : String} (h : Shape.ofKind k = .otherFish) :
    Shape.isModelledKind k = false := by
  unfold Shape.ofKind at h
  split_ifs at h with h₁ h₂
  simp [Shape.isModelledKind, h₁, h₂]

namespace Fish

theorem shape_withCore (f : Fish) (c : FishCore) : (f.withCore c).shape = f.shape := by
  cases f <;> rfl

/-- An assignment keeps the variant of a fish. -/
theorem Sets.shape {v : Json} {f f' : Fish} {p : String} (h : Sets v f p f') : f'.shape = f.shape := by
  cases h with
  | common hc =>
    cases hc with
    | name f j _ | age f j _ | color f j _ => exact shape_withCore f _
    | weight c w j _ => rfl
  | partner c p np _ => rfl
  | throughPartner c q q' p rest _ _ _ => rfl

/-- The partner assigned whole is the fish built from the value. -/
theorem Sets.partner_of_eq {v : Json} {f f' : Fish} {p : String} (h : Sets v f p f') (hp : p = "partner") :
    ∃ np, ofTracked "partner" v = .ok np ∧ f'.partner? = np := by
  cases h with
  | common hc => cases hc <;> simp at hp
  | partner c p np hnp => exact ⟨np, hnp, rfl⟩
  | throughPartner c q q' field rest hd _ _ =>
    subst hp
    cases hd

section Members

variable {f f' : Fish} {fs : Fields}

/-- Assigning members in turn, `kind` apart, marks their names in turn. -/
theorem setAll_tracker_eq (h : f.setAll fs = .ok f') (hplain : ∀ p ∈ fs, '.' ∉ p.1.toList) :
    f'.tracker = { f.tracker with
      assigned := ((fs.map Prod.fst).filter (· != "kind")).foldl Names.insert f.tracker.assigned } := by
  induction fs generalizing f with
  | nil =>
    rw [setAll] at h
    cases h
    rfl
  | cons p rest ih =>
    obtain ⟨k, x⟩ := p
    have hrest := fun p hp => hplain p (List.mem_cons_of_mem _ hp)
    rw [setAll] at h
    split_ifs at h with hk
    · rw [ih h hrest]
      simp [hk]
    · obtain ⟨f₁, h₁, h₂⟩ := Except.bind_ok_inv h
      rw [ih h₂ hrest, (setMember_ok h₁).tracker, pathHead_of_plain (hplain (k, x) List.mem_cons_self)]
      simp [hk, Tracker.mark]

/-- Assigning members in turn leaves alone every top-level field no member goes through. -/
theorem setAll_sameAt (h : f.setAll fs = .ok f') {a : String}
    (ha : ∀ p ∈ fs, p.1 ≠ "kind" → a ≠ pathHead p.1) : SameAt f f' a := by
  induction fs generalizing f with
  | nil =>
    rw [setAll] at h
    cases h
    exact (sameAt_equivalence a).refl _
  | cons p rest ih =>
    obtain ⟨k, x⟩ := p
    have hrest := fun p hp => ha p (List.mem_cons_of_mem _ hp)
    rw [setAll] at h
    split_ifs at h with hk
    · exact ih h hrest
    · obtain ⟨f₁, h₁, h₂⟩ := Except.bind_ok_inv h
      exact (sameAt_equivalence a).trans ((setMember_ok h₁).sameAt (ha (k, x) List.mem_cons_self hk))
        (ih h₂ hrest)

/-- Every member but `kind` names a field of the fish, and the fish keeps its variant. -/
theorem setAll_fields (h : f.setAll fs = .ok f') (hplain : ∀ p ∈ fs, '.' ∉ p.1.toList) :
    f'.shape = f.shape ∧ f'.kind = f.kind ∧ ∀ p ∈ fs, p.1 ≠ "kind" → p.1 ∈ f.fieldNames := by
  induction fs generalizing f with
  | nil =>
    rw [setAll] at h
    cases h
    exact ⟨rfl, rfl, fun _ hp => absurd hp List.not_mem_nil⟩
  | cons p rest ih =>
    obtain ⟨k, x⟩ := p
    have hrest := fun p hp => hplain p (List.mem_cons_of_mem _ hp)
    rw [setAll] at h
    split_ifs at h with hk
    · obtain ⟨hshape, hkind, hnames⟩ := ih h hrest
      refine ⟨hshape, hkind, fun p hp hpk => ?_⟩
      rcases List.mem_cons.mp hp with rfl | hp
      · exact absurd hk hpk
      · exact hnames p hp hpk
    · obtain ⟨f₁, h₁, h₂⟩ := Except.bind_ok_inv h
      have hs := setMember_ok h₁
      obtain ⟨hshape, hkind, hnames⟩ := ih h₂ hrest
      obtain ⟨hfields, hhead⟩ := hs.fields
      refine ⟨hshape.trans hs.shape, hkind.trans hs.kind, fun p hp hpk => ?_⟩
      rcases List.mem_cons.mp hp with rfl | hp
      · rwa [pathHead_of_plain (hplain (k, x) List.mem_cons_self)] at hhead
      · rw [← hfields]
        exact hnames p hp hpk

/-- A field without a dot that no member names reads as before. -/
theorem setAll_getMember_of_not_mem (h : f.setAll fs = .ok f') (hplain : ∀ p ∈ fs, '.' ∉ p.1.toList)
    {q : String} (hq : '.' ∉ q.toList) (hnot : q ∉ fs.map Prod.fst) : f'.getMember q = f.getMember q := by
  induction fs generalizing f with
  | nil =>
    rw [setAll] at h
    cases h
    rfl
  | cons p rest ih =>
    obtain ⟨k, x⟩ := p
    have hrest := fun p hp => hplain p (List.mem_cons_of_mem _ hp)
    rw [List.map_cons, List.mem_cons, not_or] at hnot
    rw [setAll] at h
    split_ifs at h with hk
    · exact ih h hrest hnot.2
    · obtain ⟨f₁, h₁, h₂⟩ := Except.bind_ok_inv h
      rw [ih h₂ hrest hnot.2]
      exact (setMember_ok h₁).getMember_frame (not_segmentPrefix_of_plain hq hnot.1)
        (not_segmentPrefix_of_plain (hplain (k, x) List.mem_cons_self) (Ne.symm hnot.1))

/-- A member naming a scalar field reads back, once the members name distinct fields. -/
theorem setAll_getMember_of_mem (h : f.setAll fs = .ok f') (hplain : ∀ p ∈ fs, '.' ∉ p.1.toList)
    (hnd : (fs.map Prod.fst).Nodup) (hin : ∀ p ∈ fs, p.2.NumberInKind) {p : String × Json}
    (hp : p ∈ fs) (hkind : p.1 ≠ "kind") (hpath : FishPath p.1) : f'.getMember p.1 = .ok p.2 := by
  induction fs generalizing f with
  | nil => cases hp
  | cons p₀ rest ih =>
    obtain ⟨k, x⟩ := p₀
    have hrest := fun p hp => hplain p (List.mem_cons_of_mem _ hp)
    rw [List.map_cons, List.nodup_cons] at hnd
    rw [setAll] at h
    split_ifs at h with hk
    · rcases List.mem_cons.mp hp with rfl | hp
      · exact absurd hk hkind
      · exact ih h hrest hnd.2 (fun p hp => hin p (List.mem_cons_of_mem _ hp)) hp
    · obtain ⟨f₁, h₁, h₂⟩ := Except.bind_ok_inv h
      rcases List.mem_cons.mp hp with rfl | hp
      · rw [setAll_getMember_of_not_mem h₂ hrest (hplain (k, x) List.mem_cons_self) hnd.1]
        exact (setMember_ok h₁).getMember_self (hin (k, x) List.mem_cons_self) hpath
      · exact ih h₂ hrest hnd.2 (fun p hp => hin p (List.mem_cons_of_mem _ hp)) hp

/-- A member naming the partner gives the partner built from its value. -/
theorem setAll_partner_of_mem (h : f.setAll fs = .ok f') (hplain : ∀ p ∈ fs, '.' ∉ p.1.toList)
    (hnd : (fs.map Prod.fst).Nodup) {x : Json} (hp : ("partner", x) ∈ fs) :
    ∃ np, ofTracked "partner" x = .ok np ∧ f'.partner? = np := by
  induction fs generalizing f with
  | nil => cases hp
  | cons p₀ rest ih =>
    obtain ⟨k, x₀⟩ := p₀
    have hrest := fun p hp => hplain p (List.mem_cons_of_mem _ hp)
    rw [List.map_cons, List.nodup_cons] at hnd
    rw [setAll] at h
    split_ifs at h with hk
    · rcases List.mem_cons.mp hp with h' | hp
      · cases h'
        exact absurd hk (by decide)
      · exact ih h hrest hnd.2 hp
    · obtain ⟨f₁, h₁, h₂⟩ := Except.bind_ok_inv h
      rcases List.mem_cons.mp hp with h' | hp
      · cases h'
        obtain ⟨np, hnp, hpartner⟩ := (setMember_ok h₁).partner_of_eq rfl
        -- no later member goes through the partner
        have hsame := setAll_sameAt h₂ (a := "partner") fun p hp _ => by
          rw [pathHead_of_plain (hrest p hp)]
          intro hpk
          exact hnd.1 (List.mem_map.mpr ⟨p, hp, hpk.symm⟩)
        exact ⟨np, hnp, (hsame.partner rfl).symm.trans hpartner⟩
      · exact ih h₂ hrest hnd.2 hp

end Members

/-! ### The record of a built fish -/

theorem get?_variantPairs {f : Fish} {k : String} {v : Json} (h : (k, v) ∈ f.variantPairs) :
    Keyed.get? (Keyed.ofList f.variantPairs) k = some v :=
  Keyed.get?_ofList_of_mem (f.keys_variantPairs ▸ f.shape.nodup_fields) h

/-- A scalar member is a plain name, neither the partner nor the kind, so every fish reads it
from its common fields. -/
theorem getMember_scalar (f : Fish) {F : String} (hF : F ∈ scalarMembers) :
    '.' ∉ F.toList ∧ F ≠ "kind" ∧ f.getMember F = f.getCommon F := by
  have hplain : ∀ F ∈ scalarMembers, '.' ∉ F.toList ∧ F ≠ "partner" ∧ F ≠ "kind" := by decide
  obtain ⟨hdot, hpartner, hkind⟩ := hplain F hF
  exact ⟨hdot, hkind, getMember_of_common (dropPrefix?_partner_of_plain hdot) hpartner⟩

/-- Each scalar field of a fish's record holds what the fish reads under it, and reads it as it is. -/
theorem scalarField_reads {f : Fish} {sf : String × Absent × Schema Shape} (hsf : sf ∈ f.shape.fields)
    (hF : sf.1 ∈ scalarMembers) {fuel : Nat} (hfuel : 2 ≤ fuel) :
    ∃ v, f.getMember sf.1 = .ok v ∧ Keyed.get? (Keyed.ofList f.variantPairs) sf.1 = some v ∧
      Schema.ofValue Shape.schema fuel sf.2.2 v = .ok v := by
  rw [(getMember_scalar f hF).2.2]
  -- the record of each variant, field by field; the `id` and `kind` are no scalar members
  rcases f with ⟨c, w⟩ | ⟨c, p⟩ | ⟨k, c⟩ <;>
    simp only [shape, Shape.fields, Shape.schema, Shape.optText, Shape.optInt32, List.mem_cons,
      List.not_mem_nil, or_false] at hsf <;>
    rcases hsf with rfl | rfl | rfl | rfl | rfl <;> simp [scalarMembers] at hF
  all_goals
    simp only [getCommon, core, String.reduceEq, ↓reduceIte, Except.ok.injEq, exists_eq_left']
    refine ⟨get?_variantPairs
      (by simp [variantPairs, FishCore.checkedPairs, optString_getD, optInt32_getD]), ?_⟩
    first | exact ofValue_ofOption_string hfuel _ | exact ofValue_ofOption_int32 hfuel _

/-- The fields of a fish's record: the `id`, the scalar members, a salmon's partner, and the kind
of a fish without a model of its own. -/
theorem mem_shape_fields {f : Fish} {sf : String × Absent × Schema Shape} (hsf : sf ∈ f.shape.fields) :
    sf = Shape.optText "id" ∨ (sf.2.1 = .null ∧ sf.1 ∈ scalarMembers) ∨
      (sf = ("partner", .null, .option (.ref .fish)) ∧ f.shape = .salmon) ∨
      (sf = ("kind", .required, .refine .string Shape.checkOtherKind) ∧ f.shape = .otherFish) := by
  rcases f with ⟨c, w⟩ | ⟨c, p⟩ | ⟨k, c⟩ <;>
    simp only [shape, Shape.fields, Shape.schema, Shape.optText, Shape.optInt32, List.mem_cons,
      List.not_mem_nil, or_false] at hsf <;>
    rcases hsf with rfl | rfl | rfl | rfl | rfl <;> simp [Shape.optText, scalarMembers, shape]

theorem shape_ofKind (k : String) : (ofKind k).shape = Shape.ofKind k := by
  unfold ofKind Shape.ofKind
  split_ifs <;> rfl

theorem kind_ofKind (k : String) : (ofKind k).kind = k := by
  unfold ofKind
  split_ifs with h₁ h₂
  · exact h₁.symm
  · exact h₂.symm
  · rfl

theorem partner?_ofKind (k : String) : (ofKind k).partner? = none := by
  unfold ofKind
  split_ifs <;> rfl

theorem id_ofKind (k : String) : (ofKind k).core.id = none := by
  unfold ofKind
  split_ifs <;> rfl

theorem tracker_ofKind (k : String) : (ofKind k).tracker = {} := by
  unfold ofKind
  split_ifs <;> rfl

/-- A new fish reads `null` under every scalar member it has. -/
theorem getMember_ofKind {k F : String} (hF : F ∈ scalarMembers) {v : Json}
    (h : (ofKind k).getMember F = .ok v) : v = .null := by
  rw [(getMember_scalar _ hF).2.2] at h
  simp only [scalarMembers, List.mem_cons, List.not_mem_nil, or_false] at hF
  unfold ofKind at h
  rcases hF with rfl | rfl | rfl | rfl | rfl <;> split_ifs at h <;> simp [getCommon, core] at h <;>
    exact h.symm

section Built

variable {k : String} {fs : Fields} {f : Fish}

/-- No member of an object a new fish is built from goes to a field the fish does not have. -/
theorem setAll_head_ne (hset : (ofKind k).setAll fs = .ok f) (hplain : ∀ p ∈ fs, '.' ∉ p.1.toList)
    {a : String} (ha : a ∉ (ofKind k).fieldNames) : ∀ p ∈ fs, p.1 ≠ "kind" → a ≠ pathHead p.1 := by
  intro p hp hpk hpa
  rw [pathHead_of_plain (hplain p hp)] at hpa
  exact ha (hpa ▸ (setAll_fields hset hplain).2.2 p hp hpk)

theorem id_not_mem_fieldNames (k : String) : "id" ∉ (ofKind k).fieldNames := by
  unfold ofKind
  split_ifs <;> simp [fieldNames]

/-- An object a fish is built from has no `id`, and the fish has none. -/
theorem setAll_id (hset : (ofKind k).setAll fs = .ok f) (hplain : ∀ p ∈ fs, '.' ∉ p.1.toList) :
    Keyed.get? fs "id" = none ∧ f.core.id = none := by
  have hne := setAll_head_ne hset hplain (id_not_mem_fieldNames k)
  refine ⟨Keyed.get?_eq_none fun p hp hpid => hne p hp (by rw [hpid]; decide) ?_, ?_⟩
  · rw [pathHead_of_plain (hplain p hp), hpid]
  · exact ((setAll_sameAt hset hne).id rfl).symm.trans (id_ofKind k)

/-- A new fish given no partner keeps none. -/
theorem setAll_partner?_of_none (hset : (ofKind k).setAll fs = .ok f)
    (hplain : ∀ p ∈ fs, '.' ∉ p.1.toList) (hnd : (fs.map Prod.fst).Nodup)
    (h : Keyed.get? fs "partner" = none) : f.partner? = none := by
  have hsame := setAll_sameAt hset (a := "partner") fun p hp _ hpa => by
    rw [pathHead_of_plain (hplain p hp)] at hpa
    rw [hpa, Keyed.get?_of_mem hnd hp] at h
    cases h
  exact ((hsame.partner rfl).symm.trans (partner?_ofKind k))

/-- A scalar member the fish was given reads back, and one left out reads `null`, as in a new fish. -/
theorem setAll_getMember_scalar (hset : (ofKind k).setAll fs = .ok f)
    (hplain : ∀ p ∈ fs, '.' ∉ p.1.toList) (hnd : (fs.map Prod.fst).Nodup)
    (hin : ∀ p ∈ fs, p.2.NumberInKind) {F : String} (hF : F ∈ scalarMembers) {v : Json}
    (hv : f.getMember F = .ok v) : v = (Keyed.get? fs F).getD .null := by
  obtain ⟨hdot, hkind, -⟩ := getMember_scalar f hF
  cases hx : Keyed.get? fs F with
  | some x =>
    have hself :=
      setAll_getMember_of_mem hset hplain hnd hin (Keyed.get?_eq_some_mem hx) hkind (.member hF)
    rw [hself] at hv
    cases hv
    rfl
  | none =>
    have hnot : F ∉ fs.map Prod.fst := fun hm => by
      obtain ⟨p, hp, hpk⟩ := List.mem_map.mp hm
      rw [← hpk, Keyed.get?_of_mem hnd hp] at hx
      cases hx
    rw [setAll_getMember_of_not_mem hset hplain hdot hnot] at hv
    exact getMember_ofKind hF hv

/-- The record of a fish's variant reads the members a new fish was given to the fields of the
fish it became, given how the partner of a salmon is read. -/
theorem fieldsRead_of_setAll (hset : (ofKind k).setAll fs = .ok f)
    (hkind : Keyed.get? fs "kind" = some (.string k)) (hplain : ∀ p ∈ fs, '.' ∉ p.1.toList)
    (hnd : (fs.map Prod.fst).Nodup) (hin : ∀ p ∈ fs, p.2.NumberInKind) {fuel : Nat} (hfuel : 2 ≤ fuel)
    (hpartner : ∀ x, Keyed.get? fs "partner" = some x →
      Schema.ofValue Shape.schema fuel (.option (.ref .fish)) x = .ok ((f.partner?.map checked).getD .null)) :
    ∀ sf ∈ f.shape.fields, Schema.FieldReads (fun s x r => Schema.ofValue Shape.schema fuel s x = .ok r)
      (Keyed.ofList f.variantPairs) (Keyed.get? fs sf.1) sf := by
  obtain ⟨hshape, hkind', -⟩ := setAll_fields hset hplain
  intro sf hsf
  rcases mem_shape_fields hsf with rfl | ⟨hnull, hF⟩ | ⟨rfl, hsalmon⟩ | ⟨rfl, hother⟩
  · -- no member is the `id`, which reads `null`
    rw [show (Shape.optText "id").1 = "id" from rfl, (setAll_id hset hplain).1]
    exact ⟨.null, rfl,
      get?_variantPairs (by cases f <;> simp [variantPairs, FishCore.checkedPairs, Shape.optText])⟩
  · -- a scalar member reads as it is; one left out is `null` in the record
    obtain ⟨v, hv, hG, hread⟩ := scalarField_reads hsf hF hfuel
    rw [setAll_getMember_scalar hset hplain hnd hin hF hv] at hG hread
    refine Schema.fieldReads_member hnull hG fun x hx => ?_
    rw [hx] at hread
    exact hread
  · -- the partner reads as given, and an absent one is `null`, as in a new salmon
    rcases f with _ | ⟨c, p⟩ | _ <;> simp only [shape, reduceCtorEq] at hsalmon
    cases hx : Keyed.get? fs "partner" with
    | some x => exact ⟨_, get?_variantPairs (by simp [variantPairs, partner?]), hpartner x hx⟩
    | none =>
      have hp : p = none := setAll_partner?_of_none hset hplain hnd hx
      subst hp
      exact ⟨.null, rfl, get?_variantPairs (by simp [variantPairs])⟩
  · -- the kind of a fish without a model of its own is checked and kept
    rcases f with _ | _ | ⟨k', c⟩ <;> simp only [shape, reduceCtorEq] at hother
    have hk : k' = k := by
      rw [← kind_ofKind k, ← hkind']
      rfl
    subst hk
    have hmodelled : Shape.isModelledKind k' = false :=
      Shape.isModelledKind_of_ofKind (by rw [← shape_ofKind, ← hshape]; rfl)
    rw [show ("kind", Absent.required, Schema.refine .string Shape.checkOtherKind).1 = "kind" from rfl, hkind]
    exact ⟨_, get?_variantPairs (by simp [variantPairs]), (ScalarReading.ofValue hfuel).kind k' hmodelled⟩

/-- A new fish given the members of an ordered object has assigned its members but `kind`, in
order. -/
theorem setAll_tracker (hset : (ofKind k).setAll fs = .ok f) (hplain : ∀ p ∈ fs, '.' ∉ p.1.toList)
    (hs : Keyed.Sorted fs) : f.tracker = { assigned := (Json.object fs).memberNames } := by
  have hsorted : ([] ++ (fs.map Prod.fst).filter (· != "kind")).Pairwise (· < ·) :=
    (List.pairwise_map.mpr hs).filter _
  rw [setAll_tracker_eq hset hplain, tracker_ofKind, Json.memberNames, Names.foldl_insert hsorted]
  rfl

/-- The object a new fish was given reads by its kind to the record of the fish it became, given
how the partner of a salmon is read. -/
theorem ofValue_of_setAll (hset : (ofKind k).setAll fs = .ok f)
    (hkind : Keyed.get? fs "kind" = some (.string k)) (hplain : ∀ p ∈ fs, '.' ∉ p.1.toList)
    (hnd : (fs.map Prod.fst).Nodup) (hin : ∀ p ∈ fs, p.2.NumberInKind) {n : Nat}
    (hpartner : ∀ x, Keyed.get? fs "partner" = some x →
      Schema.ofValue Shape.schema (n + 2) (.option (.ref .fish)) x = .ok ((f.partner?.map checked).getD .null)) :
    Schema.ofValue Shape.schema (n + 4) (.tagged "kind" Shape.ofKind) (.object fs) = .ok f.checked := by
  obtain ⟨hshape, hkind', -⟩ := setAll_fields hset hplain
  -- the record of the variant the kind picks, then the kind put back
  have hrecord : Schema.ofValue Shape.schema (n + 3) (Shape.schema (Shape.ofKind k)) (.object fs) =
      .ok (.object (Keyed.ofList f.variantPairs)) := by
    rw [← shape_ofKind, ← hshape, Shape.schema_eq_record f.shape_ne_fish]
    exact Schema.ofValue_record (n + 2) hnd (Keyed.sorted_ofList _)
      (fieldsRead_of_setAll hset hkind hplain hnd hin (by omega) hpartner)
      (Keyed.get?_ofList_other f.keys_variantPairs)
  rw [Schema.ofValue_tagged (n + 3) (show (Json.object fs).get? "kind" = _ from hkind) hrecord,
    checked_eq, Json.obj, Keyed.ofList_append_singleton, hkind', kind_ofKind]

/-- A new fish is well formed once its partner, if it has one, is: a fish of another kind keeps
the kind it was given, which has no model of its own. -/
theorem wellFormed_of_setAll (hset : (ofKind k).setAll fs = .ok f) (hplain : ∀ p ∈ fs, '.' ∉ p.1.toList)
    (hpartner : ∀ c q, f = salmon c (some q) → q.tracker.mergePatch = false ∧ q.WellFormed) :
    f.WellFormed := by
  obtain ⟨hshape, hkind', -⟩ := setAll_fields hset hplain
  rcases f with _ | ⟨c, _ | q⟩ | ⟨k', c⟩
  · trivial
  · trivial
  · exact hpartner c q rfl
  · have hk' : k' = k := by
      rw [← kind_ofKind k, ← hkind']
      rfl
    subst hk'
    exact Shape.isModelledKind_of_ofKind (by rw [← shape_ofKind, ← hshape]; rfl)

end Built

theorem ofTracked_none {field : String} {v : Json} (h : ofTracked field v = .ok none) : v = .null := by
  unfold ofTracked at h
  split at h
  · rfl
  · split at h
    · obtain ⟨f, -, hf⟩ := Except.map_ok_inv h
      cases hf
    · cases h
  · cases h

theorem ofTracked_some {field : String} {v : Json} {q : Fish} (h : ofTracked field v = .ok (some q)) :
    v ≠ .null := by
  rintro rfl
  unfold ofTracked at h
  cases h

/-- The fields a fish built from an object has assigned, through every depth of partners: the
object's members but `kind`. -/
def AssignedFrom : Fish → Json → Prop
  | salmon c (some q), o => c.tracker = { assigned := o.memberNames } ∧
      ∃ x, o.get? "partner" = some x ∧ q.AssignedFrom x
  | f, o => f.tracker = { assigned := o.memberNames }

theorem AssignedFrom.tracker {f : Fish} {o : Json} (h : f.AssignedFrom o) :
    f.tracker = { assigned := o.memberNames } := by
  rcases f with _ | ⟨c, _ | q⟩ | _
  · exact h
  · exact h
  · exact h.1
  · exact h

/-- What a fish built from an object is, against the object: read by its kind, with fuel for four
steps for each level of partners, the object gives the fish's record; the fish is well formed, has
no `id`, and has assigned the object's members. -/
structure BuiltFrom (f : Fish) (o : Json) : Prop where
  reads : ∀ fuel, 4 * o.depth + 4 ≤ fuel →
    Schema.ofValue Shape.schema fuel (.tagged "kind" Shape.ofKind) o = .ok f.checked
  wellFormed : f.WellFormed
  noIds : f.NoIds
  assigned : f.AssignedFrom o

/-- A fish built from an ordered object whose numbers are of their kind and whose member names
have no dot is what the object reads to. The induction is on the depth of the object: a partner
is built from a member, which nests less. -/
theorem builtFrom_ofTracked {o : Json} (ho : o.Ordered) (hc : o.Canonical) (hp : o.PlainNames)
    {field : String} {f : Fish} (h : ofTracked field o = .ok (some f)) : f.BuiltFrom o := by
  obtain ⟨d, hd⟩ : ∃ d, o.depth = d := ⟨_, rfl⟩
  induction d using Nat.strong_induction_on generalizing o field f with
  | _ d ih =>
  unfold ofTracked at h
  split at h
  · cases h
  · rename_i fs
    split at h
    next k hkind =>
      obtain ⟨f', hset, hf⟩ := Except.map_ok_inv h
      cases hf
      have hs := ho.sorted
      have hnd := hs.keys_nodup
      obtain ⟨hplain, hplainm⟩ : (∀ p ∈ fs, '.' ∉ p.1.toList) ∧ ∀ p ∈ fs, p.2.PlainNames := by
        cases hp with
        | object h₁ h₂ => exact ⟨h₁, h₂⟩
      have hin : ∀ p ∈ fs, p.2.Canonical := by
        cases hc with
        | object h => exact h
      have hom : ∀ p ∈ fs, p.2.Ordered := by
        cases ho with
        | object _ h => exact h
      -- a partner given is built from its member by the same construction
      have hpartner : ∀ x, Keyed.get? fs "partner" = some x → ∃ np, ofTracked "partner" x = .ok np ∧
          f.partner? = np ∧ ∀ q, np = some q → q.BuiltFrom x := by
        intro x hx
        have hmem := Keyed.get?_eq_some_mem hx
        obtain ⟨np, hnp, hpart⟩ := setAll_partner_of_mem hset hplain hnd hmem
        refine ⟨np, hnp, hpart, fun q hq => ?_⟩
        subst hq
        exact ih x.depth (hd ▸ Json.depth_lt_of_mem_object hmem) (hom _ hmem) (hin _ hmem)
          (hplainm _ hmem) hnp rfl
      have hsalmon : ∀ c q, f = salmon c (some q) →
          ∃ x, Keyed.get? fs "partner" = some x ∧ q.BuiltFrom x := by
        rintro c q rfl
        cases hx : Keyed.get? fs "partner" with
        | none => cases setAll_partner?_of_none hset hplain hnd hx
        | some x =>
          obtain ⟨np, -, hpart, hbuilt⟩ := hpartner x hx
          exact ⟨x, rfl, hbuilt q hpart.symm⟩
      have hid := (setAll_id hset hplain).2
      have htracker := setAll_tracker hset hplain hs
      refine ⟨fun fuel hfuel => ?_, ?_, ?_, ?_⟩
      · -- a partner is read from its member with the fuel left after two steps
        obtain ⟨n, rfl⟩ : ∃ n, fuel = n + 4 := ⟨fuel - 4, by omega⟩
        refine ofValue_of_setAll hset hkind hplain hnd (fun p hp => (hin p hp).numberInKind) fun x hx => ?_
        obtain ⟨np, hnp, hpart, hbuilt⟩ := hpartner x hx
        rw [hpart]
        cases np with
        | none =>
          rw [ofTracked_none hnp]
          exact Schema.ofValue_null _ _
        | some q =>
          have hdepth : x.depth < d := hd ▸ Json.depth_lt_of_mem_object (Keyed.get?_eq_some_mem hx)
          rw [Schema.ofValue_option _ _ (ofTracked_some hnp), Schema.ofValue_ref]
          exact (hbuilt q rfl).reads n (by omega)
      · refine wellFormed_of_setAll hset hplain fun c q hf => ?_
        obtain ⟨x, -, hq⟩ := hsalmon c q hf
        exact ⟨by rw [hq.assigned.tracker], hq.wellFormed⟩
      · rcases f with _ | ⟨c, _ | q⟩ | _
        · exact hid
        · exact hid
        · obtain ⟨_, -, hq⟩ := hsalmon c q rfl
          exact ⟨hid, hq.noIds⟩
        · exact hid
      · rcases f with _ | ⟨c, _ | q⟩ | _
        · exact htracker
        · exact htracker
        · obtain ⟨x, hx, hq⟩ := hsalmon c q rfl
          exact ⟨htracker, x, hx, hq.assigned⟩
        · exact htracker
    next => cases h
  · cases h

end Fish

/-! ## Built models read as given -/

/-- **A model built from a value member by member is the model the value reads to.** An inner
model built from an ordered object is what the object reads to by the inner model's schema, and
has assigned exactly the object's members. A fish built from an ordered object whose numbers are
integers held in their kind and whose member names have no dot is, ignoring what it has assigned,
what the object reads to by the kind it names; it has no `id`, and at every depth of partners
has assigned exactly the members of the object it was built from, `kind` apart. -/
theorem tracked_construction_reads_alike (field : String) {o : Json} (ho : o.Ordered) :
    (∀ m, InnerModel.ofTracked field o = .ok (some m) →
      (readShape (.ref .innerModel) o).map InnerModel.ofChecked = .ok m.reread ∧
        m.tracker = { assigned := o.memberNames }) ∧
    (o.Canonical → o.PlainNames → ∀ f, Fish.ofTracked field o = .ok (some f) →
      (readShape (.ref .fish) o).map Fish.ofChecked = .ok f.reread ∧ f.NoIds ∧ f.AssignedFrom o) := by
  refine ⟨fun m h => ?_, fun hc hp f h => ?_⟩
  · obtain ⟨hread, htracker⟩ := InnerModel.ofTracked_reads ho h
    rw [hread]
    exact ⟨congrArg Except.ok m.ofChecked_checked, htracker⟩
  · have hb := Fish.builtFrom_ofTracked ho hc hp h
    have hsize : o.depth ≤ o.size := Json.depth_le_size o
    have hread : readShape (.ref .fish) o = .ok f.checked := by
      unfold readShape Schema.read
      rw [Schema.ofValue_ref]
      exact hb.reads _ (by omega)
    rw [hread]
    exact ⟨congrArg Except.ok (Fish.ofChecked_checked hb.wellFormed), hb.noIds, hb.assigned⟩

theorem tracked_construction_reads_alike_salmon :
    let o := Json.object [("kind", .string "salmon"),
      ("partner", .object [("kind", .string "shark"), ("name", .string "a")])]
    o.Ordered ∧ o.Canonical ∧ o.PlainNames ∧ ∃ f, Fish.ofTracked "fish" o = .ok (some f) ∧
      (readShape (.ref .fish) o).map Fish.ofChecked = .ok f.reread ∧ f.NoIds ∧ f.AssignedFrom o := by
  intro o
  have ho : o.Ordered := by
    refine .object (by unfold Keyed.Sorted; decide) fun p hp => ?_
    simp only [List.mem_cons, List.not_mem_nil, or_false] at hp
    rcases hp with rfl | rfl
    · exact .string _
    · refine .object (by unfold Keyed.Sorted; decide) fun p hp => ?_
      simp only [List.mem_cons, List.not_mem_nil, or_false] at hp
      rcases hp with rfl | rfl <;> exact .string _
  have hc : o.Canonical := by
    refine .object fun p hp => ?_
    simp only [List.mem_cons, List.not_mem_nil, or_false] at hp
    rcases hp with rfl | rfl
    · exact .string _
    · refine .object fun p hp => ?_
      simp only [List.mem_cons, List.not_mem_nil, or_false] at hp
      rcases hp with rfl | rfl <;> exact .string _
  have hp : o.PlainNames := by
    refine .object (by decide) fun p hp => ?_
    simp only [List.mem_cons, List.not_mem_nil, or_false] at hp
    rcases hp with rfl | rfl
    · exact .string _
    · refine .object (by decide) fun p hp => ?_
      simp only [List.mem_cons, List.not_mem_nil, or_false] at hp
      rcases hp with rfl | rfl <;> exact .string _
  have hd : dropPrefix? "partner" "partner." = none := by decide
  have hf : Fish.ofTracked "fish" o = .ok (some (.salmon { tracker := { assigned := ["partner"] } }
      (some (.shark { name := some "a", tracker := { assigned := ["name"] } } none)))) := by
    simp [o, hd, Fish.ofTracked, Fish.setAll, Fish.ofKind, Keyed.get?, Fish.setMember, Fish.setCommon,
      decodeField, readShape, Schema.read, Schema.ofValue, Schema.string, Json.size, bind, Except.bind,
      pure, Except.pure, Fish.withName, Fish.withCore, Fish.core, Fish.tracker, Tracker.mark, Names.insert,
      FishCore.mark]
  exact ⟨ho, hc, hp, _, hf, (tracked_construction_reads_alike "fish" ho).2 hc hp _ hf⟩

/-- **A member named as a path is assigned as that path.** The salmon below is given a partner
named `a` and then a member `partner.name` that sets the partner's name to `b`; the reader reads
no field by that name and puts it aside. So the fish built has a partner named `b` where the
fish read has one named `a`, and it has assigned `partner` alone, not both its members. -/
theorem dotted_member_assigned_as_path :
    let o := Json.object [("kind", .string "salmon"),
      ("partner", .object [("kind", .string "shark"), ("name", .string "a")]), ("partner.name", .string "b")]
    (∃ f, Fish.ofTracked "fish" o = .ok (some f) ∧ f.partner?.bind (·.core.name) = some "b" ∧
      f.tracker.assigned = ["partner"]) ∧
    (readShape (.ref .fish) o).map (fun j => (j.get? "partner").bind (·.get? "name")) =
      .ok (some (.string "a")) ∧
    o.memberNames = ["partner", "partner.name"] := by
  intro o
  have hd : dropPrefix? "partner.name" "partner." = some "name" := by decide
  have hd' : dropPrefix? "partner" "partner." = none := by decide
  refine ⟨⟨.salmon { tracker := { assigned := ["partner"] } }
    (some (.shark { name := some "b", tracker := { assigned := ["name"] } } none)), ?_, rfl, rfl⟩,
    ?_, by decide⟩
  · simp [o, hd, hd', Fish.ofTracked, Fish.setAll, Fish.ofKind, Keyed.get?, Fish.setMember, Fish.setCommon,
      decodeField, readShape, Schema.read, Schema.ofValue, Schema.string, Json.size, bind, Except.bind,
      pure, Except.pure, Fish.withName, Fish.withCore, Fish.core, Fish.tracker, Tracker.mark, Names.insert,
      FishCore.mark]
  · simp +decide [o, readShape, Schema.absentValue, Schema.read, Schema.ofValue, Schema.string, Json.size,
      Json.size.sizeFields, bind, Except.bind, pure, Except.pure, Shape.schema, Schema.recordOfObject,
      Schema.fillAbsent, Json.get?, Keyed.get?, Shape.ofKind, Shape.optText, Shape.optInt32, Keyed.insert,
      List.find?, Except.map]

end MergePatch
