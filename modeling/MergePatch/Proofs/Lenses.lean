import Mathlib
import MergePatch.Proofs.Runs
import MergePatch.Proofs.ReadBack
/-!
# Dynamic access obeys the lens laws

`set` and `get` walk a dotted path the same way: a resource cuts it at its first dot and goes
into the inner model, the fish or an entry of the map; a salmon strips `partner.` and goes into
its partner. This module proves that the two agree, for every model, path and value:

* **get after set**: a path to a scalar field reads back the value assigned
  (`AnyModel.get_set_leaf`), given that the value's integers are held in the kind that holds
  them, as the reader builds them (`Json.NumberInKind`);
* **frame**: an assignment leaves every other valid path alone, one that neither names what the
  assignment reaches into nor is reached into by it (`AnyModel.get_set_frame`);
* **set after set**: an assignment over a successful one of the same path is the assignment
  alone, fields and every tracker included (`AnyModel.set_set`).

Each is proved model by model, the fish along the chain of partners by induction on the
assignment, and each model's proof uses the one below it. The frame law needs the path read to
be valid: an absent inner model reads `null` under any path, a new one only under its fields.
Missing inner models and map entries are created by an assignment through them, and an inner
model created so reads `null` in every field it was not assigned.
-/

namespace MergePatch

/-! ## Marking twice -/

theorem Names.insert_insert (ns : Names) (n : String) : insert (insert ns n) n = insert ns n := by
  induction ns with
  | nil => simp [insert]
  | cons m rest ih =>
    by_cases hlt : n < m
    · simp [insert, hlt]
    · by_cases heq : n = m
      · subst heq
        simp [insert]
      · simp [insert, hlt, heq, ih]

theorem Keyed.insert_insert {α : Type} (xs : Keyed α) (k : String) (v w : α) :
    insert (insert xs k v) k w = insert xs k w := by
  induction xs with
  | nil => simp [insert]
  | cons p rest ih =>
    obtain ⟨k', v'⟩ := p
    by_cases hlt : k < k'
    · simp [insert, hlt]
    · by_cases heq : k = k'
      · subst heq
        simp [insert]
      · simp [insert, hlt, heq, ih]

@[simp] theorem Tracker.mark_mark (t : Tracker) (f : String) : (t.mark f).mark f = t.mark f := by
  simp [Tracker.mark, Names.insert_insert]

@[simp] theorem FishCore.mark_mark (c : FishCore) (f : String) : (c.mark f).mark f = c.mark f := by
  simp [FishCore.mark]

/-! ## Paths -/

/-- The segments of `p`, cut at dots, begin those of `q`: `q` is `p`, or a path into what `p`
names. -/
def SegmentPrefix (p q : String) : Prop := q = p ∨ ∃ rest, q = p ++ "." ++ rest

theorem eq_of_splitOnce {s head rest : String} (h : splitOnce s '.' = some (head, rest)) :
    s = head ++ "." ++ rest := by
  simp only [splitOnce] at h
  split at h
  · rename_i i hi
    cases h
    obtain ⟨hlt, hdot, -⟩ := List.findIdx?_eq_some_iff_getElem.mp hi
    have hc : s.toList[i] = '.' := by simpa using hdot
    have hparts := List.take_append_drop i s.toList
    rw [List.drop_eq_getElem_cons hlt, hc] at hparts
    rw [← String.toList_inj]
    simpa using hparts.symm
  · cases h

theorem eq_of_dropPrefix? {s p rest : String} (h : dropPrefix? s p = some rest) : s = p ++ rest := by
  simp only [dropPrefix?] at h
  split at h
  · rename_i hpre
    cases h
    obtain ⟨t, ht⟩ := List.isPrefixOf_iff_prefix.mp hpre
    rw [← String.toList_inj]
    simp only [String.toList_append, String.toList_ofList, ← ht, String.length_toList.symm,
      List.drop_left]
  · cases h

theorem pathHead_of_splitOnce_none {p : String} (h : splitOnce p '.' = none) : pathHead p = p := by
  rw [pathHead, h]

/-- A path is reached into by the field it starts with. -/
theorem segmentPrefix_pathHead (q : String) : SegmentPrefix (pathHead q) q := by
  cases h : splitOnce q '.' with
  | none => exact .inl (pathHead_of_splitOnce_none h).symm
  | some hr =>
    obtain ⟨head, rest⟩ := hr
    rw [pathHead_of_splitOnce h]
    exact .inr ⟨rest, eq_of_splitOnce h⟩

/-- A path is, as text, a prefix of every path it reaches into. -/
theorem SegmentPrefix.prefix {p q : String} (h : SegmentPrefix p q) : p.toList <+: q.toList := by
  rcases h with rfl | ⟨rest, rfl⟩
  · exact List.prefix_refl _
  · simp [String.toList_append]

/-- Two paths through the same field part where what follows it parts. -/
theorem segmentPrefix_dotted_iff (head rest rest' : String) :
    SegmentPrefix (head ++ "." ++ rest) (head ++ "." ++ rest') ↔ SegmentPrefix rest rest' := by
  simp only [SegmentPrefix, String.append_assoc, String.append_right_inj]

/-- What follows a first dot, in two paths through the same field. -/
theorem not_segmentPrefix_rest {p q head rest rest' : String}
    (hp : splitOnce p '.' = some (head, rest)) (hq : splitOnce q '.' = some (head, rest'))
    (hpq : ¬ SegmentPrefix p q) : ¬ SegmentPrefix rest rest' := by
  rwa [eq_of_splitOnce hp, eq_of_splitOnce hq, segmentPrefix_dotted_iff] at hpq

/-- A path that starts with the field another goes below, and is not a prefix of it, goes below
that field too. -/
theorem splitOnce_of_pathHead_eq {p q head rest : String} (hp : splitOnce p '.' = some (head, rest))
    (hhead : pathHead q = head) (hqp : ¬ SegmentPrefix q p) :
    ∃ rest', splitOnce q '.' = some (head, rest') := by
  cases hs : splitOnce q '.' with
  | none =>
    rw [pathHead_of_splitOnce_none hs] at hhead
    subst hhead
    exact absurd (.inr ⟨rest, eq_of_splitOnce hp⟩) hqp
  | some km =>
    obtain ⟨head', rest'⟩ := km
    rw [pathHead_of_splitOnce hs] at hhead
    subst hhead
    exact ⟨rest', rfl⟩

/-- The paths into a resource's nested models, cut at their first dot. -/
theorem splitOnce_inner_path (f : String) :
    splitOnce ("innerModelProperty." ++ f) '.' = some ("innerModelProperty", f) := by
  rw [show "innerModelProperty." ++ f = "innerModelProperty" ++ "." ++ f from rfl]
  exact splitOnce_dotted f (by decide)

theorem splitOnce_fish_path (rest : String) :
    splitOnce ("fish." ++ rest) '.' = some ("fish", rest) := by
  rw [show "fish." ++ rest = "fish" ++ "." ++ rest from rfl]
  exact splitOnce_dotted rest (by decide)

theorem splitOnce_map_path (k : String) : splitOnce ("map." ++ k) '.' = some ("map", k) := by
  rw [show "map." ++ k = "map" ++ "." ++ k from rfl]
  exact splitOnce_dotted k (by decide)

theorem splitOnce_entry_path (k f : String) :
    splitOnce ("map." ++ k ++ "." ++ f) '.' = some ("map", k ++ "." ++ f) := by
  rw [show "map." ++ k ++ "." ++ f = "map." ++ (k ++ "." ++ f) by simp only [String.append_assoc]]
  exact splitOnce_map_path (k ++ "." ++ f)

/-! ## Valid paths and paths to scalar fields -/

/-- The fields some fish has: those of every fish, a shark's weight and a salmon's partner. -/
def Fish.anyFieldNames : List String := ["kind", "id", "name", "age", "color", "weight", "partner"]

/-- A path valid for the schema of a fish: a field some fish has, or a valid path of the
partner. -/
inductive Fish.ValidPath : String → Prop
  | field {f : String} : f ∈ anyFieldNames → ValidPath f
  | partner {rest : String} : ValidPath rest → ValidPath ("partner." ++ rest)

/-- A path valid for the schema of a resource: each segment names a field of the model it
addresses, or a key of the map. -/
inductive Resource.ValidPath : String → Prop
  | field {f : String} : f ∈ "id" :: "name" :: fieldNames → ValidPath f
  | inner {f : String} : f ∈ InnerModel.fieldNames → ValidPath ("innerModelProperty." ++ f)
  | entry {k : String} : '.' ∉ k.toList → ValidPath ("map." ++ k)
  | entryField {k f : String} : '.' ∉ k.toList → f ∈ InnerModel.fieldNames →
      ValidPath ("map." ++ k ++ "." ++ f)
  | fish {rest : String} : Fish.ValidPath rest → ValidPath ("fish." ++ rest)

/-- A path of a resource to a scalar field: text, an integer or an enumerated value, at the top
or in the inner model, an entry of the map, or the fish along its chain of partners. -/
inductive Resource.LeafPath : String → Prop
  | field {f : String} :
      f ∈ ["id", "name", "description", "longValue", "intValue", "enumValue"] → LeafPath f
  | inner {f : String} : f ∈ InnerModel.fieldNames → LeafPath ("innerModelProperty." ++ f)
  | entry (k : String) {f : String} : f ∈ InnerModel.fieldNames → LeafPath ("map." ++ k ++ "." ++ f)
  | fish {rest : String} : FishPath rest → LeafPath ("fish." ++ rest)

namespace AnyModel

/-- A path valid for the schema of the model. -/
def ValidPath : AnyModel → String → Prop
  | resource _, q => Resource.ValidPath q
  | inner _, q => q ∈ InnerModel.fieldNames
  | fish _, q => Fish.ValidPath q
  | variant _, q => Fish.ValidPath q

/-- A path of the model to a scalar field. -/
def LeafPath : AnyModel → String → Prop
  | resource _, p => Resource.LeafPath p
  | inner _, p => p ∈ InnerModel.fieldNames
  | fish _, p => FishPath p
  | variant _, p => FishPath p

end AnyModel

/-! ## Values read back -/

/-- An integer held in the kind that holds it: `neg` holds only integers below zero, as the
reader and `Json.int` build them. -/
def Number.InKind : Number → Prop
  | .neg n => n.toInt < 0
  | _ => True

/-- A value whose integer, if it is one, is held in the kind that holds it. -/
def Json.NumberInKind (v : Json) : Prop := ∀ n, v = .number n → n.InKind

/-- An integer held in its kind is the number `Json.int` builds. -/
theorem Json.eq_int_of_intValue? {v : Json} (hv : v.NumberInKind) {i : Int}
    (h : v.intValue? = some i) : v = Json.int i := by
  cases v with
  | number n =>
    cases n with
    | nat n =>
      simp only [Json.intValue?, Option.some.injEq] at h
      subst h
      simp [Json.int, Number.ofInt]
    | neg n =>
      simp only [Json.intValue?, Option.some.injEq] at h
      subst h
      have hneg : n.toInt < 0 := hv _ rfl
      simp [Json.int, Number.ofInt, hneg]
    | float x => cases h
  | _ => cases h

theorem decodeField_ok {f : String} {s : Schema Shape} {v j : Json}
    (h : decodeField f s v = .ok j) : readShape s v = .ok j := by
  unfold decodeField at h
  split at h
  · cases h
    assumption
  · cases h

/-- An optional string is read as it is, and reads back through `str?`. -/
theorem ofOption_optString {f : String} {v j : Json} (h : decodeField f (.option .string) v = .ok j) :
    Json.ofOption .string j.str? = v := by
  have h' := decodeField_ok h
  unfold readShape Schema.read at h'
  cases v with
  | null =>
    simp [Schema.ofValue] at h'
    subst h'
    rfl
  | string s =>
    simp [Schema.ofValue, Schema.string] at h'
    subst h'
    rfl
  | _ => simp [Schema.ofValue, Schema.string] at h'

/-- An optional integer is read as it is, and only within the range. -/
theorem readShape_optInt {r : IntRange} {v j : Json} (hv : v.NumberInKind)
    (h : readShape (.option (.int r)) v = .ok j) :
    j = v ∧ (v = .null ∨ ∃ i, v.intValue? = some i ∧ r.bounds.1 ≤ i ∧ i ≤ r.bounds.2) := by
  have hlo : r.bounds.1 ≤ 0 := by cases r <;> decide
  have hhi : 0 ≤ r.bounds.2 := by cases r <;> decide
  unfold readShape Schema.read at h
  cases v with
  | null =>
    simp [Schema.ofValue] at h
    exact ⟨h.symm, .inl rfl⟩
  | number n =>
    simp [Schema.ofValue] at h
    cases n with
    | nat n =>
      simp only [IntRange.accept] at h
      split_ifs at h with hle
      cases h
      exact ⟨rfl, .inr ⟨n.toNat, rfl, by omega, hle⟩⟩
    | neg n =>
      -- the range is checked from below only: `neg` holds no integer above zero
      simp only [IntRange.accept] at h
      split_ifs at h with hge
      cases h
      have hneg : n.toInt < 0 := hv _ rfl
      exact ⟨rfl, .inr ⟨n.toInt, rfl, hge, by omega⟩⟩
    | float x => simp [IntRange.accept] at h
  | _ => simp [Schema.ofValue] at h

theorem ofOption_int32 {f : String} {v j : Json} (hv : v.NumberInKind)
    (h : decodeField f (.option (.int .i32)) v = .ok j) :
    Json.ofOption (fun i : Int32 => Json.int i.toInt) j.int32? = v := by
  obtain ⟨rfl, hnull | ⟨i, hi, hlo, hhi⟩⟩ := readShape_optInt hv (decodeField_ok h)
  · subst hnull
    rfl
  · have hb : IntRange.i32.bounds = (-2147483648, 2147483647) := by decide
    rw [hb] at hlo hhi
    have hround : (Int32.ofInt i).toInt = i := Int32.toInt_ofInt_of_le (by omega) (by omega)
    simp only [Json.int32?, hi, Option.map_some, Json.ofOption, hround]
    exact (Json.eq_int_of_intValue? hv hi).symm

theorem ofOption_int64 {f : String} {v j : Json} (hv : v.NumberInKind)
    (h : decodeField f (.option (.int .i64)) v = .ok j) :
    Json.ofOption (fun i : Int64 => Json.int i.toInt) j.int64? = v := by
  obtain ⟨rfl, hnull | ⟨i, hi, hlo, hhi⟩⟩ := readShape_optInt hv (decodeField_ok h)
  · subst hnull
    rfl
  · have hb : IntRange.i64.bounds = (-9223372036854775808, 9223372036854775807) := by decide
    rw [hb] at hlo hhi
    have hround : (Int64.ofInt i).toInt = i := Int64.toInt_ofInt_of_le (by omega) (by omega)
    simp only [Json.int64?, hi, Option.map_some, Json.ofOption, hround]
    exact (Json.eq_int_of_intValue? hv hi).symm

theorem EnumValue.asString_ofString (s : String) : (ofString s).asString = s := by
  unfold ofString
  split_ifs with h₁ h₂ h₃
  · exact h₁.symm
  · exact h₂.symm
  · exact h₃.symm
  · rfl

/-- Every string survives as an enumerated value. -/
theorem ofOption_enum (x : Option String) :
    Json.ofOption (fun e : EnumValue => Json.string e.asString) (x.map EnumValue.ofString) =
      Json.ofOption .string x := by
  cases x <;> simp [Json.ofOption, EnumValue.asString_ofString]

/-! ## Inner models -/

namespace InnerModel

@[simp] theorem withName_withName (m : InnerModel) (x y : Option String) :
    (m.withName x).withName y = m.withName y := by
  simp [withName]

@[simp] theorem withDescription_withDescription (m : InnerModel) (x y : Option String) :
    (m.withDescription x).withDescription y = m.withDescription y := by
  simp [withDescription]

/-- The field an assignment writes reads back the value assigned. -/
theorem get_set {m m' : InnerModel} {p : String} {v : Json} (h : m.set p v = .ok m') :
    m'.get p = .ok v := by
  cases set_ok h with
  | name j hj =>
    simp only [get, withName, ↓reduceIte]
    rw [ofOption_optString hj]
  | description j hj =>
    simp only [get, withDescription, String.reduceEq, ↓reduceIte]
    rw [ofOption_optString hj]

/-- An assignment leaves the other field alone. -/
theorem Sets.get_of_ne {v : Json} {m m' : InnerModel} {p q : String} (h : Sets v m p m')
    (hq : q ≠ p) : m'.get q = m.get q := by
  cases h with
  | name j _ => simp [get, withName, hq]
  | description j _ => simp [get, withDescription, hq]

/-- A new inner model reads `null` in each of its fields. -/
theorem get_empty {q : String} (hq : q ∈ fieldNames) : ({} : InnerModel).get q = .ok .null := by
  simp only [fieldNames, List.mem_cons, List.not_mem_nil, or_false] at hq
  rcases hq with rfl | rfl <;> rfl

/-- An assignment over a successful one of the same field is the assignment alone. -/
theorem Sets.set_eq {v₁ : Json} {m m₁ : InnerModel} {p : String} (h : Sets v₁ m p m₁) (v₂ : Json) :
    m₁.set p v₂ = m.set p v₂ := by
  cases h with
  | name j _ => simp [set]
  | description j _ => simp [set]

end InnerModel

/-! ## Fish, along the chain of partners -/

namespace Fish

@[simp] theorem core_withCore (f : Fish) (c : FishCore) : (f.withCore c).core = c := by
  cases f <;> rfl

theorem kind_withCore (f : Fish) (c : FishCore) : (f.withCore c).kind = f.kind := by
  cases f <;> rfl

@[simp] theorem withName_withName (f : Fish) (x y : Option String) :
    (f.withName x).withName y = f.withName y := by
  cases f <;> simp [withName, withCore, core, tracker]

@[simp] theorem withAge_withAge (f : Fish) (x y : Option Int32) :
    (f.withAge x).withAge y = f.withAge y := by
  cases f <;> simp [withAge, withCore, core, tracker]

@[simp] theorem withColor_withColor (f : Fish) (x y : Option String) :
    (f.withColor x).withColor y = f.withColor y := by
  cases f <;> simp [withColor, withCore, core, tracker]

/-- An assignment keeps the kind of a fish. -/
theorem Sets.kind {v : Json} {f f' : Fish} {p : String} (h : Sets v f p f') : f'.kind = f.kind := by
  cases h with
  | common hc =>
    cases hc with
    | name f j _ | age f j _ | color f j _ => exact kind_withCore f _
    | weight c w j _ => rfl
  | partner c p np _ => rfl
  | throughPartner c q q' p rest _ _ _ => rfl

/-- A path that is neither the partner nor a path into it is one of the fields every fish has,
or a shark's weight. -/
theorem getMember_of_common {f : Fish} {q : String} (hd : dropPrefix? q "partner." = none)
    (hq : q ≠ "partner") : f.getMember q = f.getCommon q := by
  cases f with
  | salmon c p =>
    unfold getMember
    simp only [hd, hq, ↓reduceIte]
  | shark c w | other k c => rfl

theorem setMember_of_common {f : Fish} {q : String} {v : Json} (hd : dropPrefix? q "partner." = none)
    (hq : q ≠ "partner") : f.setMember q v = f.setCommon q v := by
  cases f with
  | salmon c p => rw [setMember, hd, if_neg hq]
  | shark c w | other k c =>
    rw [setMember.eq_def]

/-- The fields every fish has are read from its common fields alone. -/
theorem getCommon_withCore (f : Fish) (c : FishCore) {q : String}
    (hid : q = "id" → c.id = f.core.id) (hname : q = "name" → c.name = f.core.name)
    (hage : q = "age" → c.age = f.core.age) (hcolor : q = "color" → c.color = f.core.color) :
    (f.withCore c).getCommon q = f.getCommon q := by
  simp only [getCommon, core_withCore]
  split_ifs with h₁ h₂ h₃ h₄ h₅
  · rw [hid h₁]
  · rw [hname h₂]
  · rw [hage h₃]
  · rw [hcolor h₄]
  -- after the common fields, a shark's weight, then the same refusal
  · cases f <;> rfl
  · cases f <;> rfl

theorem getMember_withCore (f : Fish) (c : FishCore) {q : String}
    (hid : q = "id" → c.id = f.core.id) (hname : q = "name" → c.name = f.core.name)
    (hage : q = "age" → c.age = f.core.age) (hcolor : q = "color" → c.color = f.core.color) :
    (f.withCore c).getMember q = f.getMember q := by
  cases hd : dropPrefix? q "partner." with
  | some rest =>
    -- a path into the partner reads the partner, which the common fields leave alone
    cases f with
    | salmon c₀ p =>
      show (salmon c p).getMember q = (salmon c₀ p).getMember q
      unfold getMember
      simp only [hd]
    | shark c₀ w | other k c₀ =>
      exact getCommon_withCore _ c hid hname hage hcolor
  | none =>
    by_cases hq : q = "partner"
    · subst hq
      cases f <;> rfl
    · rw [getMember_of_common hd hq, getMember_of_common hd hq]
      exact getCommon_withCore f c hid hname hage hcolor

/-- A salmon's common fields are read whatever its partner. -/
theorem getCommon_salmon (c : FishCore) (f : String) (p p' : Option Fish) (q : String) :
    (salmon (c.mark f) p').getCommon q = (salmon c p).getCommon q := rfl

/-- **Get after set.** A field assigned through any chain of partners reads back the value
assigned. -/
theorem Sets.getMember_self {v : Json} (hv : v.NumberInKind) {f f' : Fish} {p : String}
    (h : Sets v f p f') : FishPath p → f'.getMember p = .ok v := by
  induction h with
  | common hc =>
    intro _
    cases hc with
    | name f j hj =>
      rw [getMember_of_common rfl (by decide)]
      simp only [withName, getCommon, core_withCore, String.reduceEq, ↓reduceIte]
      rw [ofOption_optString hj]
    | age f j hj =>
      rw [getMember_of_common rfl (by decide)]
      simp only [withAge, getCommon, core_withCore, String.reduceEq, ↓reduceIte]
      rw [ofOption_int32 hv hj]
    | color f j hj =>
      rw [getMember_of_common rfl (by decide)]
      simp only [withColor, getCommon, core_withCore, String.reduceEq, ↓reduceIte]
      rw [ofOption_optString hj]
    | weight c w j hj =>
      rw [getMember_of_common rfl (by decide)]
      simp only [withWeight, getCommon, String.reduceEq, ↓reduceIte]
      rw [ofOption_int32 hv hj]
  | partner c p np _ =>
    intro hp
    exact absurd rfl hp.ne_partner
  | throughPartner c q q' p rest hd hkind hs ih =>
    intro hp
    unfold getMember
    simp only [hd, hkind, ↓reduceIte]
    exact ih (hp.of_dropPrefix? hd)

/-- Paths into the partner part where the paths below it part. -/
theorem not_segmentPrefix_partner {p q rest rest' : String}
    (hp : dropPrefix? p "partner." = some rest) (hq : dropPrefix? q "partner." = some rest')
    (hpq : ¬ SegmentPrefix p q) : ¬ SegmentPrefix rest rest' := by
  rw [eq_of_dropPrefix? hp, eq_of_dropPrefix? hq] at hpq
  exact fun h => hpq ((segmentPrefix_dotted_iff "partner" rest rest').mpr h)

/-- A path into the partner is reached into by the partner. -/
theorem segmentPrefix_partner {q rest : String} (hq : dropPrefix? q "partner." = some rest) :
    SegmentPrefix "partner" q :=
  .inr ⟨rest, eq_of_dropPrefix? hq⟩

/-- An assignment of a common field leaves every other path alone. -/
theorem SetsCommon.getMember_of_ne {v : Json} {f f' : Fish} {p q : String} (h : SetsCommon v f p f')
    (hq : q ≠ p) : f'.getMember q = f.getMember q := by
  cases h with
  | name f j _ =>
    exact getMember_withCore f _ (fun _ => rfl) (fun h => absurd h hq) (fun _ => rfl) (fun _ => rfl)
  | age f j _ =>
    exact getMember_withCore f _ (fun _ => rfl) (fun _ => rfl) (fun h => absurd h hq) (fun _ => rfl)
  | color f j _ =>
    exact getMember_withCore f _ (fun _ => rfl) (fun _ => rfl) (fun _ => rfl) (fun h => absurd h hq)
  | weight c w j _ => simp [getMember, getCommon, withWeight, core, modelName, FishCore.mark, hq]

/-- **Frame.** An assignment of a fish leaves alone every path that neither names what it reaches
into nor is reached into by it. -/
theorem Sets.getMember_frame {v : Json} {f f' : Fish} {p : String} (h : Sets v f p f') :
    ∀ {q : String}, ¬ SegmentPrefix p q → ¬ SegmentPrefix q p → f'.getMember q = f.getMember q := by
  induction h with
  | common hc =>
    intro q hpq _
    exact hc.getMember_of_ne fun heq => hpq (.inl heq)
  | partner c p np _ =>
    intro q hpq _
    -- the path is neither the partner nor a path into it
    have hd : dropPrefix? q "partner." = none := by
      cases hq : dropPrefix? q "partner." with
      | none => rfl
      | some rest => exact absurd (segmentPrefix_partner hq) hpq
    have hne : q ≠ "partner" := fun heq => hpq (.inl heq)
    rw [getMember_of_common hd hne, getMember_of_common hd hne]
    exact getCommon_salmon c "partner" p np q
  | throughPartner c q₀ q₀' p rest hd _ hs ih =>
    intro q hpq hqp
    cases hq : dropPrefix? q "partner." with
    | none =>
      have hne : q ≠ "partner" := by
        rintro rfl
        exact hqp (segmentPrefix_partner hd)
      rw [getMember_of_common hq hne, getMember_of_common hq hne]
      exact getCommon_salmon c "partner" (some q₀) (some q₀') q
    | some rest' =>
      -- both paths go into the partner and part there
      unfold getMember
      simp only [hq]
      split_ifs
      · rw [hs.kind]
      · exact ih (not_segmentPrefix_partner hd hq hpq) (not_segmentPrefix_partner hq hd hqp)

/-- **Set after set.** An assignment over a successful one of the same path is the assignment
alone, along the chain of partners. -/
theorem Sets.setMember_eq {v₁ : Json} {f f₁ : Fish} {p : String} (h : Sets v₁ f p f₁) (v₂ : Json) :
    f₁.setMember p v₂ = f.setMember p v₂ := by
  induction h with
  | common hc =>
    cases hc with
    | name f j _ =>
      rw [setMember_of_common rfl (by decide), setMember_of_common rfl (by decide)]
      simp only [setCommon, String.reduceEq, ↓reduceIte, withName_withName]
    | age f j _ =>
      rw [setMember_of_common rfl (by decide), setMember_of_common rfl (by decide)]
      simp only [setCommon, String.reduceEq, ↓reduceIte, withAge_withAge]
    | color f j _ =>
      rw [setMember_of_common rfl (by decide), setMember_of_common rfl (by decide)]
      simp only [setCommon, String.reduceEq, ↓reduceIte, withColor_withColor]
    | weight c w j _ =>
      rw [setMember_of_common rfl (by decide), setMember_of_common rfl (by decide)]
      simp [setCommon, withWeight]
  | partner c p np _ =>
    rw [setMember, setMember, show dropPrefix? "partner" "partner." = none from rfl]
    simp only [↓reduceIte, FishCore.mark_mark]
  | throughPartner c q q₁ p rest hd hkind hs ih =>
    rw [setMember, setMember, hd]
    simp only [hkind, ↓reduceIte, ih, FishCore.mark_mark]

theorem set_set {f f₁ : Fish} {p : String} {v₁ : Json} (h : f.set p v₁ = .ok f₁) (v₂ : Json) :
    f₁.set p v₂ = f.set p v₂ := by
  obtain ⟨hkind, hs⟩ := set_ok h
  simp only [set, hkind, ↓reduceIte]
  exact hs.setMember_eq v₂

theorem get_set {f f' : Fish} {p : String} {v : Json} (hv : v.NumberInKind) (hp : FishPath p)
    (h : f.set p v = .ok f') : f'.get p = .ok v := by
  obtain ⟨hkind, hs⟩ := set_ok h
  simp only [get, hkind, ↓reduceIte]
  exact hs.getMember_self hv hp

theorem Sets.get_frame {v : Json} {f f' : Fish} {p q : String} (h : Sets v f p f')
    (hpq : ¬ SegmentPrefix p q) (hqp : ¬ SegmentPrefix q p) : f'.get q = f.get q := by
  unfold get
  split_ifs
  · rw [h.kind]
  · exact h.getMember_frame hpq hqp

end Fish

/-! ## Resources -/

namespace Resource

theorem set_dotted {r : Resource} {p head rest : String} (hs : splitOnce p '.' = some (head, rest))
    (v : Json) : r.set p v = r.setNested p head rest v := by
  unfold set
  rw [hs]

theorem get_dotted {r : Resource} {p head rest : String} (hs : splitOnce p '.' = some (head, rest)) :
    r.get p = r.getNested head rest := by
  unfold get
  rw [hs]

theorem setNested_inner (r : Resource) (p rest : String) (v : Json) :
    r.setNested p "innerModelProperty" rest v =
      ((r.innerModelProperty.getD {}).set rest v >>= fun m =>
        pure ({ r with innerModelProperty := some m }.mark "innerModelProperty")) := by
  simp only [setNested, ↓reduceIte]

theorem setNested_fish (r : Resource) (p rest : String) (v : Json) :
    r.setNested p "fish" rest v = r.fish.elim (.error (.invalidPath ("'" ++ p ++ "': fish is not set")))
      fun f => f.set rest v >>= fun f' => pure ({ r with fish := some f' }.mark "fish") := by
  unfold setNested
  rw [if_neg (show "fish" ≠ "innerModelProperty" by decide), if_pos rfl]
  cases r.fish <;> rfl

theorem setNested_entry (r : Resource) (p rest : String) (v : Json) (hs : splitOnce rest '.' = none) :
    r.setNested p "map" rest v = (InnerModel.ofTracked p v >>= fun e =>
      pure ({ r with map := some (Keyed.insert (r.map.getD []) rest e) }.mark "map")) := by
  simp only [setNested, String.reduceEq, ↓reduceIte, hs]

theorem setNested_member (r : Resource) (p rest key member : String) (v : Json)
    (hs : splitOnce rest '.' = some (key, member)) :
    r.setNested p "map" rest v =
      ((((Keyed.get? (r.map.getD []) key).join).getD {}).set member v >>= fun e =>
        pure ({ r with map := some (Keyed.insert (r.map.getD []) key (some e)) }.mark "map")) := by
  simp only [setNested, String.reduceEq, ↓reduceIte, hs]

theorem map_bind_get? (r : Resource) (k : String) :
    r.map.bind (Keyed.get? · k) = Keyed.get? (r.map.getD []) k := by
  cases r.map <;> rfl

theorem getNested_inner (r : Resource) (rest : String) :
    r.getNested "innerModelProperty" rest = r.innerModelProperty.elim (.ok .null) (·.get rest) := by
  unfold getNested
  rw [if_pos rfl]
  cases r.innerModelProperty <;> rfl

theorem getNested_fish (r : Resource) (rest : String) :
    r.getNested "fish" rest = r.fish.elim (.ok .null) (·.get rest) := by
  unfold getNested
  rw [if_neg (show "fish" ≠ "innerModelProperty" by decide), if_pos rfl]
  cases r.fish <;> rfl

theorem getNested_entry (r : Resource) (rest : String) (hs : splitOnce rest '.' = none) :
    r.getNested "map" rest = match (Keyed.get? (r.map.getD []) rest).join with
      | none => .ok .null
      | some e => .ok e.toJson := by
  simp only [getNested, String.reduceEq, ↓reduceIte, hs, map_bind_get?]
  cases (Keyed.get? (r.map.getD []) rest).join <;> rfl

theorem getNested_member (r : Resource) (rest key member : String)
    (hs : splitOnce rest '.' = some (key, member)) :
    r.getNested "map" rest = match (Keyed.get? (r.map.getD []) key).join with
      | none => .ok .null
      | some e => e.get member := by
  simp only [getNested, String.reduceEq, ↓reduceIte, hs, map_bind_get?]
  cases (Keyed.get? (r.map.getD []) key).join <;> rfl

/-- A path into the map reads only the entry under its key. -/
theorem getNested_map_congr {r r' : Resource} {rest : String}
    (h : Keyed.get? (r'.map.getD []) (pathHead rest) = Keyed.get? (r.map.getD []) (pathHead rest)) :
    r'.getNested "map" rest = r.getNested "map" rest := by
  cases hs : splitOnce rest '.' with
  | none =>
    rw [pathHead_of_splitOnce_none hs] at h
    rw [getNested_entry r' rest hs, getNested_entry r rest hs, h]
  | some km =>
    obtain ⟨key, member⟩ := km
    rw [pathHead_of_splitOnce hs] at h
    rw [getNested_member r' rest key member hs, getNested_member r rest key member hs, h]

/-- Two resources hold the same in the field named `f`: what a path starting with `f` reads. -/
def SameAt (r r' : Resource) (f : String) : Prop :=
  (f = "id" → r'.id = r.id) ∧ (f = "name" → r'.name = r.name) ∧
  (f = "description" → r'.description = r.description) ∧ (f = "map" → r'.map = r.map) ∧
  (f = "longValue" → r'.longValue = r.longValue) ∧ (f = "intValue" → r'.intValue = r.intValue) ∧
  (f = "enumValue" → r'.enumValue = r.enumValue) ∧
  (f = "innerModelProperty" → r'.innerModelProperty = r.innerModelProperty) ∧
  (f = "array" → r'.array = r.array) ∧ (f = "fish" → r'.fish = r.fish)

/-- A path reads only the field it starts with. -/
theorem get_congr {r r' : Resource} {q : String} (h : SameAt r r' (pathHead q)) :
    r'.get q = r.get q := by
  obtain ⟨hid, hname, hdesc, hmap, hlong, hint, henum, hinner, harray, hfish⟩ := h
  -- one field after another: the path names it, and both sides read it, or it does not
  cases hs : splitOnce q '.' with
  | some km =>
    obtain ⟨head, rest⟩ := km
    rw [pathHead_of_splitOnce hs] at hinner hfish hmap
    rw [get_dotted hs, get_dotted hs]
    unfold getNested
    by_cases h1 : head = "innerModelProperty"
    · rw [if_pos h1, if_pos h1, hinner h1]
    rw [if_neg h1, if_neg h1]
    by_cases h2 : head = "fish"
    · rw [if_pos h2, if_pos h2, hfish h2]
    rw [if_neg h2, if_neg h2]
    by_cases h3 : head = "map"
    · rw [if_pos h3, if_pos h3, hmap h3]
    rw [if_neg h3, if_neg h3]
  | none =>
    rw [pathHead_of_splitOnce_none hs] at hid hname hdesc hmap hlong hint henum hinner harray hfish
    unfold get
    rw [hs]
    dsimp only
    by_cases h1 : q = "id"
    · rw [if_pos h1, if_pos h1, hid h1]
    rw [if_neg h1, if_neg h1]
    by_cases h2 : q = "name"
    · rw [if_pos h2, if_pos h2, hname h2]
    rw [if_neg h2, if_neg h2]
    by_cases h3 : q = "description"
    · rw [if_pos h3, if_pos h3, hdesc h3]
    rw [if_neg h3, if_neg h3]
    by_cases h4 : q = "map"
    · rw [if_pos h4, if_pos h4, hmap h4]
    rw [if_neg h4, if_neg h4]
    by_cases h5 : q = "longValue"
    · rw [if_pos h5, if_pos h5, hlong h5]
    rw [if_neg h5, if_neg h5]
    by_cases h6 : q = "intValue"
    · rw [if_pos h6, if_pos h6, hint h6]
    rw [if_neg h6, if_neg h6]
    by_cases h7 : q = "enumValue"
    · rw [if_pos h7, if_pos h7, henum h7]
    rw [if_neg h7, if_neg h7]
    by_cases h8 : q = "innerModelProperty"
    · rw [if_pos h8, if_pos h8, hinner h8]
    rw [if_neg h8, if_neg h8]
    by_cases h9 : q = "array"
    · rw [if_pos h9, if_pos h9, harray h9]
    rw [if_neg h9, if_neg h9]
    by_cases h10 : q = "fish"
    · rw [if_pos h10, if_pos h10, hfish h10]
    rw [if_neg h10, if_neg h10]

/-- An assignment changes only the field its path starts with. -/
theorem Sets.sameAt {v : Json} {r r' : Resource} {p : String} (h : Sets v r p r') {f : String}
    (hf : f ≠ pathHead p) : SameAt r r' f := by
  cases h with
  | description _ _ | mapObject _ _ _ _ | mapValue _ _ _ | longValue _ _ | intValue _ _
  | enumValue _ _ | innerModel _ _ | array _ _ | fish _ _ =>
    rw [pathHead_of_splitOnce_none (splitOnce_eq_none (by decide))] at hf
    simp [SameAt, mark, hf]
  | innerMember field rest m hsplit _ | fishMember field rest _ _ hsplit _ _
  | mapEntry field rest _ hsplit _ _ | mapMember field rest _ _ _ hsplit _ _ =>
    rw [pathHead_of_splitOnce hsplit] at hf
    simp [SameAt, mark, hf]

/-- A field of the resource itself is a path without a dot. -/
theorem splitOnce_field {q : String} (hf : q ∈ "id" :: "name" :: fieldNames) :
    splitOnce q '.' = none := by
  apply splitOnce_eq_none
  simp only [fieldNames, List.mem_cons, List.not_mem_nil, or_false] at hf
  rcases hf with rfl | rfl | rfl | rfl | rfl | rfl | rfl | rfl | rfl | rfl <;> decide

/-- An inner model a valid path reads is read at one of its fields. -/
theorem ValidPath.inner_field {q f : String} (hq : ValidPath q)
    (hs : splitOnce q '.' = some ("innerModelProperty", f)) : f ∈ InnerModel.fieldNames := by
  cases hq with
  | field hf =>
    rw [splitOnce_field hf] at hs
    cases hs
  | @inner f' hf =>
    rw [splitOnce_inner_path] at hs
    cases hs
    exact hf
  | @entry k _ =>
    rw [splitOnce_map_path] at hs
    simp at hs
  | @entryField k f' _ _ =>
    rw [splitOnce_entry_path] at hs
    simp at hs
  | @fish rest _ =>
    rw [splitOnce_fish_path] at hs
    simp at hs

/-- An entry of the map that a valid path reads into is read at one of its fields. -/
theorem ValidPath.entry_field {q rest k f : String} (hq : ValidPath q)
    (hs : splitOnce q '.' = some ("map", rest)) (hr : splitOnce rest '.' = some (k, f)) :
    f ∈ InnerModel.fieldNames := by
  cases hq with
  | field hf =>
    rw [splitOnce_field hf] at hs
    cases hs
  | @inner f' _ =>
    rw [splitOnce_inner_path] at hs
    simp at hs
  | @entry k' hk =>
    rw [splitOnce_map_path] at hs
    cases hs
    rw [splitOnce_eq_none hk] at hr
    cases hr
  | @entryField k' f' hk hf =>
    rw [splitOnce_entry_path] at hs
    cases hs
    rw [splitOnce_dotted f' hk] at hr
    cases hr
    exact hf
  | @fish rest' _ =>
    rw [splitOnce_fish_path] at hs
    simp at hs

/-- **Get after set.** A path to a scalar field of a resource reads back the value assigned. -/
theorem get_set_leaf {r r' : Resource} {p : String} {v : Json} (hv : v.NumberInKind)
    (hp : LeafPath p) (h : r.set p v = .ok r') : r'.get p = .ok v := by
  cases hp with
  | field hf =>
    simp only [List.mem_cons, List.not_mem_nil, or_false] at hf
    unfold set at h
    rcases hf with rfl | rfl | rfl | rfl | rfl | rfl
    · -- the id and the name are read-only
      rw [splitOnce_eq_none (by decide)] at h
      simp only [String.reduceEq, or_false, ↓reduceIte, reduceCtorEq] at h
    · rw [splitOnce_eq_none (by decide)] at h
      simp only [String.reduceEq, or_true, ↓reduceIte, reduceCtorEq] at h
    · rw [splitOnce_eq_none (by decide)] at h
      simp only [String.reduceEq, or_self, ↓reduceIte, bind_pure_comp] at h
      obtain ⟨j, hj, rfl⟩ := Except.map_ok_inv h
      unfold get
      rw [splitOnce_eq_none (by decide)]
      simp only [String.reduceEq, ↓reduceIte, mark, Except.ok.injEq]
      exact ofOption_optString hj
    · rw [splitOnce_eq_none (by decide)] at h
      simp only [String.reduceEq, or_self, ↓reduceIte, bind_pure_comp] at h
      obtain ⟨j, hj, rfl⟩ := Except.map_ok_inv h
      unfold get
      rw [splitOnce_eq_none (by decide)]
      simp only [String.reduceEq, ↓reduceIte, mark, Except.ok.injEq]
      exact ofOption_int64 hv hj
    · rw [splitOnce_eq_none (by decide)] at h
      simp only [String.reduceEq, or_self, ↓reduceIte, bind_pure_comp] at h
      obtain ⟨j, hj, rfl⟩ := Except.map_ok_inv h
      unfold get
      rw [splitOnce_eq_none (by decide)]
      simp only [String.reduceEq, ↓reduceIte, mark, Except.ok.injEq]
      exact ofOption_int32 hv hj
    · rw [splitOnce_eq_none (by decide)] at h
      simp only [String.reduceEq, or_self, ↓reduceIte, bind_pure_comp] at h
      obtain ⟨j, hj, rfl⟩ := Except.map_ok_inv h
      unfold get
      rw [splitOnce_eq_none (by decide)]
      simp only [String.reduceEq, ↓reduceIte, mark, Except.ok.injEq]
      rw [ofOption_enum]
      exact ofOption_optString hj
  | @inner f hf =>
    have hs := splitOnce_inner_path f
    rw [set_dotted hs, setNested_inner] at h
    obtain ⟨m, hm, hr⟩ := Except.bind_ok_inv h
    cases hr
    rw [get_dotted hs, getNested_inner]
    exact InnerModel.get_set hm
  | @entry k f hf =>
    have hs := splitOnce_entry_path k f
    obtain ⟨⟨key, member⟩, hkm⟩ := Option.ne_none_iff_exists'.mp
      (splitOnce_ne_none (show '.' ∈ (k ++ "." ++ f).toList by simp))
    rw [set_dotted hs, setNested_member _ _ _ key member v hkm] at h
    obtain ⟨e, he, hr⟩ := Except.bind_ok_inv h
    cases hr
    rw [get_dotted hs, getNested_member _ _ key member hkm]
    simp only [mark, Option.getD_some, Keyed.get?_insert_self, Option.join_some]
    exact InnerModel.get_set he
  | @fish rest hrest =>
    have hs := splitOnce_fish_path rest
    rw [set_dotted hs, setNested_fish] at h
    cases hf : r.fish with
    | none =>
      rw [hf] at h
      cases h
    | some f =>
      rw [hf] at h
      obtain ⟨f', hf', hr⟩ := Except.bind_ok_inv h
      cases hr
      rw [get_dotted hs, getNested_fish]
      exact Fish.get_set hv hrest hf'

/-- **Frame.** An assignment of a resource leaves alone every valid path that neither names what
it reaches into nor is reached into by it. -/
theorem Sets.get_frame {v : Json} {r r' : Resource} {p q : String} (h : Sets v r p r')
    (hq : ValidPath q) (hpq : ¬ SegmentPrefix p q) (hqp : ¬ SegmentPrefix q p) :
    r'.get q = r.get q := by
  by_cases hhead : pathHead q = pathHead p
  swap
  · exact get_congr (h.sameAt hhead)
  -- the paths start with the same field, and the assignment goes below it
  have hdot : splitOnce p '.' ≠ none := by
    intro hs
    rw [pathHead_of_splitOnce_none hs] at hhead
    exact hpq (hhead ▸ segmentPrefix_pathHead q)
  cases h with
  | description _ _ | mapObject _ _ _ _ | mapValue _ _ _ | longValue _ _ | intValue _ _
  | enumValue _ _ | innerModel _ _ | array _ _ | fish _ _ =>
    exact absurd (splitOnce_eq_none (by decide)) hdot
  | innerMember field rest m hsplit hset =>
    rw [pathHead_of_splitOnce hsplit] at hhead
    obtain ⟨rest', hq'⟩ := splitOnce_of_pathHead_eq hsplit hhead hqp
    have hne : rest' ≠ rest := fun heq => not_segmentPrefix_rest hsplit hq' hpq (.inl heq)
    rw [get_dotted hq', get_dotted hq', getNested_inner, getNested_inner]
    show m.get rest' = _
    rw [(InnerModel.set_ok hset).get_of_ne hne]
    -- an inner model the assignment created reads null in its other field
    cases r.innerModelProperty with
    | none => exact InnerModel.get_empty (hq.inner_field hq')
    | some m₀ => rfl
  | fishMember field rest f f' hsplit hf hset =>
    rw [pathHead_of_splitOnce hsplit] at hhead
    obtain ⟨rest', hq'⟩ := splitOnce_of_pathHead_eq hsplit hhead hqp
    rw [get_dotted hq', get_dotted hq', getNested_fish, getNested_fish, hf]
    exact (Fish.set_ok hset).2.get_frame (not_segmentPrefix_rest hsplit hq' hpq)
      (not_segmentPrefix_rest hq' hsplit hqp)
  | mapEntry field rest e hsplit _ _ =>
    rw [pathHead_of_splitOnce hsplit] at hhead
    obtain ⟨rest', hq'⟩ := splitOnce_of_pathHead_eq hsplit hhead hqp
    -- the entry read is not the entry assigned
    have hk : rest ≠ pathHead rest' := by
      intro heq
      apply not_segmentPrefix_rest hsplit hq' hpq
      rw [heq]
      exact segmentPrefix_pathHead rest'
    rw [get_dotted hq', get_dotted hq']
    exact getNested_map_congr (Keyed.get?_insert_of_ne _ _ hk)
  | mapMember field rest key member e hsplit hkm hset =>
    rw [pathHead_of_splitOnce hsplit] at hhead
    obtain ⟨rest', hq'⟩ := splitOnce_of_pathHead_eq hsplit hhead hqp
    have hpq' := not_segmentPrefix_rest hsplit hq' hpq
    rw [get_dotted hq', get_dotted hq']
    by_cases hk : pathHead rest' = key
    · -- the same entry, read at a field other than the one assigned
      obtain ⟨member', hs'⟩ :=
        splitOnce_of_pathHead_eq hkm hk (not_segmentPrefix_rest hq' hsplit hqp)
      have hne : member' ≠ member := fun heq => not_segmentPrefix_rest hkm hs' hpq' (.inl heq)
      rw [getNested_member _ _ key member' hs', getNested_member _ _ key member' hs']
      simp only [mark, Option.getD_some, Keyed.get?_insert_self, Option.join_some]
      rw [(InnerModel.set_ok hset).get_of_ne hne]
      cases (Keyed.get? (r.map.getD []) key).join with
      | none => exact InnerModel.get_empty (hq.entry_field hq' hs')
      | some e₀ => rfl
    · exact getNested_map_congr (Keyed.get?_insert_of_ne _ _ (Ne.symm hk))

/-- **Set after set.** An assignment over a successful one of the same path is the assignment
alone. -/
theorem Sets.set_eq {v₁ : Json} {r r₁ : Resource} {p : String} (h : Sets v₁ r p r₁) (v₂ : Json) :
    r₁.set p v₂ = r.set p v₂ := by
  cases h with
  | description _ _ | mapObject _ _ _ _ | mapValue _ _ _ | longValue _ _ | intValue _ _
  | enumValue _ _ | innerModel _ _ | array _ _ | fish _ _ =>
    -- a field of the resource itself: the second value replaces the first, marked once
    unfold set
    rw [splitOnce_eq_none (by decide)]
    simp [mark]
  | innerMember field rest m hsplit hset =>
    rw [set_dotted hsplit, set_dotted hsplit, setNested_inner, setNested_inner]
    simp only [mark, Option.getD_some, (InnerModel.set_ok hset).set_eq v₂, Tracker.mark_mark]
  | fishMember field rest f f' hsplit hf hset =>
    rw [set_dotted hsplit, set_dotted hsplit, setNested_fish, setNested_fish, hf]
    simp only [mark, Option.elim_some, Fish.set_set hset v₂, Tracker.mark_mark]
  | mapEntry field rest e hsplit hnone _ =>
    rw [set_dotted hsplit, set_dotted hsplit, setNested_entry _ _ _ _ hnone,
      setNested_entry _ _ _ _ hnone]
    simp only [mark, Option.getD_some, Keyed.insert_insert, Tracker.mark_mark]
  | mapMember field rest key member e hsplit hkm hset =>
    rw [set_dotted hsplit, set_dotted hsplit, setNested_member _ _ _ _ _ _ hkm,
      setNested_member _ _ _ _ _ _ hkm]
    simp only [mark, Option.getD_some, Keyed.get?_insert_self, Option.join_some,
      (InnerModel.set_ok hset).set_eq v₂, Keyed.insert_insert, Tracker.mark_mark]

end Resource

/-! ## Every model -/

namespace AnyModel

/-- **Get after set.** A path to a scalar field reads back the value assigned to it. -/
theorem get_set_leaf {m m' : AnyModel} {p : String} {v : Json} (hv : v.NumberInKind)
    (hp : m.LeafPath p) (h : m.set p v = .ok m') : m'.get p = .ok v := by
  cases m with
  | resource r =>
    obtain ⟨r', hr, rfl⟩ := Except.map_ok_inv h
    exact Resource.get_set_leaf hv hp hr
  | inner n =>
    obtain ⟨n', hn, rfl⟩ := Except.map_ok_inv h
    exact InnerModel.get_set hn
  | fish f =>
    obtain ⟨f', hf, rfl⟩ := Except.map_ok_inv h
    exact Fish.get_set hv hp hf
  | variant f =>
    obtain ⟨f', hf, rfl⟩ := Except.map_ok_inv h
    exact (Fish.setMember_ok hf).getMember_self hv hp

/-- **Frame.** An assignment leaves alone every valid path that neither names what it reaches
into nor is reached into by it. -/
theorem get_set_frame {m m' : AnyModel} {p q : String} {v : Json} (h : m.set p v = .ok m')
    (hq : m.ValidPath q) (hpq : ¬ SegmentPrefix p q) (hqp : ¬ SegmentPrefix q p) :
    m'.get q = m.get q := by
  cases m with
  | resource r =>
    obtain ⟨r', hr, rfl⟩ := Except.map_ok_inv h
    exact (Resource.set_ok hr).get_frame hq hpq hqp
  | inner n =>
    obtain ⟨n', hn, rfl⟩ := Except.map_ok_inv h
    exact (InnerModel.set_ok hn).get_of_ne fun heq => hpq (.inl heq)
  | fish f =>
    obtain ⟨f', hf, rfl⟩ := Except.map_ok_inv h
    exact (Fish.set_ok hf).2.get_frame hpq hqp
  | variant f =>
    obtain ⟨f', hf, rfl⟩ := Except.map_ok_inv h
    exact (Fish.setMember_ok hf).getMember_frame hpq hqp

/-- **Set after set.** An assignment over a successful one of the same path is the assignment
alone: it fails as the assignment alone fails, and otherwise ends in the same model. -/
theorem set_set {m m₁ : AnyModel} {p : String} {v₁ : Json} (h : m.set p v₁ = .ok m₁) (v₂ : Json) :
    m₁.set p v₂ = m.set p v₂ := by
  cases m with
  | resource r =>
    obtain ⟨r₁, hr, rfl⟩ := Except.map_ok_inv h
    show resource <$> r₁.set p v₂ = resource <$> r.set p v₂
    rw [(Resource.set_ok hr).set_eq v₂]
  | inner n =>
    obtain ⟨n₁, hn, rfl⟩ := Except.map_ok_inv h
    show inner <$> n₁.set p v₂ = inner <$> n.set p v₂
    rw [(InnerModel.set_ok hn).set_eq v₂]
  | fish f =>
    obtain ⟨f₁, hf, rfl⟩ := Except.map_ok_inv h
    show fish <$> f₁.set p v₂ = fish <$> f.set p v₂
    rw [Fish.set_set hf v₂]
  | variant f =>
    obtain ⟨f₁, hf, rfl⟩ := Except.map_ok_inv h
    show variant <$> f₁.setMember p v₂ = variant <$> f.setMember p v₂
    rw [(Fish.setMember_ok hf).setMember_eq v₂]

end AnyModel

/-- **Dynamic access obeys the lens laws**, for every model. A path to a scalar field, through
any chain of inner models, map entries, fish and partners, reads back the value assigned to it;
every valid path that neither names what an assignment reaches into nor is reached into by it
reads as before; and an assignment over a successful one of the same path is the assignment
alone, failing with the same error or ending in the same fields and trackers at every depth. -/
theorem dynamic_access_lens_laws (m : AnyModel) :
    (∀ p v m', m.LeafPath p → v.NumberInKind → m.set p v = .ok m' → m'.get p = .ok v) ∧
    (∀ p v m' q, m.set p v = .ok m' → m.ValidPath q → ¬ SegmentPrefix p q →
      ¬ SegmentPrefix q p → m'.get q = m.get q) ∧
    (∀ p v₁ v₂ m₁, m.set p v₁ = .ok m₁ → m₁.set p v₂ = m.set p v₂) :=
  ⟨fun _ _ _ hp hv h => AnyModel.get_set_leaf hv hp h,
    fun _ _ _ _ h hq hpq hqp => AnyModel.get_set_frame h hq hpq hqp,
    fun _ _ v₂ _ h => AnyModel.set_set h v₂⟩

/-- A new resource given a description: the description reads back, the inner model's name
reads as before, and a second description is the second alone. -/
theorem dynamic_access_lens_laws_description :
    ∃ m', (AnyModel.resource {}).set "description" (.string "d") = .ok m' ∧
      m'.get "description" = .ok (.string "d") ∧
      m'.get "innerModelProperty.name" = (AnyModel.resource {}).get "innerModelProperty.name" ∧
      m'.set "description" (.string "e") = (AnyModel.resource {}).set "description" (.string "e") := by
  have hset : (AnyModel.resource {}).set "description" (.string "d") =
      .ok (.resource ({ ({} : Resource) with description := some "d" }.mark "description")) := by
    show AnyModel.resource <$> Resource.set {} "description" (.string "d") = _
    unfold Resource.set
    rw [splitOnce_eq_none (by decide)]
    simp [decodeField, readShape, Schema.read, Schema.ofValue, Schema.string, Json.size, Json.str?]
  have hq : AnyModel.ValidPath (.resource {}) "innerModelProperty.name" := by
    rw [show "innerModelProperty.name" = "innerModelProperty." ++ "name" from rfl]
    exact .inner (by decide)
  obtain ⟨hget, hframe, hagain⟩ := dynamic_access_lens_laws (.resource {})
  refine ⟨_, hset, hget _ _ _ (Resource.LeafPath.field (by decide)) (fun _ h => by cases h) hset,
    hframe _ _ _ _ hset hq ?_ ?_, hagain _ _ _ _ hset⟩
  · exact fun h => absurd h.prefix (by decide)
  · exact fun h => absurd h.prefix (by decide)

end MergePatch
