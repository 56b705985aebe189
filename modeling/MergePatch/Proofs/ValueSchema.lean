import Mathlib
import MergePatch.Json.Schema
import MergePatch.Proofs.Keyed
/-!
# Values read by a schema in memory

`Schema.ofValue` reads a value held in memory. Each way a schema accepts a value is a lemma here
that takes the readings of the value's parts as hypotheses.

Records are the case with an argument. A record reads an object member by member, keeping under
its name the reading of each member that names a field (`Schema.readNamed`), then fills in each
field that was left out (`Schema.fillAbsent`). `Schema.fillAbsent_readNamed` says when the result
is a given sorted list `G`, key by key: each member that names a field reads to `G`'s entry under
that name, each field left out has its absent value in `G`, and `G` holds nothing else. The text
reader builds the same list in the order of the text and meets the same conditions.
-/

namespace MergePatch

namespace Schema

variable {ν : Type} {env : ν → Schema ν}

/-! ## Fields read and fields filled -/

/-- The fields read from the members `fs` onto `got`: each member that names a field, under its
name, read to `rd`. -/
def readNamed (fields : List (String × Absent × Schema ν)) (rd : String → Json) (got : Fields)
    (fs : List (String × Json)) : Fields :=
  fs.foldl (fun g p => if (fields.find? (·.1 == p.1)).isSome then Keyed.insert g p.1 (rd p.1) else g)
    got

theorem get?_readNamed (fields : List (String × Absent × Schema ν)) (rd : String → Json)
    (fs : List (String × Json)) (got : Fields) (k : String) :
    Keyed.get? (readNamed fields rd got fs) k =
      if k ∈ fs.map Prod.fst ∧ ∃ f ∈ fields, f.1 = k then some (rd k) else Keyed.get? got k := by
  induction fs generalizing got with
  | nil => simp [readNamed]
  | cons p fs ih =>
    rw [readNamed, List.foldl_cons, ← readNamed, ih]
    simp only [List.map_cons, List.mem_cons]
    by_cases hk : p.1 = k
    · subst hk
      by_cases hnamed : ∃ f ∈ fields, f.1 = p.1 <;> simp [hnamed]
    · have hstep : Keyed.get? (if (fields.find? (·.1 == p.1)).isSome then
          Keyed.insert got p.1 (rd p.1) else got) k = Keyed.get? got k := by
        split <;> simp [Keyed.get?_insert, hk]
      have hk' : ¬k = p.1 := Ne.symm hk
      simp only [hstep, hk', false_or]

theorem sorted_readNamed (fields : List (String × Absent × Schema ν)) (rd : String → Json)
    (fs : List (String × Json)) {got : Fields} (hgot : Keyed.Sorted got) :
    Keyed.Sorted (readNamed fields rd got fs) := by
  induction fs generalizing got with
  | nil => exact hgot
  | cons p fs ih =>
    rw [readNamed, List.foldl_cons, ← readNamed]
    apply ih
    split
    · exact hgot.insert _ _
    · exact hgot

/-- Filling absent fields field by field: what is filled so far keeps `got`'s entries, and every
key that no field still to come names reads as in `G`. -/
theorem foldlM_fill {got G : Fields} (hkept : ∀ k v, Keyed.get? got k = some v → Keyed.get? G k = some v) :
    ∀ (fs : List (String × Absent × Schema ν)) (acc : Fields),
      (∀ f ∈ fs, Keyed.get? got f.1 = none →
        ∃ v, absentValue f.1 f.2.1 = .ok v ∧ Keyed.get? G f.1 = some v) →
      Keyed.Sorted acc → (∀ k v, Keyed.get? got k = some v → Keyed.get? acc k = some v) →
      (∀ k, k ∉ fs.map Prod.fst → Keyed.get? got k = none → Keyed.get? acc k = Keyed.get? G k) →
      ∃ acc', fs.foldlM (fun (acc : Fields) (x : String × Absent × Schema ν) =>
          match Keyed.get? got x.1 with
          | some _ => (Except.ok acc : Except Mismatch Fields)
          | none => do
            let v ← absentValue x.1 x.2.1
            Except.ok (Keyed.insert acc x.1 v)) acc = .ok acc' ∧
        Keyed.Sorted acc' ∧ ∀ k, Keyed.get? acc' k = Keyed.get? G k := by
  intro fs
  induction fs with
  | nil =>
    intro acc _ hacc hkeep hrest
    refine ⟨acc, rfl, hacc, fun k => ?_⟩
    cases hk : Keyed.get? got k with
    | none => exact hrest k List.not_mem_nil hk
    | some v => rw [hkeep k v hk, hkept k v hk]
  | cons f fs ih =>
    intro acc hfs hacc hkeep hrest
    have hfs' : ∀ g ∈ fs, Keyed.get? got g.1 = none →
        ∃ v, absentValue g.1 g.2.1 = .ok v ∧ Keyed.get? G g.1 = some v :=
      fun g hg => hfs g (List.mem_cons_of_mem _ hg)
    rw [List.foldlM_cons]
    cases hf : Keyed.get? got f.1 with
    | some u =>
      simp only
      apply ih acc hfs' hacc hkeep
      intro k hk hnk
      have hne : f.1 ≠ k := by
        rintro rfl
        rw [hf] at hnk
        cases hnk
      exact hrest k (by rw [List.map_cons, List.mem_cons, not_or]; exact ⟨Ne.symm hne, hk⟩) hnk
    | none =>
      obtain ⟨v, hv, hGv⟩ := hfs f List.mem_cons_self hf
      simp only [hv, bind, Except.bind]
      apply ih _ hfs' (hacc.insert f.1 v)
      · intro k w hk
        have hne : f.1 ≠ k := by
          rintro rfl
          rw [hf] at hk
          cases hk
        rw [Keyed.get?_insert_of_ne _ _ hne]
        exact hkeep k w hk
      · intro k hk hnk
        rw [Keyed.get?_insert]
        by_cases hne : f.1 = k
        · subst hne
          rw [if_pos rfl, hGv]
        · rw [if_neg hne]
          exact hrest k (by rw [List.map_cons, List.mem_cons, not_or]; exact ⟨Ne.symm hne, hk⟩) hnk

/-- Filling the fields that `got` lacks gives `G` when `G` keeps every entry of `got`, holds the
absent value of every field that `got` lacks, and holds nothing else. -/
theorem fillAbsent_eq {fields : List (String × Absent × Schema ν)} {got G : Fields}
    (hgot : Keyed.Sorted got) (hG : Keyed.Sorted G)
    (hkept : ∀ k v, Keyed.get? got k = some v → Keyed.get? G k = some v)
    (hfill : ∀ f ∈ fields, Keyed.get? got f.1 = none →
      ∃ v, absentValue f.1 f.2.1 = .ok v ∧ Keyed.get? G f.1 = some v)
    (hnone : ∀ k, (∀ f ∈ fields, f.1 ≠ k) → Keyed.get? got k = none → Keyed.get? G k = none) :
    fillAbsent fields got = .ok G := by
  obtain ⟨acc', hfold, hsorted, hget⟩ := foldlM_fill hkept fields got hfill hgot (fun _ _ h => h)
    (fun k hk hnk => by
      rw [hnk, hnone k (fun f hf hfk => hk (List.mem_map.mpr ⟨f, hf, hfk⟩)) hnk])
  rw [← Keyed.ext hsorted hG hget]
  exact hfold

/-- A record's fields read from the members `fs` and then filled are `G`, when each member that
names a field reads to `G`'s entry under that name, each field left out has its absent value in
`G`, and `G` holds nothing else. -/
theorem fillAbsent_readNamed {fields : List (String × Absent × Schema ν)} {fs : List (String × Json)}
    {G : Fields} (hG : Keyed.Sorted G)
    (hnamed : ∀ p ∈ fs, ∀ f ∈ fields, f.1 = p.1 → (Keyed.get? G p.1).isSome)
    (habsent : ∀ f ∈ fields, f.1 ∉ fs.map Prod.fst →
      ∃ v, absentValue f.1 f.2.1 = .ok v ∧ Keyed.get? G f.1 = some v)
    (hother : ∀ k, (∀ f ∈ fields, f.1 ≠ k) → Keyed.get? G k = none) :
    fillAbsent fields (readNamed fields (fun k => (Keyed.get? G k).getD .null) [] fs) = .ok G := by
  apply fillAbsent_eq (sorted_readNamed _ _ _ List.Pairwise.nil) hG
  · intro k v hk
    rw [get?_readNamed] at hk
    split at hk
    · rename_i hin
      obtain ⟨hkfs, f, hf, hfk⟩ := hin
      obtain ⟨p, hp, rfl⟩ := List.mem_map.mp hkfs
      obtain ⟨r, hr⟩ := Option.isSome_iff_exists.mp (hnamed p hp f hf hfk)
      rw [hr] at hk ⊢
      exact hk
    · cases hk
  · intro f hf hnone
    apply habsent f hf
    intro hmem
    rw [get?_readNamed, if_pos ⟨hmem, f, hf, rfl⟩] at hnone
    cases hnone
  · intro k hk _
    exact hother k hk

/-! ## Reading by each schema -/

variable (fuel : Nat)

theorem ofValue_ref (n : ν) (j : Json) : ofValue env (fuel + 1) (.ref n) j = ofValue env fuel (env n) j := by
  simp [ofValue]

theorem ofValue_null (inner : Schema ν) : ofValue env (fuel + 1) (.option inner) .null = .ok .null := by
  simp [ofValue]

theorem ofValue_option (inner : Schema ν) {j : Json} (hj : j ≠ .null) :
    ofValue env (fuel + 1) (.option inner) j = ofValue env fuel inner j := by
  cases j <;> simp_all [ofValue]

theorem ofValue_text {e : String} {check : String → Except String Json} {str : String} {v : Json}
    (h : check str = .ok v) : ofValue env (fuel + 1) (.text e check) (.string str) = .ok v := by
  simp [ofValue, h]

theorem ofValue_int (range : IntRange) (n : Number) :
    ofValue env (fuel + 1) (.int range) (.number n) = range.accept n := by
  simp [ofValue]

theorem ofValue_refine {inner : Schema ν} {check : Json → Except String Json} {j v w : Json}
    (h : ofValue env fuel inner j = .ok v) (hc : check v = .ok w) :
    ofValue env (fuel + 1) (.refine inner check) j = .ok w := by
  simp [ofValue, h, hc, bind, Except.bind]

/-- A tagged value is read again by the schema its tag picks, and keeps its tag. -/
theorem ofValue_tagged {tag k : String} {pick : String → ν} {j : Json} {fs : Fields}
    (hk : j.get? tag = some (.string k)) (h : ofValue env fuel (env (pick k)) j = .ok (.object fs)) :
    ofValue env (fuel + 1) (.tagged tag pick) j = .ok (.object (Keyed.insert fs tag (.string k))) := by
  simp [ofValue, hk, h]

/-- The members of an object, in order: each member that names a field is read by the field's
schema and kept under its name, every other one is put aside. -/
theorem recordOfObject_eq {fields : List (String × Absent × Schema ν)} (rd : String → Json)
    (fs : List (String × Json)) (got : Fields) (others : List (String × Json))
    (hnd : (fs.map Prod.fst).Nodup) (hfresh : ∀ p ∈ fs, Keyed.get? got p.1 = none)
    (hread : ∀ p ∈ fs, ∀ f ∈ fields, f.1 = p.1 → ofValue env fuel f.2.2 p.2 = .ok (rd p.1)) :
    ∃ others', recordOfObject env fuel fields fs got others = .ok (readNamed fields rd got fs, others') := by
  induction fs generalizing got others with
  | nil => exact ⟨others, by simp [recordOfObject, readNamed]⟩
  | cons p fs ih =>
    obtain ⟨k, x⟩ := p
    rw [List.map_cons, List.nodup_cons] at hnd
    have hne : ∀ p ∈ fs, p.1 ≠ k := fun p hp hpk => hnd.1 (List.mem_map.mpr ⟨p, hp, hpk⟩)
    have hread' := fun p hp => hread p (List.mem_cons_of_mem _ hp)
    rw [readNamed, List.foldl_cons, ← readNamed]
    cases hfind : fields.find? (·.1 == k) with
    | none =>
      simp only [Option.isSome_none, Bool.false_eq_true, ↓reduceIte]
      obtain ⟨others', h⟩ := ih got ((k, x) :: others) hnd.2
        (fun p hp => hfresh p (List.mem_cons_of_mem _ hp)) hread'
      exact ⟨others', by rw [recordOfObject, hfind, h]⟩
    | some f =>
      obtain ⟨name, a, s⟩ := f
      have hname : name = k := by simpa using List.find?_some hfind
      have hv := hread (k, x) List.mem_cons_self _ (List.mem_of_find?_eq_some hfind) hname
      simp only [Option.isSome_some, ↓reduceIte]
      obtain ⟨others', h⟩ := ih (Keyed.insert got k (rd k)) others hnd.2
        (fun p hp => by
          rw [Keyed.get?_insert_of_ne _ _ (Ne.symm (hne p hp))]
          exact hfresh p (List.mem_cons_of_mem _ hp))
        hread'
      refine ⟨others', ?_⟩
      rw [recordOfObject, hfind]
      simp only [hfresh (k, x) List.mem_cons_self, Option.isSome_none, Bool.false_eq_true, ↓reduceIte]
      rw [show ofValue env fuel s x = .ok (rd k) from hv]
      exact h

/-- A record without fields puts every member aside. -/
theorem recordOfObject_nil_fields :
    ∀ (fs : List (String × Json)) (got : Fields) (others : List (String × Json)),
      ∃ others', recordOfObject env fuel [] fs got others = .ok (got, others')
  | [], got, others => ⟨others, by simp [recordOfObject]⟩
  | (k, x) :: fs, got, others => by
    obtain ⟨others', h⟩ := recordOfObject_nil_fields fs got ((k, x) :: others)
    exact ⟨others', by rw [recordOfObject, List.find?_nil, h]⟩

/-- The field `f` of a record, against what the object holds under its name: a member reads by
`R`, with the field's schema, to `G`'s entry under the name, and an absent one stands in `G` as its
absent value. `R` reads values either in memory or from text. -/
def FieldReads (R : Schema ν → Json → Json → Prop) (G : Fields) (x? : Option Json)
    (f : String × Absent × Schema ν) : Prop :=
  match x? with
  | some x => ∃ r, Keyed.get? G f.1 = some r ∧ R f.2.2 x r
  | none => ∃ v, absentValue f.1 f.2.1 = .ok v ∧ Keyed.get? G f.1 = some v

/-- An optional field that holds `v`, written as `wr a` and read to `rd a` when it holds `a`: left
out and `null` when it holds nothing. -/
theorem fieldReads_optional {α : Type} {R : Schema ν → Json → Json → Prop} {G : Fields}
    {f : String × Absent × Schema ν} (hf : f.2.1 = .null) {v : Option α} {wr rd : α → Json}
    (hG : Keyed.get? G f.1 = some ((v.map rd).getD .null)) (hR : ∀ a ∈ v, R f.2.2 (wr a) (rd a)) :
    FieldReads R G (v.map wr) f := by
  cases v with
  | none => exact ⟨.null, by rw [hf]; rfl, hG⟩
  | some a => exact ⟨rd a, hG, hR a rfl⟩

/-- What a record takes from the members `fs`, field by field, as `readNamed` and `fillAbsent`
need it. -/
theorem FieldReads.members {R : Schema ν → Json → Json → Prop} {fields : List (String × Absent × Schema ν)}
    {fs : List (String × Json)} {G : Fields} (hnd : (fs.map Prod.fst).Nodup)
    (hfields : ∀ f ∈ fields, FieldReads R G (Keyed.get? fs f.1) f) :
    (∀ p ∈ fs, ∀ f ∈ fields, f.1 = p.1 → ∃ r, Keyed.get? G p.1 = some r ∧ R f.2.2 p.2 r) ∧
      ∀ f ∈ fields, f.1 ∉ fs.map Prod.fst →
        ∃ v, absentValue f.1 f.2.1 = .ok v ∧ Keyed.get? G f.1 = some v := by
  constructor
  · intro p hp f hf hfp
    have h := hfields f hf
    rw [hfp, Keyed.get?_of_mem hnd hp] at h
    rw [← hfp]
    exact h
  · intro f hf hnot
    have h := hfields f hf
    rw [Keyed.get?_eq_none fun p hp hpf => hnot (List.mem_map.mpr ⟨p, hp, hpf⟩)] at h
    exact h

/-- A record without `rest` fields reads an object whose keys are distinct to `G`, field by field,
when `G` holds nothing but the fields. -/
theorem ofValue_record {name : String} {fields : List (String × Absent × Schema ν)}
    {fs : List (String × Json)} {G : Fields} (hnd : (fs.map Prod.fst).Nodup) (hG : Keyed.Sorted G)
    (hfields : ∀ f ∈ fields, FieldReads (fun s x r => ofValue env fuel s x = .ok r) G (Keyed.get? fs f.1) f)
    (hother : ∀ k, (∀ f ∈ fields, f.1 ≠ k) → Keyed.get? G k = none) :
    ofValue env (fuel + 1) (.record name fields []) (.object fs) = .ok (.object G) := by
  obtain ⟨hread, habsent⟩ := FieldReads.members hnd hfields
  have hread' : ∀ p ∈ fs, ∀ f ∈ fields, f.1 = p.1 →
      ofValue env fuel f.2.2 p.2 = .ok ((Keyed.get? G p.1).getD .null) := by
    intro p hp f hf hfp
    obtain ⟨r, hr, hv⟩ := hread p hp f hf hfp
    rw [hr, hv]
    rfl
  obtain ⟨others, hloop⟩ := recordOfObject_eq fuel (fun k => (Keyed.get? G k).getD .null) fs [] [] hnd
    (fun _ _ => rfl) hread'
  obtain ⟨others', hrest⟩ : ∃ others', recordOfObject env fuel [] others.reverse [] [] = .ok ([], others') :=
    recordOfObject_nil_fields fuel _ _ _
  have hfill := fillAbsent_readNamed hG
    (fun p hp f hf hfp => by
      obtain ⟨r, hr, -⟩ := hread p hp f hf hfp
      rw [hr]
      rfl)
    habsent hother
  have hnone : fillAbsent ([] : List (String × Absent × Schema ν)) [] = .ok [] := rfl
  simp only [ofValue, hloop, hfill, hrest, hnone, bind, Except.bind, List.foldl_nil]

end Schema

end MergePatch
