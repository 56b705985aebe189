import Mathlib
import MergePatch.Model.Session
import MergePatch.Proofs.Keyed
/-!
# What a successful assignment does

The dynamic setters are long chains of tests; every later proof needs only what a setter did
when it succeeded. This module says that once per setter, as an inductive relation with one
constructor per way of succeeding, and proves each setter lands in it:

* `InnerModel.Sets v m field m'`: `name` or `description` read and marked;
* `Fish.SetsCommon`: `name`, `age` or `color` of any fish, or the `weight` of a shark;
* `Fish.Sets`: a common field, the `partner` of a salmon assigned whole, or a path
  `partner.rest` assigned inside the partner;
* `Resource.Sets`: a field of the resource, or a path into the inner model, the fish, an entry of
  the map or a member of an entry.

Paths are cut by `splitOnce` and `dropPrefix?`; `splitOnce_dotted` and `dropPrefix?_dotted` read
them back when the path is written `head ++ "." ++ rest`.
-/

namespace MergePatch

/-! ## Binds of the error monad -/

/-- A bind that succeeded: both of its steps did. -/
theorem Except.bind_ok_inv {ε α β : Type} {x : Except ε α} {f : α → Except ε β} {b : β} :
    (x >>= f) = .ok b → ∃ a, x = .ok a ∧ f a = .ok b := by
  rcases x with e | a
  · intro h
    cases h
  · exact fun h => ⟨a, rfl, h⟩

theorem Except.map_ok_inv {ε α β : Type} {x : Except ε α} {f : α → β} {b : β} :
    (f <$> x) = .ok b → ∃ a, x = .ok a ∧ f a = b := by
  rcases x with e | a
  · intro h
    cases h
  · intro h
    cases h
    exact ⟨a, rfl, rfl⟩

/-- A failure ends a bind. -/
theorem Except.throw_bind {ε α β : Type} (e : ε) (f : α → Except ε β) :
    (throw e >>= f : Except ε β) = throw e := rfl

theorem Except.throw_ne_ok {ε α : Type} (e : ε) (a : α) : (throw e : Except ε α) ≠ .ok a := by
  intro h
  cases h

theorem Except.ok_of_toOption {ε α : Type} {x : Except ε α} {a : α} (h : x.toOption = some a) :
    x = .ok a := by
  rcases x with e | b
  · cases h
  · cases h
    rfl

/-! ## Dotted paths -/

theorem findIdx?_dot_eq_none {cs : List Char} (h : '.' ∉ cs) : cs.findIdx? (· == '.') = none := by
  rw [List.findIdx?_eq_none_iff]
  intro c hc
  rw [beq_eq_false_iff_ne]
  rintro rfl
  exact h hc

/-- A path without a dot is not cut. -/
theorem splitOnce_eq_none {s : String} (h : '.' ∉ s.toList) : splitOnce s '.' = none := by
  simp only [splitOnce, findIdx?_dot_eq_none h]

theorem splitOnce_dotted {head : String} (rest : String) (hhead : '.' ∉ head.toList) :
    splitOnce (head ++ "." ++ rest) '.' = some (head, rest) := by
  simp only [splitOnce, String.toList_append, List.append_assoc, List.findIdx?_append,
    findIdx?_dot_eq_none hhead, Option.none_or]
  simp [List.drop_append, String.ofList_toList]

theorem dropPrefix?_dotted (head rest : String) :
    dropPrefix? (head ++ rest) head = some rest := by
  simp only [dropPrefix?, String.toList_append, List.prefix_append, List.isPrefixOf_iff_prefix,
    ↓reduceIte]
  rw [← String.length_toList, List.drop_left, String.ofList_toList]

/-- A path that starts `partner.` has the head `partner`. -/
theorem pathHead_of_dropPrefix? {field rest : String}
    (h : dropPrefix? field "partner." = some rest) : pathHead field = "partner" := by
  simp only [dropPrefix?] at h
  split at h
  · rename_i hpre
    obtain ⟨t, ht⟩ := List.isPrefixOf_iff_prefix.mp hpre
    have hfield : field = "partner" ++ "." ++ String.ofList t := by
      rw [← String.toList_inj]
      simp only [String.toList_append, String.toList_ofList, ← ht]
      rfl
    rw [pathHead, hfield, splitOnce_dotted _ (by decide)]
  · cases h

/-! ## Inner models -/

namespace InnerModel

/-- A successful dynamic assignment of an inner model. -/
inductive Sets (v : Json) (m : InnerModel) : String → InnerModel → Prop
  | name (j : Json) : decodeField "name" (.option .string) v = .ok j →
      Sets v m "name" (m.withName j.str?)
  | description (j : Json) : decodeField "description" (.option .string) v = .ok j →
      Sets v m "description" (m.withDescription j.str?)

theorem set_ok {m m' : InnerModel} {field : String} {v : Json} (h : m.set field v = .ok m') :
    Sets v m field m' := by
  unfold set at h
  split at h
  · rename_i hf
    subst hf
    obtain ⟨j, hj, hm⟩ := Except.bind_ok_inv h
    cases hm
    exact .name j hj
  · split at h
    · rename_i hf
      subst hf
      obtain ⟨j, hj, hm⟩ := Except.bind_ok_inv h
      cases hm
      exact .description j hj
    · cases h

/-- Building an inner model from members assigns them one by one. -/
theorem setAll_tracker {m m' : InnerModel} {fs : List (String × Json)}
    (h : m.setAll fs = .ok m') : ∀ f, m'.tracker.isAssigned f = true →
      m.tracker.isAssigned f = true ∨ f ∈ fs.map Prod.fst := by
  induction fs generalizing m with
  | nil =>
    cases h
    exact fun f hf => .inl hf
  | cons p rest ih =>
    obtain ⟨k, x⟩ := p
    obtain ⟨m₁, h₁, h₂⟩ := Except.bind_ok_inv h
    intro f hf
    rcases ih h₂ f hf with hf₁ | hf₁
    · cases set_ok h₁ with
      | name j _ | description j _ =>
        simp only [withName, withDescription, Tracker.mark, Tracker.isAssigned,
          List.contains_iff_mem, Names.mem_insert] at hf₁
        rcases hf₁ with rfl | hf₁
        · exact .inr (by simp)
        · exact .inl (by simpa [Tracker.isAssigned] using hf₁)
    · exact .inr (List.mem_cons_of_mem _ hf₁)

end InnerModel

/-! ## Fish -/

namespace Fish

/-- A successful assignment of a field that every fish handles alike. -/
inductive SetsCommon (v : Json) : Fish → String → Fish → Prop
  | name (f : Fish) (j : Json) : decodeField "name" (.option .string) v = .ok j →
      SetsCommon v f "name" (f.withName j.str?)
  | age (f : Fish) (j : Json) : decodeField "age" (.option (.int .i32)) v = .ok j →
      SetsCommon v f "age" (f.withAge j.int32?)
  | color (f : Fish) (j : Json) : decodeField "color" (.option .string) v = .ok j →
      SetsCommon v f "color" (f.withColor j.str?)
  | weight (c : FishCore) (w : Option Int32) (j : Json) :
      decodeField "weight" (.option (.int .i32)) v = .ok j →
      SetsCommon v (.shark c w) "weight" ((Fish.shark c w).withWeight j.int32?)

theorem setCommon_ok {f f' : Fish} {field : String} {v : Json} (h : f.setCommon field v = .ok f') :
    SetsCommon v f field f' := by
  unfold setCommon at h
  split at h
  · cases h
  · split at h
    · rename_i hf
      subst hf
      obtain ⟨j, hj, hm⟩ := Except.bind_ok_inv h
      cases hm
      exact .name f j hj
    · split at h
      · rename_i hf
        subst hf
        obtain ⟨j, hj, hm⟩ := Except.bind_ok_inv h
        cases hm
        exact .age f j hj
      · split at h
        · rename_i hf
          subst hf
          obtain ⟨j, hj, hm⟩ := Except.bind_ok_inv h
          cases hm
          exact .color f j hj
        · -- only a shark has a field of its own here
          split at h
          · rename_i c w
            split at h
            · rename_i hf
              subst hf
              obtain ⟨j, hj, hm⟩ := Except.bind_ok_inv h
              cases hm
              exact .weight c w j hj
            · cases h
          · cases h

/-- A successful dynamic assignment of the variant of a fish. -/
inductive Sets (v : Json) : Fish → String → Fish → Prop
  | common {f f' : Fish} {field : String} : SetsCommon v f field f' → Sets v f field f'
  | partner (c : FishCore) (p np : Option Fish) : ofTracked "partner" v = .ok np →
      Sets v (.salmon c p) "partner" (.salmon (c.mark "partner") np)
  | throughPartner (c : FishCore) (q q' : Fish) (field rest : String) :
      dropPrefix? field "partner." = some rest → rest ≠ "kind" → Sets v q rest q' →
      Sets v (.salmon c (some q)) field (.salmon (c.mark "partner") (some q'))

theorem setMember_ok : ∀ {f f' : Fish} {field : String} {v : Json},
    f.setMember field v = .ok f' → Sets v f field f'
  | .shark c w, _, _, _, h => by
    rw [setMember.eq_def] at h
    exact .common (setCommon_ok h)
  | .other k c, _, _, _, h => by
    rw [setMember.eq_def] at h
    exact .common (setCommon_ok h)
  | .salmon c p, _, field, v, h => by
    rw [setMember] at h
    split at h
    · rename_i rest hrest
      split at h
      · cases h
      · rename_i q
        split at h
        · cases h
        · rename_i hkind
          obtain ⟨q', hq, hm⟩ := Except.bind_ok_inv h
          cases hm
          exact .throughPartner c q q' field rest hrest hkind (setMember_ok hq)
    · split at h
      · rename_i hf
        subst hf
        obtain ⟨np, hnp, hm⟩ := Except.bind_ok_inv h
        cases hm
        exact .partner c p np hnp
      · exact .common (setCommon_ok h)

theorem set_ok {f f' : Fish} {field : String} {v : Json} (h : f.set field v = .ok f') :
    field ≠ "kind" ∧ Sets v f field f' := by
  unfold set at h
  split at h
  · cases h
  · exact ⟨‹_›, setMember_ok h⟩

end Fish

/-! ## Resources -/

namespace Resource

/-- A successful dynamic assignment of a resource. -/
inductive Sets (v : Json) (r : Resource) : String → Resource → Prop
  | description (j : Json) : decodeField "description" (.option .string) v = .ok j →
      Sets v r "description" ({ r with description := j.str? }.mark "description")
  | mapObject (es : List (String × Json)) (ms : Keyed (Option InnerModel)) :
      v = .object es → entriesOfTracked "map" es = .ok ms →
      Sets v r "map" ({ r with map := some ms }.mark "map")
  | mapValue (j : Json) : (∀ es, v ≠ .object es) →
      decodeField "map" (.option (.dict (.option (.ref .innerModel)))) v = .ok j →
      Sets v r "map" ({ r with map := mapOfChecked j }.mark "map")
  | longValue (j : Json) : decodeField "longValue" (.option (.int .i64)) v = .ok j →
      Sets v r "longValue" ({ r with longValue := j.int64? }.mark "longValue")
  | intValue (j : Json) : decodeField "intValue" (.option (.int .i32)) v = .ok j →
      Sets v r "intValue" ({ r with intValue := j.int32? }.mark "intValue")
  | enumValue (j : Json) : decodeField "enumValue" (.option .string) v = .ok j →
      Sets v r "enumValue" ({ r with enumValue := j.str?.map EnumValue.ofString }.mark "enumValue")
  | innerModel (m : Option InnerModel) : InnerModel.ofTracked "innerModelProperty" v = .ok m →
      Sets v r "innerModelProperty" ({ r with innerModelProperty := m }.mark "innerModelProperty")
  | array (j : Json) : decodeField "array" (.option (.seq (.ref .innerModel))) v = .ok j →
      Sets v r "array" ({ r with array := arrayOfChecked j }.mark "array")
  | fish (f : Option Fish) : Fish.ofTracked "fish" v = .ok f →
      Sets v r "fish" ({ r with fish := f }.mark "fish")
  | innerMember (field rest : String) (m : InnerModel) :
      splitOnce field '.' = some ("innerModelProperty", rest) →
      (r.innerModelProperty.getD {}).set rest v = .ok m →
      Sets v r field ({ r with innerModelProperty := some m }.mark "innerModelProperty")
  | fishMember (field rest : String) (f f' : Fish) :
      splitOnce field '.' = some ("fish", rest) → r.fish = some f → f.set rest v = .ok f' →
      Sets v r field ({ r with fish := some f' }.mark "fish")
  | mapEntry (field rest : String) (e : Option InnerModel) :
      splitOnce field '.' = some ("map", rest) → splitOnce rest '.' = none →
      InnerModel.ofTracked field v = .ok e →
      Sets v r field ({ r with map := some (Keyed.insert (r.map.getD []) rest e) }.mark "map")
  | mapMember (field rest key member : String) (e : InnerModel) :
      splitOnce field '.' = some ("map", rest) → splitOnce rest '.' = some (key, member) →
      (((Keyed.get? (r.map.getD []) key).join).getD {}).set member v = .ok e →
      Sets v r field ({ r with map := some (Keyed.insert (r.map.getD []) key (some e)) }.mark "map")

theorem setNested_ok {r r' : Resource} {field head rest : String} {v : Json}
    (hsplit : splitOnce field '.' = some (head, rest)) (h : r.setNested field head rest v = .ok r') :
    Sets v r field r' := by
  unfold setNested at h
  split at h
  · rename_i hh
    subst hh
    obtain ⟨m, hm, hr⟩ := Except.bind_ok_inv h
    cases hr
    exact .innerMember field rest m hsplit hm
  · split at h
    · rename_i hh
      subst hh
      split at h
      · cases h
      · rename_i f hf
        obtain ⟨f', hf', hr⟩ := Except.bind_ok_inv h
        cases hr
        exact .fishMember field rest f f' hsplit hf hf'
    · split at h
      · rename_i hh
        subst hh
        split at h
        · rename_i hrest
          obtain ⟨e, he, hr⟩ := Except.bind_ok_inv h
          cases hr
          exact .mapEntry field rest e hsplit hrest he
        · rename_i key member hrest
          obtain ⟨e, he, hr⟩ := Except.bind_ok_inv h
          cases hr
          exact .mapMember field rest key member e hsplit hrest he
      · split at h <;> cases h

theorem set_ok {r r' : Resource} {field : String} {v : Json} (h : r.set field v = .ok r') :
    Sets v r field r' := by
  unfold set at h
  split at h
  · rename_i head rest hsplit
    exact setNested_ok hsplit h
  · -- a field of the resource itself, tried name by name
    split at h
    · cases h
    split at h
    · rename_i hf
      subst hf
      obtain ⟨j, hj, hr⟩ := Except.bind_ok_inv h
      cases hr
      exact .description j hj
    split at h
    · rename_i hf
      subst hf
      split at h
      · rename_i es
        obtain ⟨ms, hms, hr⟩ := Except.bind_ok_inv h
        cases hr
        exact .mapObject es ms rfl hms
      · rename_i hv
        obtain ⟨j, hj, hr⟩ := Except.bind_ok_inv h
        cases hr
        exact .mapValue j (fun es he => hv es he) hj
    split at h
    · rename_i hf
      subst hf
      obtain ⟨j, hj, hr⟩ := Except.bind_ok_inv h
      cases hr
      exact .longValue j hj
    split at h
    · rename_i hf
      subst hf
      obtain ⟨j, hj, hr⟩ := Except.bind_ok_inv h
      cases hr
      exact .intValue j hj
    split at h
    · rename_i hf
      subst hf
      obtain ⟨j, hj, hr⟩ := Except.bind_ok_inv h
      cases hr
      exact .enumValue j hj
    split at h
    · rename_i hf
      subst hf
      obtain ⟨m, hm, hr⟩ := Except.bind_ok_inv h
      cases hr
      exact .innerModel m hm
    split at h
    · rename_i hf
      subst hf
      obtain ⟨j, hj, hr⟩ := Except.bind_ok_inv h
      cases hr
      exact .array j hj
    split at h
    · rename_i hf
      subst hf
      obtain ⟨f, hf, hr⟩ := Except.bind_ok_inv h
      cases hr
      exact .fish f hf
    · cases h

end Resource

end MergePatch
