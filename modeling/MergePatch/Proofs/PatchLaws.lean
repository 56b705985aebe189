import Mathlib
import MergePatch.Proofs.MergeAlgebra
/-!
# Laws of merge patches

Laws of `Json.mergePatch` and `Json.mergeDiff`, for JSON values as the program holds them: every
object at every depth has its members in strictly increasing key order (`Json.Ordered`), as a
value read from text or built by `Keyed.insert` has.

* **Idempotence** (`Json.mergePatch_idempotent`): a patch applied to its own result changes
  nothing.
* **Diff, then merge** (`Json.mergeDiff_laws`): `mergeDiff old new` merged into `old` gives `new`
  when no object reached from `new` through objects holds a `null` member (`Json.NullFree`); the
  diff of two values names no key whose values in the two are equal; and the diff of an object
  with itself is empty. The merge gives `new` under `==`, which is `Json.beq`: where the two
  values hold equal numbers the diff leaves `old`'s in place, so a `0.0` stays where `new` has
  `-0.0`.

Both are proved key by key. A merge reads `mergeAt` under each key (`get?_mergeMembers`) and a
diff reads `diffAt` (`get?_mergeDiff`); two sorted member lists are equal, or related member by
member, when they are so under every key (`Keyed.ext`, `Keyed.forall₂_of_get?`).
-/

namespace MergePatch

namespace Keyed

variable {α β : Type}

/-- Sorted lists whose lookups are related under every key hold the same keys in the same order,
with related values. -/
theorem forall₂_of_get? {R : α → β → Prop} {xs : Keyed α} {ys : Keyed β} (hx : Sorted xs)
    (hy : Sorted ys) (h : ∀ k, Option.Rel R (get? xs k) (get? ys k)) :
    List.Forall₂ (fun a b => a.1 = b.1 ∧ R a.2 b.2) xs ys := by
  induction xs generalizing ys with
  | nil =>
    cases ys with
    | nil => exact .nil
    | cons q ys =>
      obtain ⟨j, w⟩ := q
      have hj := h j
      rw [get?_nil, get?_cons_self] at hj
      cases hj
  | cons p xs ih =>
    obtain ⟨j, v⟩ := p
    cases ys with
    | nil =>
      have hj := h j
      rw [get?_cons_self, get?_nil] at hj
      cases hj
    | cons q ys =>
      obtain ⟨j', v'⟩ := q
      -- the least key of each list is found in the other, so the two heads have one key
      have hkeys : j = j' := by
        by_contra hne
        have hj := h j
        have hj' := h j'
        rw [get?_cons_self, get?_cons, if_neg (Ne.symm hne)] at hj
        rw [get?_cons_self, get?_cons, if_neg hne] at hj'
        obtain ⟨w, hw⟩ : ∃ w, get? ys j = some w := by
          cases hg : get? ys j with
          | none =>
            rw [hg] at hj
            cases hj
          | some w => exact ⟨w, rfl⟩
        obtain ⟨u, hu⟩ : ∃ u, get? xs j' = some u := by
          cases hg : get? xs j' with
          | none =>
            rw [hg] at hj'
            cases hj'
          | some u => exact ⟨u, rfl⟩
        have h1 := (List.pairwise_cons.mp hx).1 _ (get?_eq_some_mem hu)
        have h2 := (List.pairwise_cons.mp hy).1 _ (get?_eq_some_mem hw)
        exact String.lt_asymm h1 h2
      subst hkeys
      have hv := h j
      rw [get?_cons_self, get?_cons_self] at hv
      cases hv with
      | some hr =>
        refine .cons ⟨rfl, hr⟩ (ih hx.tail hy.tail fun k => ?_)
        by_cases hk : j = k
        · subst hk
          rw [hx.get?_tail_of_head, hy.get?_tail_of_head]
          exact .none
        · have hrel := h k
          rwa [get?_cons, if_neg hk, get?_cons, if_neg hk] at hrel

end Keyed

namespace Number

theorem sameValue_self (n : Number) : n.sameValue n = true := by
  cases n <;> simp [sameValue, Binary64.sameValue]

end Number

namespace Json

/-! ## Equality of values -/

mutual

theorem beq_self : (j : Json) → beq j j = true
  | .null => rfl
  | .bool b => by simp [beq]
  | .number n => by simp [beq, Number.sameValue_self]
  | .string s => by simp [beq]
  | .array xs => by simpa [beq] using beqList_self xs
  | .object fs => by simpa [beq] using beqFields_self fs

theorem beqList_self : (xs : List Json) → beqList xs xs = true
  | [] => rfl
  | x :: xs => by simp [beqList, beq_self x, beqList_self xs]

theorem beqFields_self : (fs : List (String × Json)) → beqFields fs fs = true
  | [] => rfl
  | (k, x) :: fs => by simp [beqFields, beq_self x, beqFields_self fs]

end

theorem beqFields_of_forall₂ {xs ys : List (String × Json)}
    (h : List.Forall₂ (fun a b => a.1 = b.1 ∧ beq a.2 b.2 = true) xs ys) : beqFields xs ys = true := by
  induction h with
  | nil => rfl
  | @cons a b _ _ hab _ ih =>
    obtain ⟨k, x⟩ := a
    obtain ⟨l, y⟩ := b
    obtain ⟨hk, hv⟩ := hab
    simp only at hk
    subst hk
    simp [beqFields, hv, ih]

/-- Objects with sorted members are equal when, under every key, they hold equal values or
none. -/
theorem beq_object_of_get? {xs ys : Fields} (hx : Keyed.Sorted xs) (hy : Keyed.Sorted ys)
    (h : ∀ k, Option.Rel (fun a b => (a == b) = true) (Keyed.get? xs k) (Keyed.get? ys k)) :
    (Json.object xs == Json.object ys) = true :=
  beqFields_of_forall₂ (Keyed.forall₂_of_get? hx hy h)

/-! ## Values as the program holds them -/

/-- Every object at every depth has its members in strictly increasing key order. -/
inductive Ordered : Json → Prop
  | null : Ordered .null
  | bool (b : Bool) : Ordered (.bool b)
  | number (n : Number) : Ordered (.number n)
  | string (s : String) : Ordered (.string s)
  | array {items : List Json} : (∀ x ∈ items, Ordered x) → Ordered (.array items)
  | object {fields : Fields} : Keyed.Sorted fields → (∀ p ∈ fields, Ordered p.2) →
      Ordered (.object fields)

/-- No object reached from the value through objects alone has a `null` member; what an array
holds is not looked into. -/
inductive NullFree : Json → Prop
  | leaf {j : Json} : j.isObject = false → NullFree j
  | object {fields : Fields} : (∀ p ∈ fields, p.2 ≠ .null) → (∀ p ∈ fields, NullFree p.2) →
      NullFree (.object fields)

theorem ordered_empty : (Json.object []).Ordered :=
  .object List.Pairwise.nil fun _ hp => absurd hp List.not_mem_nil

namespace Ordered

theorem sorted {fs : Fields} (h : (Json.object fs).Ordered) : Keyed.Sorted fs := by
  cases h with
  | object hs _ => exact hs

theorem sorted_membersOf {j : Json} (h : j.Ordered) : Keyed.Sorted j.membersOf := by
  cases h with
  | object hs _ => exact hs
  | _ => exact List.Pairwise.nil

/-- A member of an ordered value is ordered. -/
theorem of_get? {j v : Json} (h : j.Ordered) {k : String} (hk : Keyed.get? j.membersOf k = some v) :
    v.Ordered := by
  cases h with
  | object _ hm => exact hm (k, v) (Keyed.get?_eq_some_mem hk)
  | _ => cases hk

/-- What a merge merges into under a key: the member there, or an empty object. -/
theorem getD_get? {j : Json} (h : j.Ordered) (k : String) :
    ((Keyed.get? j.membersOf k).getD (.object [])).Ordered := by
  cases hk : Keyed.get? j.membersOf k with
  | none => exact ordered_empty
  | some v => exact h.of_get? hk

end Ordered

theorem NullFree.of_get? {fs : Fields} (h : (Json.object fs).NullFree) {k : String} {v : Json}
    (hk : Keyed.get? fs k = some v) : v ≠ .null ∧ v.NullFree := by
  cases h with
  | leaf h => cases h
  | object hne hm =>
    have hmem := Keyed.get?_eq_some_mem hk
    exact ⟨hne _ hmem, hm _ hmem⟩

/-! ## Merging -/

/-- A patch member other than `null` merges into the member as the whole patch would. -/
theorem mergeAt_of_ne_null (t : Option Json) {p : Json} (hp : p ≠ .null) :
    mergeAt t (some p) = some (mergePatch (t.getD (.object [])) p) := by
  cases p with
  | null => exact absurd rfl hp
  | _ => rfl

/-- A patch merged into a value with no members is the patch itself, when it deletes
nothing. -/
theorem mergePatch_of_membersOf_nil {t n : Json} (ht : t.membersOf = []) (hn : n.Ordered)
    (hnf : n.NullFree) : mergePatch t n = n := by
  induction hn generalizing t with
  | @object ns hs _ ih =>
    rw [mergePatch_object, ht]
    congr 1
    refine Keyed.ext (sorted_mergeMembers List.Pairwise.nil ns) hs fun k => ?_
    rw [get?_mergeMembers _ _ hs.keys_nodup, Keyed.get?_nil]
    cases hk : Keyed.get? ns k with
    | none => rfl
    | some v =>
      obtain ⟨hne, hvnf⟩ := hnf.of_get? hk
      rw [mergeAt_of_ne_null none hne, Option.getD_none,
        ih (k, v) (Keyed.get?_eq_some_mem hk) rfl hvnf]
  | _ => rfl

/-- Under one key, a patch member merged twice is merged once, when the member's own merge is. -/
theorem mergeAt_mergeAt_self {t : Option Json} (ht : ((t.getD (.object [])).Ordered)) {p : Option Json}
    (hp : ∀ q ∈ p, ∀ t : Json, t.Ordered → mergePatch (mergePatch t q) q = mergePatch t q) :
    mergeAt (mergeAt t p) p = mergeAt t p := by
  cases p with
  | none => rfl
  | some q =>
    by_cases hq : q = .null
    · subst hq
      rfl
    · rw [mergeAt_of_ne_null t hq, mergeAt_of_ne_null _ hq, Option.getD_some, hp q rfl _ ht]

/-- **Idempotence.** A merge patch applied to its own result changes nothing. The induction is
on the patch; under each key of an object patch the member is merged twice (`mergeAt`). -/
theorem mergePatch_idempotent {t p : Json} (ht : t.Ordered) (hp : p.Ordered) :
    mergePatch (mergePatch t p) p = mergePatch t p := by
  induction hp generalizing t with
  | @object ps hs _ ih =>
    have hts := ht.sorted_membersOf
    refine mergePatch_eq_of_get? (sorted_mergeMembers hts ps) hs (sorted_mergeMembers hts ps)
      fun k => ?_
    rw [mergePatch_object, get?_eq_membersOf, membersOf_object,
      get?_mergeMembers _ _ hs.keys_nodup]
    exact mergeAt_mergeAt_self (ht.getD_get? k)
      fun q hq t' ht' => ih (k, q) (Keyed.get?_eq_some_mem hq) ht'
  | _ => rfl

/-- Applying a patch that removes a key and merges into another, twice. -/
theorem mergePatch_idempotent_nested :
    (Json.object [("a", .number (.nat 1)), ("b", .object [("c", .number (.nat 2))])]).Ordered ∧
    (Json.object [("a", .null), ("b", .object [("c", .null), ("d", .string "x")])]).Ordered ∧
    mergePatch (mergePatch (.object [("a", .number (.nat 1)), ("b", .object [("c", .number (.nat 2))])])
        (.object [("a", .null), ("b", .object [("c", .null), ("d", .string "x")])]))
        (.object [("a", .null), ("b", .object [("c", .null), ("d", .string "x")])]) =
      mergePatch (.object [("a", .number (.nat 1)), ("b", .object [("c", .number (.nat 2))])])
        (.object [("a", .null), ("b", .object [("c", .null), ("d", .string "x")])]) := by
  have ht : (Json.object [("a", .number (.nat 1)), ("b", .object [("c", .number (.nat 2))])]).Ordered :=
    .object (by unfold Keyed.Sorted; decide) fun p hp => by
      simp only [List.mem_cons, List.not_mem_nil, or_false] at hp
      rcases hp with rfl | rfl
      · exact .number _
      · exact .object (by unfold Keyed.Sorted; decide) fun q hq => by
          simp only [List.mem_cons, List.not_mem_nil, or_false] at hq
          subst hq
          exact .number _
  have hp : (Json.object [("a", .null), ("b", .object [("c", .null), ("d", .string "x")])]).Ordered :=
    .object (by unfold Keyed.Sorted; decide) fun p hp => by
      simp only [List.mem_cons, List.not_mem_nil, or_false] at hp
      rcases hp with rfl | rfl
      · exact .null
      · exact .object (by unfold Keyed.Sorted; decide) fun q hq => by
          simp only [List.mem_cons, List.not_mem_nil, or_false] at hq
          rcases hq with rfl | rfl
          · exact .null
          · exact .string _
  exact ⟨ht, hp, mergePatch_idempotent ht hp⟩

/-! ## Diffs -/

/-- What a diff holds under one key, from the members `old` and `new` have there: nothing when
the two are equal or both absent, the diff of the two, the new member, or `null` for a member
that is gone. -/
def diffAt : Option Json → Option Json → Option Json
  | some ov, some nv => if ov == nv then none else some (mergeDiff ov nv)
  | none, some nv => some nv
  | some _, none => some .null
  | none, none => none

/-- The members that changed, added to `acc`: each key of `ns` reads its `diffAt`, if that is
anything, and every other key reads as in `acc`. -/
theorem get?_diffMembers (os : Fields) {ns : List (String × Json)} (hns : (ns.map Prod.fst).Nodup)
    (acc : Fields) (k : String) :
    Keyed.get? (diffMembers os ns acc) k =
      ((Keyed.get? ns k).bind fun nv => diffAt (Keyed.get? os k) (some nv)).or (Keyed.get? acc k) := by
  induction ns generalizing acc with
  | nil => simp [diffMembers]
  | cons p rest ih =>
    obtain ⟨j, nv⟩ := p
    rw [List.map_cons, List.nodup_cons] at hns
    have hj : Keyed.get? rest j = none :=
      Keyed.get?_eq_none fun q hq hqj => hns.1 (List.mem_map.mpr ⟨q, hq, hqj⟩)
    -- the member `j` is settled first, and the rest of the list does not name `j` again
    have step : ∀ acc' : Fields,
        Keyed.get? acc' j = (diffAt (Keyed.get? os j) (some nv)).or (Keyed.get? acc j) →
        (∀ k', k' ≠ j → Keyed.get? acc' k' = Keyed.get? acc k') →
        Keyed.get? (diffMembers os rest acc') k =
          ((Keyed.get? ((j, nv) :: rest) k).bind fun nv =>
            diffAt (Keyed.get? os k) (some nv)).or (Keyed.get? acc k) := by
      intro acc' hself hother
      rw [ih hns.2, Keyed.get?_cons]
      by_cases hk : j = k
      · subst hk
        rw [hj, if_pos rfl, Option.bind_none, Option.none_or, hself, Option.bind_some]
      · rw [if_neg hk, hother k (Ne.symm hk)]
    rw [diffMembers]
    cases hov : Keyed.get? os j with
    | some ov =>
      dsimp only
      by_cases hb : (ov == nv) = true
      · rw [if_pos hb]
        exact step acc (by simp [diffAt, hov, hb]) fun _ _ => rfl
      · rw [if_neg hb]
        exact step _ (by simp [diffAt, hov, hb]) fun _ h => Keyed.get?_insert_of_ne _ _ (Ne.symm h)
    | none =>
      dsimp only
      exact step _ (by simp [diffAt, hov]) fun _ h => Keyed.get?_insert_of_ne _ _ (Ne.symm h)

theorem sorted_diffMembers (os : Fields) (ns : List (String × Json)) {acc : Fields}
    (hacc : Keyed.Sorted acc) : Keyed.Sorted (diffMembers os ns acc) := by
  induction ns generalizing acc with
  | nil => simpa [diffMembers] using hacc
  | cons p rest ih =>
    obtain ⟨j, nv⟩ := p
    rw [diffMembers]
    cases Keyed.get? os j with
    | some ov =>
      dsimp only
      split
      · exact ih hacc
      · exact ih (hacc.insert _ _)
    | none => exact ih (hacc.insert _ _)

/-- Marking the members of `os` that `ns` lacks with `null`, one by one. -/
theorem get?_foldl_nulls {ns : Fields} (f : Fields → String × Json → Fields)
    (hf : ∀ acc k v, f acc (k, v) = if (Keyed.get? ns k).isSome then acc else Keyed.insert acc k .null)
    (os : List (String × Json)) (acc : Fields) (k : String) :
    Keyed.get? (os.foldl f acc) k =
      if (Keyed.get? os k).isSome ∧ Keyed.get? ns k = none then some .null else Keyed.get? acc k := by
  induction os generalizing acc with
  | nil => simp
  | cons p rest ih =>
    obtain ⟨j, w⟩ := p
    rw [List.foldl_cons, ih, hf, Keyed.get?_cons]
    by_cases hk : j = k
    · subst hk
      cases Keyed.get? ns j <;> simp
    · have hacc : Keyed.get? (if (Keyed.get? ns j).isSome then acc else Keyed.insert acc j .null) k =
          Keyed.get? acc k := by
        split
        · rfl
        · exact Keyed.get?_insert_of_ne _ _ hk
      simp only [hacc, hk, if_false]

theorem sorted_foldl_nulls {ns : Fields} (f : Fields → String × Json → Fields)
    (hf : ∀ acc k v, f acc (k, v) = if (Keyed.get? ns k).isSome then acc else Keyed.insert acc k .null)
    (os : List (String × Json)) {acc : Fields} (hacc : Keyed.Sorted acc) :
    Keyed.Sorted (os.foldl f acc) := by
  induction os generalizing acc with
  | nil => exact hacc
  | cons p rest ih =>
    obtain ⟨j, w⟩ := p
    rw [List.foldl_cons, hf]
    split
    · exact ih hacc
    · exact ih (hacc.insert _ _)

/-- The diff of two objects is an object of its own members. -/
theorem mergeDiff_object_eq (os ns : Fields) :
    mergeDiff (.object os) (.object ns) = .object (mergeDiff (.object os) (.object ns)).membersOf := by
  rw [mergeDiff]
  rfl

theorem sorted_mergeDiff (os ns : Fields) :
    Keyed.Sorted (mergeDiff (.object os) (.object ns)).membersOf := by
  rw [mergeDiff, membersOf_object]
  exact sorted_foldl_nulls _ (fun _ _ _ => rfl) os (sorted_diffMembers os ns List.Pairwise.nil)

/-- The diff of two objects reads `diffAt` under every key. -/
theorem get?_mergeDiff (os : Fields) {ns : Fields} (hns : Keyed.Sorted ns) (k : String) :
    (mergeDiff (.object os) (.object ns)).get? k = diffAt (Keyed.get? os k) (Keyed.get? ns k) := by
  rw [mergeDiff, get?_eq_membersOf, membersOf_object, get?_foldl_nulls _ (fun _ _ _ => rfl),
    get?_diffMembers os hns.keys_nodup, Keyed.get?_nil]
  cases hn : Keyed.get? ns k <;> cases ho : Keyed.get? os k <;> simp [diffAt]

theorem mergeDiff_of_not_object {old : Json} (hold : old.isObject = false) (ns : Fields) :
    mergeDiff old (.object ns) = .object ns := by
  cases old with
  | object os => cases hold
  | _ => rfl

theorem mergeDiff_ne_null (old : Json) {new : Json} (hnew : new ≠ .null) :
    mergeDiff old new ≠ .null := by
  cases new with
  | null => exact absurd rfl hnew
  | object ns =>
    cases old with
    | object os =>
      rw [mergeDiff_object_eq]
      exact Json.noConfusion
    | _ => exact Json.noConfusion
  | _ => exact Json.noConfusion

/-- Under one key, the member the diff holds, merged into the old member, reads the new one, when
the new member's own diff merges back. -/
theorem mergeAt_diffAt {ov? nv? : Option Json} (hov : ∀ ov ∈ ov?, ov.Ordered)
    (hnv : ∀ nv ∈ nv?, nv ≠ .null ∧ nv.Ordered ∧ nv.NullFree ∧
      ∀ old : Json, old.Ordered → (mergePatch old (mergeDiff old nv) == nv) = true) :
    Option.Rel (fun a b => (a == b) = true) (mergeAt ov? (diffAt ov? nv?)) nv? := by
  cases nv? with
  | none =>
    cases ov? with
    | none => exact .none
    | some ov => exact .none
  | some nv =>
    obtain ⟨hne, hord, hnf, ih⟩ := hnv nv rfl
    cases ov? with
    | none =>
      -- a new member merges into nothing as itself
      show Option.Rel _ (mergeAt none (some nv)) (some nv)
      rw [mergeAt_of_ne_null none hne, Option.getD_none, mergePatch_of_membersOf_nil rfl hord hnf]
      exact .some (beq_self nv)
    | some ov =>
      by_cases hb : (ov == nv) = true
      · -- an equal member is left out of the diff and stays as it was
        rw [show diffAt (some ov) (some nv) = none by simp [diffAt, hb]]
        exact .some hb
      · rw [show diffAt (some ov) (some nv) = some (mergeDiff ov nv) by simp [diffAt, hb],
          mergeAt_of_ne_null _ (mergeDiff_ne_null ov hne), Option.getD_some]
        exact .some (ih ov (hov ov rfl))

/-- **Diff, then merge.** The diff of `old` and `new`, merged into `old`, gives `new`, when no
object of `new` reached through objects has a `null` member. The induction is on `new`. -/
theorem mergePatch_mergeDiff {old new : Json} (hold : old.Ordered) (hnew : new.Ordered)
    (hnf : new.NullFree) : (mergePatch old (mergeDiff old new) == new) = true := by
  induction hnew generalizing old with
  | @object ns hs hmem ih =>
    cases old with
    | object os =>
      rw [mergeDiff_object_eq, mergePatch_object, membersOf_object]
      refine beq_object_of_get? (sorted_mergeMembers hold.sorted _) hs fun k => ?_
      rw [get?_mergeMembers _ _ (sorted_mergeDiff os ns).keys_nodup, ← get?_eq_membersOf,
        get?_mergeDiff os hs]
      refine mergeAt_diffAt (fun ov hov => hold.of_get? hov) fun nv hnv => ?_
      have hmem' := Keyed.get?_eq_some_mem hnv
      obtain ⟨hne, hvnf⟩ := hnf.of_get? hnv
      exact ⟨hne, hmem _ hmem', hvnf, fun o ho => ih _ hmem' ho hvnf⟩
    | _ =>
      rw [mergeDiff_of_not_object rfl, mergePatch_of_membersOf_nil rfl (.object hs hmem) hnf]
      exact beq_self _
  | _ => exact beq_self _

/-- A diff names no key whose values in the two documents are equal. -/
theorem mergeDiff_get?_beq_false {old new : Json} (hnew : new.Ordered) {k : String} {v ov nv : Json}
    (hv : (mergeDiff old new).get? k = some v) (hov : old.get? k = some ov)
    (hnv : new.get? k = some nv) : (ov == nv) = false := by
  cases new with
  | object ns =>
    cases old with
    | object os =>
      rw [get?_mergeDiff os hnew.sorted] at hv
      rw [get?_eq_membersOf, membersOf_object] at hov hnv
      rw [hov, hnv] at hv
      cases hb : (ov == nv)
      · rfl
      · simp [diffAt, hb] at hv
    | _ => cases hov
  | _ => cases hnv

/-- The diff of an object with itself is empty. -/
theorem mergeDiff_self {xs : Fields} (hxs : Keyed.Sorted xs) :
    mergeDiff (.object xs) (.object xs) = .object [] := by
  rw [mergeDiff_object_eq]
  congr 1
  refine Keyed.ext (sorted_mergeDiff xs xs) List.Pairwise.nil fun k => ?_
  rw [← get?_eq_membersOf, get?_mergeDiff xs hxs, Keyed.get?_nil]
  cases Keyed.get? xs k with
  | none => rfl
  | some v => simp [diffAt, show (v == v) = true from beq_self v]

/-- **The diff of two documents reconstructs the second.** Merged into `old`, the diff of `old`
and `new` gives `new` again when no object of `new` reached through objects has a `null`
member; it names no key whose values in `old` and `new` are equal; and the diff of an object
with itself is empty. -/
theorem mergeDiff_laws (old new : Json) (hold : old.Ordered) (hnew : new.Ordered) :
    (new.NullFree → (mergePatch old (mergeDiff old new) == new) = true) ∧
    (∀ k v ov nv, (mergeDiff old new).get? k = some v → old.get? k = some ov →
      new.get? k = some nv → (ov == nv) = false) ∧
    (old.isObject = true → mergeDiff old old = .object []) := by
  refine ⟨fun hnf => mergePatch_mergeDiff hold hnew hnf,
    fun _ _ _ _ hv hov hnv => mergeDiff_get?_beq_false hnew hv hov hnv, fun hobj => ?_⟩
  cases old with
  | object os => exact mergeDiff_self hold.sorted
  | _ => cases hobj

/-- The diff of a document that loses a member, changes a nested one and gains an array with a
`null` in it merges back into the new document. -/
theorem mergeDiff_laws_reshaped :
    (Json.object [("a", .number (.nat 1)), ("b", .object [("c", .number (.nat 2))])]).Ordered ∧
    (Json.object [("b", .object [("d", .string "x")]), ("e", .array [.null])]).Ordered ∧
    (Json.object [("b", .object [("d", .string "x")]), ("e", .array [.null])]).NullFree ∧
    (mergePatch (.object [("a", .number (.nat 1)), ("b", .object [("c", .number (.nat 2))])])
        (mergeDiff (.object [("a", .number (.nat 1)), ("b", .object [("c", .number (.nat 2))])])
          (.object [("b", .object [("d", .string "x")]), ("e", .array [.null])])) ==
      .object [("b", .object [("d", .string "x")]), ("e", .array [.null])]) = true := by
  have hold : (Json.object [("a", .number (.nat 1)), ("b", .object [("c", .number (.nat 2))])]).Ordered :=
    .object (by unfold Keyed.Sorted; decide) fun p hp => by
      simp only [List.mem_cons, List.not_mem_nil, or_false] at hp
      rcases hp with rfl | rfl
      · exact .number _
      · exact .object (by unfold Keyed.Sorted; decide) fun q hq => by
          simp only [List.mem_cons, List.not_mem_nil, or_false] at hq
          subst hq
          exact .number _
  have hnew : (Json.object [("b", .object [("d", .string "x")]), ("e", .array [.null])]).Ordered :=
    .object (by unfold Keyed.Sorted; decide) fun p hp => by
      simp only [List.mem_cons, List.not_mem_nil, or_false] at hp
      rcases hp with rfl | rfl
      · exact .object (by unfold Keyed.Sorted; decide) fun q hq => by
          simp only [List.mem_cons, List.not_mem_nil, or_false] at hq
          subst hq
          exact .string _
      · exact .array fun x hx => by
          simp only [List.mem_cons, List.not_mem_nil, or_false] at hx
          subst hx
          exact .null
  have hnf : (Json.object [("b", .object [("d", .string "x")]), ("e", .array [.null])]).NullFree := by
    refine .object (fun p hp => ?_) fun p hp => ?_
    all_goals
      simp only [List.mem_cons, List.not_mem_nil, or_false] at hp
      rcases hp with rfl | rfl
    · exact Json.noConfusion
    · exact Json.noConfusion
    · refine .object (fun q hq => ?_) fun q hq => ?_
      all_goals
        simp only [List.mem_cons, List.not_mem_nil, or_false] at hq
        subst hq
      · exact Json.noConfusion
      · exact .leaf rfl
    · exact .leaf rfl
  exact ⟨hold, hnew, hnf, (mergeDiff_laws _ _ hold hnew).1 hnf⟩

end Json

end MergePatch
