import Mathlib
import MergePatch.Data.Keyed
/-!
# Keyed lists as finite maps

A `Keyed` list is read through `Keyed.get?`, which finds the first entry under a key. Every list
the program builds from nothing goes through `Keyed.insert`, and so is `Sorted`: strictly
increasing in key. Sorted lists are determined by their lookups (`Keyed.ext`), so two of them
are shown equal key by key.

A list taken from elsewhere may hold a key twice. `Keyed.ofList` sets its entries in turn, so a
later entry wins; `getLast?` is that lookup, the first entry under a key read from the end.
`Keyed.insert` on such a list either puts its entry last under its key, and then the first and
the last entry under the key were one, or leaves the last entry as it was (`getLast?_insert`).
-/

namespace MergePatch

namespace Keyed

variable {α : Type}

/-- Keys strictly increasing. -/
def Sorted (xs : Keyed α) : Prop := xs.Pairwise fun a b => a.1 < b.1

/-- The value of the last entry under `k`. -/
def getLast? (xs : Keyed α) (k : String) : Option α := get? xs.reverse k

@[simp] theorem get?_nil (k : String) : get? ([] : Keyed α) k = none := rfl

theorem get?_cons (k' k : String) (v : α) (xs : Keyed α) :
    get? ((k', v) :: xs) k = if k' = k then some v else get? xs k := by
  by_cases h : k' = k <;> simp [get?, h]

@[simp] theorem get?_cons_self (k : String) (v : α) (xs : Keyed α) :
    get? ((k, v) :: xs) k = some v := by
  simp [get?_cons]

theorem get?_append (xs ys : Keyed α) (k : String) :
    get? (xs ++ ys) k = (get? xs k).or (get? ys k) := by
  simp only [get?, List.find?_append]
  cases xs.find? (·.1 == k) <;> rfl

theorem get?_eq_none {xs : Keyed α} {k : String} (h : ∀ p ∈ xs, p.1 ≠ k) : get? xs k = none := by
  simp only [get?, Option.map_eq_none_iff, List.find?_eq_none, beq_iff_eq]
  exact h

theorem get?_eq_some_mem {xs : Keyed α} {k : String} {v : α} (h : get? xs k = some v) :
    (k, v) ∈ xs := by
  simp only [get?, Option.map_eq_some_iff] at h
  obtain ⟨p, hp, rfl⟩ := h
  have hk : p.1 = k := by simpa using List.find?_some hp
  rw [← hk]
  exact List.mem_of_find?_eq_some hp

/-- Setting an entry: the key set reads the new value, every other key reads as before. -/
theorem get?_insert (xs : Keyed α) (k : String) (v : α) (k' : String) :
    get? (insert xs k v) k' = if k = k' then some v else get? xs k' := by
  induction xs with
  | nil => simp [insert, get?_cons]
  | cons p rest ih =>
    obtain ⟨j, w⟩ := p
    simp only [insert]
    split
    · simp [get?_cons]
    · split
      · rename_i heq
        subst heq
        by_cases h : k = k' <;> simp [get?_cons, h]
      · rw [get?_cons, ih, get?_cons]
        by_cases h : k = k' <;> by_cases h' : j = k' <;> simp_all

@[simp] theorem get?_insert_self (xs : Keyed α) (k : String) (v : α) :
    get? (insert xs k v) k = some v := by
  simp [get?_insert]

theorem get?_insert_of_ne (xs : Keyed α) {k k' : String} (v : α) (h : k ≠ k') :
    get? (insert xs k v) k' = get? xs k' := by
  simp [get?_insert, h]

theorem get?_erase (xs : Keyed α) (k k' : String) :
    get? (erase xs k) k' = if k = k' then none else get? xs k' := by
  induction xs with
  | nil => simp [erase]
  | cons p rest ih =>
    obtain ⟨j, w⟩ := p
    have hrest : get? (erase rest k) k' = get? (List.filter (·.1 != k) rest) k' := rfl
    by_cases hj : j = k
    · subst hj
      simp only [erase, List.filter_cons, bne_self_eq_false, Bool.false_eq_true, ↓reduceIte]
      rw [← hrest, ih, get?_cons]
      by_cases h : j = k' <;> simp [h]
    · simp only [erase, List.filter_cons, bne_iff_ne, ne_eq, hj, not_false_eq_true, ↓reduceIte]
      rw [get?_cons, ← hrest, ih, get?_cons]
      by_cases h : k = k' <;> simp_all

/-- Every entry of `insert xs k v` is the new one or an entry of `xs`. -/
theorem mem_insert {xs : Keyed α} {k : String} {v : α} {p : String × α}
    (hp : p ∈ insert xs k v) : p = (k, v) ∨ p ∈ xs := by
  induction xs with
  | nil => simpa [insert] using hp
  | cons q rest ih =>
    simp only [insert] at hp
    split at hp
    · simpa using hp
    · split at hp
      · rcases List.mem_cons.mp hp with h | h
        · exact .inl h
        · exact .inr (List.mem_cons_of_mem _ h)
      · rcases List.mem_cons.mp hp with h | h
        · exact .inr (h ▸ List.mem_cons_self)
        · rcases ih h with h' | h'
          · exact .inl h'
          · exact .inr (List.mem_cons_of_mem _ h')

theorem Sorted.insert {xs : Keyed α} (hs : Sorted xs) (k : String) (v : α) :
    Sorted (Keyed.insert xs k v) := by
  induction xs with
  | nil => simp [Keyed.insert, Sorted]
  | cons p rest ih =>
    obtain ⟨j, w⟩ := p
    have hcons := List.pairwise_cons.mp hs
    simp only [Keyed.insert]
    split
    · rename_i hlt
      refine List.Pairwise.cons (fun q hq => ?_) hs
      rcases List.mem_cons.mp hq with rfl | hq
      · exact hlt
      · exact String.lt_trans hlt (hcons.1 q hq)
    · split
      · rename_i heq
        subst heq
        exact List.Pairwise.cons hcons.1 hcons.2
      · rename_i hnlt hne
        refine List.Pairwise.cons (fun q hq => ?_) (ih hcons.2)
        rcases mem_insert hq with rfl | hq
        · exact lt_of_le_of_ne (not_lt.mp hnlt) (Ne.symm hne)
        · exact hcons.1 q hq

theorem Sorted.erase {xs : Keyed α} (hs : Sorted xs) (k : String) : Sorted (Keyed.erase xs k) :=
  List.Pairwise.filter _ hs

theorem Sorted.tail {p : String × α} {xs : Keyed α} (hs : Sorted (p :: xs)) : Sorted xs :=
  (List.pairwise_cons.mp hs).2

theorem Sorted.keys_nodup {xs : Keyed α} (hs : Sorted xs) : (xs.map Prod.fst).Nodup := by
  rw [List.Nodup, List.pairwise_map]
  exact hs.imp fun h => ne_of_lt h

/-- In a sorted list no entry after the first has the first key. -/
theorem Sorted.get?_tail_of_head {k : String} {v : α} {xs : Keyed α} (hs : Sorted ((k, v) :: xs)) :
    get? xs k = none :=
  get?_eq_none fun q hq hk => String.lt_irrefl k (hk ▸ (List.pairwise_cons.mp hs).1 q hq)

/-- Sorted lists with the same lookups are equal. -/
theorem ext {xs ys : Keyed α} (hx : Sorted xs) (hy : Sorted ys)
    (h : ∀ k, get? xs k = get? ys k) : xs = ys := by
  induction xs generalizing ys with
  | nil =>
    cases ys with
    | nil => rfl
    | cons q ys =>
      obtain ⟨j, w⟩ := q
      simpa using (h j).symm
  | cons p xs ih =>
    cases ys with
    | nil =>
      obtain ⟨j, w⟩ := p
      simpa using h j
    | cons q ys =>
      obtain ⟨j, v⟩ := p
      obtain ⟨j', v'⟩ := q
      -- the least key of each list is found in the other, so the two heads agree
      have hj : get? ((j', v') :: ys) j = some v := by rw [← h j]; simp
      have hj' : get? ((j, v) :: xs) j' = some v' := by rw [h j']; simp
      have hkeys : j = j' := by
        rw [get?_cons] at hj hj'
        by_contra hne
        rw [if_neg (Ne.symm hne)] at hj
        rw [if_neg hne] at hj'
        have h1 := (List.pairwise_cons.mp hx).1 _ (get?_eq_some_mem hj')
        have h2 := (List.pairwise_cons.mp hy).1 _ (get?_eq_some_mem hj)
        exact String.lt_asymm h1 h2
      subst hkeys
      have hv : v' = v := by simpa using hj
      subst hv
      congr 1
      refine ih hx.tail hy.tail fun k => ?_
      by_cases hk : j = k
      · subst hk
        rw [hx.get?_tail_of_head, hy.get?_tail_of_head]
      · simpa [get?_cons, hk] using h k

/-! ## The last entry under a key -/

theorem getLast?_nil (k : String) : getLast? ([] : Keyed α) k = none := rfl

theorem getLast?_eq_none_iff (xs : Keyed α) (k : String) :
    getLast? xs k = none ↔ get? xs k = none := by
  simp [getLast?, get?]

theorem getLast?_append (xs ys : Keyed α) (k : String) :
    getLast? (xs ++ ys) k = (getLast? ys k).or (getLast? xs k) := by
  simp [getLast?, get?_append]

theorem getLast?_cons (k' : String) (v : α) (xs : Keyed α) (k : String) :
    getLast? ((k', v) :: xs) k = (getLast? xs k).or (if k' = k then some v else none) := by
  rw [show (k', v) :: xs = [(k', v)] ++ xs from rfl, getLast?_append]
  by_cases h : k' = k <;> simp [getLast?, get?_cons, h]

/-- Mapping the values maps the last entry of each key. -/
theorem getLast?_map {β : Type} (xs : Keyed α) (f : String × α → String × β) (g : α → β)
    (hf : ∀ p, f p = (p.1, g p.2)) (k : String) :
    getLast? (xs.map f) k = (getLast? xs k).map g := by
  induction xs with
  | nil => rfl
  | cons p rest ih =>
    obtain ⟨j, x⟩ := p
    rw [List.map_cons, hf, getLast?_cons, getLast?_cons, ih]
    cases getLast? rest k <;> by_cases h : j = k <;> simp [h]

/-- `ofList` lets a later entry win. -/
theorem get?_ofList (ps : List (String × α)) (k : String) : get? (ofList ps) k = getLast? ps k := by
  suffices h : ∀ acc : Keyed α,
      get? (ps.foldl (fun acc p => insert acc p.1 p.2) acc) k = (getLast? ps k).or (get? acc k) by
    have h₀ := h []
    rw [get?_nil, Option.or_none] at h₀
    exact h₀
  induction ps with
  | nil => simp [getLast?]
  | cons p ps ih =>
    intro acc
    obtain ⟨j, w⟩ := p
    rw [List.foldl_cons, ih, get?_insert, getLast?_cons]
    by_cases h : j = k <;> simp [h]

theorem sorted_ofList (ps : List (String × α)) : Sorted (ofList ps) := by
  suffices h : ∀ acc : Keyed α, Sorted acc →
      Sorted (ps.foldl (fun acc p => insert acc p.1 p.2) acc) from h [] List.Pairwise.nil
  induction ps with
  | nil => exact fun _ h => h
  | cons p ps ih => exact fun acc h => ih _ (h.insert p.1 p.2)

/-- In a sorted list the first and the last entry under a key are one. -/
theorem Sorted.getLast?_eq {xs : Keyed α} (hs : Sorted xs) (k : String) :
    getLast? xs k = get? xs k := by
  induction xs with
  | nil => rfl
  | cons p rest ih =>
    obtain ⟨j, w⟩ := p
    rw [getLast?_cons, ih hs.tail, get?_cons]
    by_cases h : j = k
    · subst h
      simp [hs.get?_tail_of_head]
    · simp [h]

/-- `insert` makes its entry the last under its key, and then the key's first and last entries
agreed before; or the last entry under the key stays as it was. -/
theorem getLast?_insert (xs : Keyed α) (k : String) (v : α) :
    (getLast? (insert xs k v) k = some v ∧ get? xs k = getLast? xs k) ∨
      getLast? (insert xs k v) k = getLast? xs k := by
  induction xs with
  | nil => simp [insert, getLast?_cons, getLast?_nil]
  | cons p rest ih =>
    obtain ⟨j, w⟩ := p
    simp only [insert]
    split
    · rename_i hlt
      have hne : j ≠ k := fun h => String.lt_irrefl k (h ▸ hlt)
      rcases hrest : getLast? rest k with _ | u
      · left
        have hnone := (getLast?_eq_none_iff rest k).mp hrest
        simp [getLast?_cons, hrest, hne, get?_cons, hnone]
      · right
        simp [getLast?_cons, hrest]
    · split
      · rename_i heq
        subst heq
        rcases hrest : getLast? rest k with _ | u
        · left
          simp [getLast?_cons, hrest]
        · right
          simp [getLast?_cons, hrest]
      · rename_i hne
        rcases ih with ⟨h1, h2⟩ | h
        · left
          refine ⟨by simp [getLast?_cons, h1], ?_⟩
          rw [get?_cons, getLast?_cons, if_neg (Ne.symm hne), if_neg (Ne.symm hne), h2]
          simp
        · right
          simp [getLast?_cons, h]

theorem getLast?_insert_of_ne (xs : Keyed α) {k k' : String} (v : α) (h : k ≠ k') :
    getLast? (insert xs k v) k' = getLast? xs k' := by
  induction xs with
  | nil => simp [insert, getLast?_cons, getLast?_nil, h]
  | cons p rest ih =>
    obtain ⟨j, w⟩ := p
    simp only [insert]
    split
    · simp [getLast?_cons, h]
    · split
      · rename_i heq
        subst heq
        simp [getLast?_cons, h]
      · simp [getLast?_cons, ih]

/-- In a list whose keys are distinct, an entry is what its key finds. -/
theorem get?_of_mem {xs : Keyed α} (hnd : (xs.map Prod.fst).Nodup) {p : String × α} (hp : p ∈ xs) :
    get? xs p.1 = some p.2 := by
  induction xs with
  | nil => cases hp
  | cons q rest ih =>
    rw [List.map_cons, List.nodup_cons] at hnd
    rcases List.mem_cons.mp hp with rfl | hp
    · exact get?_cons_self p.1 p.2 rest
    · have hne : q.1 ≠ p.1 := fun h => hnd.1 (List.mem_map.mpr ⟨p, hp, h.symm⟩)
      rw [get?_cons, if_neg hne]
      exact ih hnd.2 hp

/-- In a list whose keys are distinct, the first and the last entry under a key are one. -/
theorem getLast?_eq_of_nodup {xs : Keyed α} (hnd : (xs.map Prod.fst).Nodup) (k : String) :
    getLast? xs k = get? xs k := by
  induction xs with
  | nil => rfl
  | cons p rest ih =>
    obtain ⟨j, w⟩ := p
    rw [List.map_cons, List.nodup_cons] at hnd
    rw [getLast?_cons, ih hnd.2, get?_cons]
    by_cases h : j = k
    · subst h
      rw [get?_eq_none fun q hq hqj => hnd.1 (List.mem_map.mpr ⟨q, hq, hqj⟩)]
      simp
    · simp [h]

/-- Every entry of `ofList ps` is an entry of `ps`. -/
theorem mem_ofList {ps : List (String × α)} {p : String × α} (hp : p ∈ ofList ps) : p ∈ ps := by
  suffices h : ∀ acc : Keyed α, p ∈ ps.foldl (fun acc q => insert acc q.1 q.2) acc → p ∈ acc ∨ p ∈ ps from
    (h [] hp).resolve_left List.not_mem_nil
  clear hp
  induction ps with
  | nil => exact fun _ h => .inl h
  | cons q ps ih =>
    intro acc h
    rw [List.foldl_cons] at h
    rcases ih _ h with h | h
    · rcases mem_insert h with rfl | h
      · exact .inr List.mem_cons_self
      · exact .inl h
    · exact .inr (List.mem_cons_of_mem _ h)

/-- A sorted list is its own `ofList`. -/
theorem ofList_of_sorted {xs : Keyed α} (hs : Sorted xs) : ofList xs = xs :=
  ext (sorted_ofList xs) hs fun k => by rw [get?_ofList, hs.getLast?_eq]

theorem ofList_append_singleton (ps : List (String × α)) (k : String) (v : α) :
    ofList (ps ++ [(k, v)]) = insert (ofList ps) k v := by
  simp [ofList, List.foldl_append]

end Keyed

namespace Names

theorem mem_insert (ns : Names) (n x : String) : x ∈ Names.insert ns n ↔ x = n ∨ x ∈ ns := by
  induction ns with
  | nil => simp [Names.insert]
  | cons m rest ih =>
    simp only [Names.insert]
    split
    · simp
    · split
      · rename_i h
        subst h
        simp only [List.mem_cons]
        constructor
        · rintro (h | h) <;> simp [h]
        · rintro (h | h | h) <;> simp [h]
      · simp only [List.mem_cons, ih]
        constructor
        · rintro (h | h | h) <;> simp [h]
        · rintro (h | h | h) <;> simp [h]

end Names

end MergePatch
