import Mathlib
import MergePatch.Http.Message
/-!
# Header fields as a map

Header names are compared by their ASCII-lowercased forms (`Headers.headerKey`), so the
comparison is an equivalence, and a list of fields built only by `Headers.set` is a map from
keys to values in which the last write wins:

* no two fields share a key (`Headers.keys_nodup_setAll`);
* a name reads the value of the last set of its key (`Headers.get?_setAll_empty`);
* the fields stand in the order their keys were first set, each spelt as that first set spelt
  it (`Headers.names_setAll_empty`);
* setting the fields of such a list over any other list gives a name the first list's value when
  it has one, and the other's otherwise (`Headers.get?_setAll_entries`). This is how a call's
  options are laid over the headers of a request.

The main statement is `Headers.set_sequence_laws`. All of it follows from two facts about one
`set`: what it does to the names (`Headers.names_set`) and what it does to every read
(`Headers.get?_set`).
-/

namespace MergePatch

namespace Headers

/-- A header name with its ASCII letters in lower case: names are compared in this form. -/
def headerKey (n : String) : List Char := n.toList.map Char.toLower

/-- The names of the fields, in order. -/
def names (h : Headers) : List String := h.entries.map Prod.fst

/-- The keys of the fields, in order. -/
def keys (h : Headers) : List (List Char) := h.names.map headerKey

/-- The value of the last field of a list whose name is the same as `n`, ASCII case aside. -/
def lastSet (ops : List (String × String)) (n : String) : Option String :=
  (ops.reverse.find? fun o => sameHeaderName o.1 n).map Prod.snd

theorem sameHeaderName_iff {a b : String} :
    sameHeaderName a b = true ↔ headerKey a = headerKey b := by
  simp [sameHeaderName, headerKey]

theorem sameHeaderName_comm (a b : String) : sameHeaderName a b = sameHeaderName b a := by
  simp only [sameHeaderName, Bool.beq_comm]

theorem sameHeaderName_eq_false {a b : String} :
    sameHeaderName a b = false ↔ headerKey a ≠ headerKey b := by
  simp only [Ne, ← sameHeaderName_iff, Bool.not_eq_true]

@[simp] theorem names_mk (es : List (String × String)) : names ⟨es⟩ = es.map Prod.fst := rfl

@[simp] theorem get?_mk (es : List (String × String)) (n : String) :
    get? ⟨es⟩ n = (es.find? fun e => sameHeaderName e.1 n).map Prod.snd := rfl

@[simp] theorem setAll_nil (h : Headers) : h.setAll [] = h := rfl

theorem setAll_cons (h : Headers) (n v : String) (ops : List (String × String)) :
    h.setAll ((n, v) :: ops) = (h.set n v).setAll ops := rfl

theorem lastSet_cons (n v m : String) (ops : List (String × String)) :
    lastSet ((n, v) :: ops) m = (lastSet ops m).or (if sameHeaderName n m then some v else none) := by
  unfold lastSet
  rw [List.reverse_cons, List.find?_append]
  cases (ops.reverse.find? fun o => sameHeaderName o.1 m) with
  | some o => simp
  | none => by_cases hs : sameHeaderName n m <;> simp [hs]

/-! ## Replacing the first field of a name -/

section Replace

variable {n v : String} {es es' : List (String × String)}

theorem replaceFirst_eq_none :
    replaceFirst n v es = none ↔ ∀ e ∈ es, sameHeaderName e.1 n = false := by
  induction es with
  | nil => simp [replaceFirst]
  | cons e rest ih =>
    obtain ⟨a, b⟩ := e
    by_cases hs : sameHeaderName a n = true
    · simp [replaceFirst, hs]
    · simp [replaceFirst, hs, ih]

/-- Replacing keeps every name where it was. -/
theorem names_replaceFirst (hr : replaceFirst n v es = some es') :
    es'.map Prod.fst = es.map Prod.fst := by
  induction es generalizing es' with
  | nil => cases hr
  | cons e rest ih =>
    obtain ⟨a, b⟩ := e
    by_cases hs : sameHeaderName a n = true
    · simp only [replaceFirst, hs, if_true, Option.some.injEq] at hr
      subst hr
      rfl
    · simp only [replaceFirst, hs, Bool.false_eq_true, if_false, Option.map_eq_map,
        Option.map_eq_some_iff] at hr
      obtain ⟨rest', hrest, rfl⟩ := hr
      simp [ih hrest]

/-- After replacing, a name of the replaced key reads the new value and any other name reads
what it read before. -/
theorem find?_replaceFirst (hr : replaceFirst n v es = some es') (m : String) :
    (es'.find? fun e => sameHeaderName e.1 m).map Prod.snd =
      if sameHeaderName n m then some v else (es.find? fun e => sameHeaderName e.1 m).map Prod.snd := by
  induction es generalizing es' with
  | nil => cases hr
  | cons e rest ih =>
    obtain ⟨a, b⟩ := e
    by_cases hs : sameHeaderName a n = true
    · -- the head is the field replaced; it answers `m` exactly when `n` does
      simp only [replaceFirst, hs, if_true, Option.some.injEq] at hr
      subst hr
      rw [sameHeaderName_iff] at hs
      by_cases hm : headerKey n = headerKey m
      · simp [sameHeaderName_iff.2 hm, sameHeaderName_iff.2 (hs.trans hm)]
      · have ham : sameHeaderName a m = false := by rw [sameHeaderName_eq_false, hs]; exact hm
        simp [ham, sameHeaderName_eq_false.2 hm]
    · simp only [replaceFirst, hs, Bool.false_eq_true, if_false, Option.map_eq_map,
        Option.map_eq_some_iff] at hr
      obtain ⟨rest', hrest, rfl⟩ := hr
      by_cases ham : sameHeaderName a m = true
      · -- the head answers `m`, so `n`, a different key from the head's, does not
        have hnm : sameHeaderName n m = false := by
          rw [sameHeaderName_iff] at ham
          rw [sameHeaderName_eq_false]
          intro hnm
          exact hs (sameHeaderName_iff.2 (ham.trans hnm.symm))
        simp [ham, hnm]
      · simp [ham, ih hrest]

end Replace

/-! ## One `set` -/

section Set

variable (h : Headers) (n v : String)

/-- A name already present keeps its place and spelling; a new one is appended. -/
theorem names_set :
    (h.set n v).names = if h.names.any (sameHeaderName · n) then h.names else h.names ++ [n] := by
  unfold set
  cases hr : replaceFirst n v h.entries with
  | none =>
    have hany : h.names.any (sameHeaderName · n) = false := by
      simpa [names] using replaceFirst_eq_none.1 hr
    rw [hany]
    simp [names]
  | some es =>
    have hany : h.names.any (sameHeaderName · n) = true := by
      have hne : ¬ ∀ e ∈ h.entries, sameHeaderName e.1 n = false := by
        rw [← replaceFirst_eq_none, hr]
        simp
      simpa [names] using hne
    rw [hany]
    simp [names, names_replaceFirst hr]

/-- **Setting a header**: a name of the key set reads the value set, any other name reads what
it read before. -/
theorem get?_set (m : String) :
    (h.set n v).get? m = if sameHeaderName n m then some v else h.get? m := by
  unfold set
  cases hr : replaceFirst n v h.entries with
  | some es => exact find?_replaceFirst hr m
  | none =>
    -- appended at the end, after fields none of which has the key of `n`
    have hnone := replaceFirst_eq_none.1 hr
    obtain ⟨es⟩ := h
    simp only [get?_mk, List.find?_append, List.find?_singleton]
    by_cases hnm : sameHeaderName n m = true
    · have hfind : (es.find? fun e => sameHeaderName e.1 m) = none := by
        rw [List.find?_eq_none]
        intro e he hem
        have hen := hnone e he
        rw [sameHeaderName_eq_false] at hen
        exact hen ((sameHeaderName_iff.1 hem).trans (sameHeaderName_iff.1 hnm).symm)
      simp [hfind, hnm]
    · cases (es.find? fun e => sameHeaderName e.1 m) <;> simp [hnm]

end Set

/-! ## Runs of `set` -/

section SetAll

/-- After a run of sets, a name reads the last value set under its key, or else what it read
before. -/
theorem get?_setAll (h : Headers) (ops : List (String × String)) (m : String) :
    (h.setAll ops).get? m = (lastSet ops m).or (h.get? m) := by
  induction ops generalizing h with
  | nil => simp [lastSet]
  | cons o ops ih =>
    obtain ⟨n, v⟩ := o
    rw [setAll_cons, ih, get?_set, lastSet_cons, Option.or_assoc]
    by_cases hs : sameHeaderName n m <;> simp [hs]

/-- After a run of sets, the names are the old ones followed by the first spelling of each new
key, in the order the keys were first set. -/
theorem names_setAll (h : Headers) (ops : List (String × String)) :
    (h.setAll ops).names = h.names ++
      ((ops.map Prod.fst).filter fun b => !h.names.any (sameHeaderName · b)).eraseDupsBy
        sameHeaderName := by
  induction ops generalizing h with
  | nil => simp
  | cons o ops ih =>
    obtain ⟨n, v⟩ := o
    rw [setAll_cons, ih, names_set]
    by_cases hany : h.names.any (sameHeaderName · n) = true
    · -- `n` was present: the set changed no name, and `n` is filtered out
      simp [hany]
    · -- `n` is new: it comes next, and later names of its key are dropped after it
      simp only [hany, Bool.false_eq_true, if_false, List.map_cons, List.filter_cons, Bool.not_false,
        if_true, List.eraseDupsBy_cons, List.append_assoc, List.singleton_append, List.filter_filter]
      congr 3
      apply List.filter_congr
      intro b _
      simp [sameHeaderName_comm b n, Bool.and_comm]

/-- A run of sets never puts two fields of one key in a list that had none. -/
theorem keys_nodup_setAll (h : Headers) (ops : List (String × String)) (hk : h.keys.Nodup) :
    (h.setAll ops).keys.Nodup := by
  induction ops generalizing h with
  | nil => exact hk
  | cons o ops ih =>
    obtain ⟨n, v⟩ := o
    rw [setAll_cons]
    apply ih
    rw [keys, names_set]
    split
    · exact hk
    · rename_i hany
      have hnew : headerKey n ∉ h.keys := by
        simp only [keys, List.mem_map]
        rintro ⟨b, hb, hbn⟩
        exact hany (List.any_eq_true.2 ⟨b, hb, sameHeaderName_iff.2 hbn⟩)
      rw [List.map_append, List.nodup_append]
      refine ⟨hk, List.nodup_singleton _, ?_⟩
      intro a ha b hb hab
      simp only [List.map_cons, List.map_nil, List.mem_singleton] at hb
      exact hnew (hb ▸ hab ▸ ha)

/-- In a list with one field per key, the last field of a name's key is its only one. -/
theorem lastSet_eq_get? (h : Headers) (hk : h.keys.Nodup) (m : String) :
    lastSet h.entries m = h.get? m := by
  obtain ⟨es⟩ := h
  induction es with
  | nil => simp [lastSet]
  | cons e es ih =>
    obtain ⟨a, b⟩ := e
    simp only [keys, names_mk, List.map_cons, List.nodup_cons] at hk
    obtain ⟨hnew, hrest⟩ := hk
    rw [lastSet_cons, ih (by simpa [keys] using hrest)]
    by_cases ham : sameHeaderName a m = true
    · -- no later field answers `m`: its key would be the head's
      have hnone : (es.find? fun e => sameHeaderName e.1 m) = none := by
        rw [List.find?_eq_none]
        intro e he hem
        exact hnew (List.mem_map.2 ⟨e.1, List.mem_map_of_mem he,
          (sameHeaderName_iff.1 hem).trans (sameHeaderName_iff.1 ham).symm⟩)
      simp [ham, hnone]
    · simp [ham]

end SetAll

/-! ## Lists built by `set` alone -/

@[simp] theorem names_empty : names {} = [] := rfl

@[simp] theorem get?_empty (m : String) : get? {} m = none := rfl

theorem keys_nodup_empty : keys {} |>.Nodup := List.nodup_nil

theorem get?_setAll_empty (ops : List (String × String)) (m : String) :
    (({} : Headers).setAll ops).get? m = lastSet ops m := by
  simp [get?_setAll]

theorem names_setAll_empty (ops : List (String × String)) :
    (({} : Headers).setAll ops).names = (ops.map Prod.fst).eraseDupsBy sameHeaderName := by
  simp [names_setAll]

/-- Laying the fields of a list built by `set` over any list: the laid list's value wins where it
has one. -/
theorem get?_setAll_entries (ops : List (String × String)) (base : Headers) (m : String) :
    (base.setAll (({} : Headers).setAll ops).entries).get? m =
      ((({} : Headers).setAll ops).get? m).or (base.get? m) := by
  have hk := keys_nodup_setAll {} ops keys_nodup_empty
  rw [get?_setAll, lastSet_eq_get? _ hk]

/-- **Headers built by `set` are a case-insensitive map where the last write wins.** For every
run of sets from the empty list: no two fields share a key; a name reads the value of the last
set of its key, or nothing; the fields are the first spellings of the keys in the order they
were first set; and laying the fields over another list, as a call's options are laid over a
request's headers, gives each name the laid value where there is one and the old one otherwise. -/
theorem set_sequence_laws (ops : List (String × String)) :
    (({} : Headers).setAll ops).keys.Nodup ∧
    (∀ n, (({} : Headers).setAll ops).get? n = lastSet ops n) ∧
    (({} : Headers).setAll ops).names = (ops.map Prod.fst).eraseDupsBy sameHeaderName ∧
    ∀ (base : Headers) (n : String), (base.setAll (({} : Headers).setAll ops).entries).get? n =
      ((({} : Headers).setAll ops).get? n).or (base.get? n) :=
  ⟨keys_nodup_setAll {} ops keys_nodup_empty, get?_setAll_empty ops, names_setAll_empty ops,
    get?_setAll_entries ops⟩

end Headers

end MergePatch
