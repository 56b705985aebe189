import Mathlib
import MergePatch.Patch.Merge
import MergePatch.Proofs.Keyed
/-!
# Merge patches member by member

A merge patch acts on each key of the target alone: `Json.mergeAt t p` is what stands under a
key after the patch member `p` (if the patch has the key) meets the target member `t`. When the
patch lists each key once, as every patch the models write does, the merged object reads
`mergeAt` under every key (`get?_mergeMembers`). The members of a merged sorted object stay
sorted, so a merge is known once it is known key by key (`mergePatch_eq_of_get?`).

`Json.normalize` puts an object's members in key order with a later member winning; under each
key it reads the last member of that key, normalized (`get?_normalize_object`).
-/

namespace MergePatch

namespace Json

/-- What a merge patch leaves under one key: the target's member `t` after the patch's member,
if the patch has one. -/
def mergeAt (t : Option Json) : Option Json → Option Json
  | none => t
  | some .null => none
  | some (.object ps) => some (.object (mergeMembers (t.getD (.object [])).membersOf ps))
  | some p => some p

/-- The members a value reads under each key: those of an object, none otherwise. -/
theorem get?_eq_membersOf (j : Json) (k : String) : j.get? k = Keyed.get? j.membersOf k := by
  cases j <;> rfl

@[simp] theorem membersOf_object (fs : Fields) : (Json.object fs).membersOf = fs := rfl

theorem mergePatch_object (t : Json) (ps : List (String × Json)) :
    mergePatch t (.object ps) = .object (mergeMembers t.membersOf ps) := rfl

/-- `mergeAt` with a target member, as the merge of the whole patch member. -/
theorem mergeAt_some (t : Option Json) (p : Json) :
    mergeAt t (some p) = match p with
      | .null => none
      | .object _ => some (mergePatch (t.getD (.object [])) p)
      | _ => some p := by
  cases p <;> rfl

/-- Each key of a patch whose keys are distinct is merged on its own. -/
theorem get?_mergeMembers (ts ps : Fields) (hps : (ps.map Prod.fst).Nodup) (k : String) :
    Keyed.get? (mergeMembers ts ps) k = mergeAt (Keyed.get? ts k) (Keyed.get? ps k) := by
  induction ps generalizing ts with
  | nil => simp [mergeMembers, mergeAt]
  | cons p rest ih =>
    obtain ⟨j, v⟩ := p
    have hj : ∀ q ∈ rest, q.1 ≠ j := by
      intro q hq hqj
      exact (List.nodup_cons.mp hps).1 (List.mem_map.mpr ⟨q, hq, hqj⟩)
    have hrest := (List.nodup_cons.mp hps).2
    -- the member `j` is merged first; the rest of the patch does not touch `j` again
    have step : ∀ ts' : Fields,
        (∀ k', k' ≠ j → Keyed.get? ts' k' = Keyed.get? ts k') →
        Keyed.get? ts' j = mergeAt (Keyed.get? ts j) (some v) →
        Keyed.get? (mergeMembers ts' rest) k = mergeAt (Keyed.get? ts k) (Keyed.get? ((j, v) :: rest) k) := by
      intro ts' hother hself
      rw [ih ts' hrest, Keyed.get?_cons]
      by_cases hk : j = k
      · subst hk
        rw [Keyed.get?_eq_none hj, hself, if_pos rfl]
        rfl
      · rw [if_neg hk, hother k (Ne.symm hk)]
    cases v with
    | null =>
      simp only [mergeMembers]
      exact step _ (fun k' h => by rw [Keyed.get?_erase, if_neg (Ne.symm h)])
        (by rw [Keyed.get?_erase, if_pos rfl]; rfl)
    | object qs =>
      simp only [mergeMembers]
      exact step _ (fun k' h => Keyed.get?_insert_of_ne _ _ (Ne.symm h))
        (by rw [Keyed.get?_insert_self]; rfl)
    | bool b =>
      simp only [mergeMembers]
      exact step _ (fun k' h => Keyed.get?_insert_of_ne _ _ (Ne.symm h))
        (by rw [Keyed.get?_insert_self]; rfl)
    | number n =>
      simp only [mergeMembers]
      exact step _ (fun k' h => Keyed.get?_insert_of_ne _ _ (Ne.symm h))
        (by rw [Keyed.get?_insert_self]; rfl)
    | string s =>
      simp only [mergeMembers]
      exact step _ (fun k' h => Keyed.get?_insert_of_ne _ _ (Ne.symm h))
        (by rw [Keyed.get?_insert_self]; rfl)
    | array xs =>
      simp only [mergeMembers]
      exact step _ (fun k' h => Keyed.get?_insert_of_ne _ _ (Ne.symm h))
        (by rw [Keyed.get?_insert_self]; rfl)

theorem sorted_mergeMembers {ts : Fields} (hts : Keyed.Sorted ts) (ps : List (String × Json)) :
    Keyed.Sorted (mergeMembers ts ps) := by
  induction ps generalizing ts with
  | nil => simpa [mergeMembers] using hts
  | cons p rest ih =>
    obtain ⟨j, v⟩ := p
    cases v with
    | null => simpa only [mergeMembers] using ih (hts.erase j)
    | object qs => simpa only [mergeMembers] using ih (hts.insert j _)
    | bool b => simpa only [mergeMembers] using ih (hts.insert j _)
    | number n => simpa only [mergeMembers] using ih (hts.insert j _)
    | string s => simpa only [mergeMembers] using ih (hts.insert j _)
    | array xs => simpa only [mergeMembers] using ih (hts.insert j _)

/-- A merge into a sorted target by a sorted patch is known key by key. -/
theorem mergePatch_eq_of_get? {t : Json} {ps out : Fields} (ht : Keyed.Sorted t.membersOf)
    (hps : Keyed.Sorted ps) (hout : Keyed.Sorted out)
    (h : ∀ k, mergeAt (t.get? k) (Keyed.get? ps k) = Keyed.get? out k) :
    mergePatch t (.object ps) = .object out := by
  rw [mergePatch_object]
  congr 1
  refine Keyed.ext (sorted_mergeMembers ht ps) hout fun k => ?_
  rw [get?_mergeMembers _ _ hps.keys_nodup, ← get?_eq_membersOf]
  exact h k

/-! ## Normal form -/

theorem normalizeFields_eq_map (fs : List (String × Json)) :
    normalizeFields fs = fs.map fun p => (p.1, p.2.normalize) := by
  induction fs with
  | nil => rfl
  | cons p rest ih =>
    obtain ⟨k, x⟩ := p
    simp [normalizeFields, ih]

theorem normalize_object (fs : List (String × Json)) :
    (Json.object fs).normalize = .object (Keyed.ofList (normalizeFields fs)) := by
  simp [normalize]

theorem getLast?_map_normalize (fs : List (String × Json)) (k : String) :
    Keyed.getLast? (fs.map fun p => (p.1, p.2.normalize)) k = (Keyed.getLast? fs k).map normalize :=
  Keyed.getLast?_map fs _ normalize (fun _ => rfl) k

/-- A normalized object reads the last member of each key, normalized. -/
theorem get?_normalize_object (fs : List (String × Json)) (k : String) :
    (Json.object fs).normalize.get? k = (Keyed.getLast? fs k).map normalize := by
  rw [normalize_object, get?_eq_membersOf, membersOf_object, Keyed.get?_ofList,
    normalizeFields_eq_map, getLast?_map_normalize]

theorem sorted_normalize_object (fs : List (String × Json)) :
    Keyed.Sorted (Json.object fs).normalize.membersOf := by
  rw [normalize_object]
  exact Keyed.sorted_ofList _

/-- An object patch merges into a target member as a merge of the whole. -/
theorem mergeAt_normalize (t : Option Json) (fs : List (String × Json)) :
    mergeAt t (some (Json.object fs).normalize) =
      some (mergePatch (t.getD (.object [])) (Json.object fs).normalize) := by
  rw [normalize_object]
  rfl

/-- A merge of a normalized patch into a sorted target, known key by key from the last member of
each key. -/
theorem mergePatch_normalize {t : Json} {ps fs : List (String × Json)} (ht : Keyed.Sorted t.membersOf)
    (h : ∀ k, mergeAt (t.get? k) ((Keyed.getLast? ps k).map normalize) =
      (Keyed.getLast? fs k).map normalize) :
    mergePatch t (Json.object ps).normalize = (Json.object fs).normalize := by
  rw [normalize_object, normalize_object]
  refine mergePatch_eq_of_get? ht (Keyed.sorted_ofList _) (Keyed.sorted_ofList _) fun k => ?_
  rw [Keyed.get?_ofList, Keyed.get?_ofList, normalizeFields_eq_map, normalizeFields_eq_map,
    getLast?_map_normalize, getLast?_map_normalize]
  exact h k

end Json

end MergePatch
