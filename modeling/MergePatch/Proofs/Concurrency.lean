import Mathlib
import MergePatch.Service.History
import MergePatch.Proofs.Setters
/-!
# Optimistic concurrency

A client that has read a resource sends its tag back in If-Match; the write goes through only
while that tag is still the resource's, and every write gives the resource a fresh tag. So two
writes never both go through on the strength of one tag, and no update is lost to a concurrent
one. In the same way a put with `If-None-Match: *` only creates: of all such puts of a name at
most one goes through, and none for a name the store was seeded with.

Two facts carry this. A tag the service mints is a UUID in double quotes (`IsMintedTag`), so a
condition naming one tag matches that tag and nothing else (`etagMatches_minted`, a case of
`etagMatches_exact`; a condition listing several tags is decided tag by tag,
`etagMatches_append`). And the
source of tags never repeats itself (`Function.Injective mint`), so along every history the
tags the store holds are issued ones, held once each (`Store.TagsIssued`), and a tag that a
write replaced is never held again (`Store.Retired`).
-/

namespace MergePatch

/-! ## Tags -/

/-- The shape of a tag the service mints: a UUID, hexadecimal digits and hyphens, in double
quotes. -/
def IsMintedTag (t : String) : Prop :=
  ∃ u : String, t = "\"" ++ u ++ "\"" ∧ ∀ c ∈ u.toList, c.isDigit ∨ ('a' ≤ c ∧ c ≤ 'f') ∨ c = '-'

/-- Trimming leaves a text alone when neither its first nor its last character is white
space. -/
theorem Text.trim_eq_self {s : String}
    (hh : ∀ c ∈ s.toList.head?, Text.isWhiteSpace c = false)
    (hl : ∀ c ∈ s.toList.getLast?, Text.isWhiteSpace c = false) : Text.trim s = s := by
  have hfront : s.toList.dropWhile Text.isWhiteSpace = s.toList := by
    cases hs : s.toList with
    | nil => rfl
    | cons a m => simp [hh a (by simp [hs])]
  have hback : s.toList.reverse.dropWhile Text.isWhiteSpace = s.toList.reverse := by
    cases hs : s.toList.reverse with
    | nil => rfl
    | cons b m =>
      have hb : s.toList.getLast? = some b := by rw [← List.head?_reverse, hs]; rfl
      simp [hl b (by simp [hb])]
  rw [Text.trim, hfront, hback, List.reverse_reverse, String.ofList_toList]

/-- A condition that names one tag exactly: no comma splits it, trimming leaves it alone, and it
is not the wildcard. -/
def IsExactTag (e : String) : Prop :=
  ',' ∉ e.toList ∧ (∀ c ∈ e.toList.head?, Text.isWhiteSpace c = false) ∧
    (∀ c ∈ e.toList.getLast?, Text.isWhiteSpace c = false) ∧ e ≠ "*"

/-- A condition naming one tag exactly matches that tag and nothing else. -/
theorem etagMatches_exact {e : String} (he : IsExactTag e) (current : String) :
    etagMatches e current = true ↔ current = e := by
  obtain ⟨hcomma, hh, hl, hstar⟩ := he
  have hne : (e == "*") = false := by simpa using hstar
  unfold etagMatches
  simp only [List.splitOn_eq_singleton hcomma, List.any_cons, List.any_nil, Bool.or_false,
    String.ofList_toList, Text.trim_eq_self hh hl]
  rw [hne, Bool.false_or, beq_iff_eq, eq_comm]

/-- A condition of two comma-separated parts matches when either part does. -/
theorem etagMatches_append (h₁ h₂ current : String) :
    etagMatches (h₁ ++ "," ++ h₂) current = (etagMatches h₁ current || etagMatches h₂ current) := by
  have hlist : (h₁ ++ "," ++ h₂).toList = h₁.toList ++ ',' :: h₂.toList := by simp
  simp only [etagMatches, hlist, List.splitOn_append_cons_self, List.any_append]

/-- A minted tag is exact: a UUID has no comma, and the quotes at its ends are not white space. -/
theorem IsMintedTag.exact {t : String} (ht : IsMintedTag t) : IsExactTag t := by
  obtain ⟨u, rfl, hu⟩ := ht
  have hlist : ("\"" ++ u ++ "\"").toList = ('"' :: u.toList) ++ ['"'] := by simp
  have hquote : Text.isWhiteSpace '"' = false := by decide
  have hlast : ("\"" ++ u ++ "\"").toList.getLast? = some '"' := by rw [hlist, List.getLast?_concat]
  refine ⟨?_, by simp [hlist, hquote], ?_, ?_⟩
  · -- the comma would have to be a hexadecimal digit or a hyphen of the UUID
    rw [hlist]
    intro h
    simp only [List.mem_append, List.mem_cons] at h
    rcases h with (h | h) | h
    · exact absurd h (by decide)
    · rcases hu ',' h with h | h | h <;> revert h <;> decide
    · exact absurd h (by decide)
  · intro c hc
    rw [hlast, Option.mem_some_iff] at hc
    exact hc ▸ hquote
  · intro h
    have hlen := congrArg String.length h
    simp only [String.length_append] at hlen
    have hq : "\"".length = 1 := rfl
    have hs : "*".length = 1 := rfl
    omega

/-- A condition naming one minted tag matches exactly that tag. -/
theorem etagMatches_minted {t : String} (ht : IsMintedTag t) (current : String) :
    etagMatches t current = true ↔ t = current :=
  (etagMatches_exact ht.exact current).trans eq_comm

/-- The wildcard matches every tag. -/
@[simp] theorem etagMatches_star (current : String) : etagMatches "*" current = true := rfl

/-- A source of tags of the minted shape: `k` letters `a` in double quotes. -/
def quotedRuns (k : Nat) : String := "\"" ++ String.ofList (List.replicate k 'a') ++ "\""

theorem quotedRuns_injective : Function.Injective quotedRuns := by
  intro j k h
  simpa [quotedRuns] using congrArg String.length h

theorem isMintedTag_quotedRuns (k : Nat) : IsMintedTag (quotedRuns k) :=
  ⟨_, rfl, fun c hc => by simp_all⟩

/-- **Tag conditions** are decided entry by entry: a condition joined from two parts by a comma
matches when either part does; a condition that names one tag exactly matches that tag and no
other; and every tag the service mints names itself exactly. -/
theorem etag_conditions_split_exact :
    (∀ h₁ h₂ current : String,
      etagMatches (h₁ ++ "," ++ h₂) current = (etagMatches h₁ current || etagMatches h₂ current)) ∧
    (∀ e current : String, IsExactTag e → (etagMatches e current = true ↔ current = e)) ∧
    ∀ t : String, IsMintedTag t → IsExactTag t :=
  ⟨etagMatches_append, fun _ current he => etagMatches_exact he current, fun _ ht => ht.exact⟩

theorem etag_conditions_split_exact_uuid :
    IsMintedTag "\"9b2e-04f1\"" ∧ IsExactTag "\"9b2e-04f1\"" ∧
      (etagMatches "\"9b2e-04f1\"" "\"9b2e-04f1\"" = true ↔ "\"9b2e-04f1\"" = "\"9b2e-04f1\"") := by
  have hm : IsMintedTag "\"9b2e-04f1\"" := ⟨"9b2e-04f1", rfl, by simp⟩
  have he := etag_conditions_split_exact.2.2 _ hm
  exact ⟨hm, he, etag_conditions_split_exact.2.1 _ _ he⟩

/-! ## Conditions -/

namespace Store

variable {s s' : Store} {name : String} {cur : Option Stored} {c : RequestConditions} {t : String}

theorem admits_of_not_ifMatch (ht : c.tags.ifMatch = some t)
    (hm : cur.any (fun s => etagMatches t s.etag) = false) :
    admits name cur c = .error (failed name ifMatchHeader) := by
  unfold admits
  simp [ht, hm, Except.throw_bind]
  rfl

theorem admits_of_ifNoneMatch (ht : c.tags.ifNoneMatch = some t)
    (hm : cur.any (fun s => etagMatches t s.etag) = true) : admits name cur c ≠ .ok () := by
  unfold admits
  cases hi : c.tags.ifMatch with
  | none => simp [ht, hm, Except.throw_bind, Except.throw_ne_ok]
  | some e =>
    cases hme : cur.any (fun s => etagMatches e s.etag) <;>
      simp [ht, hm, hme, Except.throw_bind, Except.throw_ne_ok]

/-- Admitted under If-Match: the resource exists and the condition matches its tag. -/
theorem admits_ifMatch (h : admits name cur c = .ok ()) (ht : c.tags.ifMatch = some t) :
    ∃ st, cur = some st ∧ etagMatches t st.etag = true := by
  cases hm : cur.any (fun s => etagMatches t s.etag) with
  | false => rw [admits_of_not_ifMatch ht hm] at h; cases h
  | true =>
    cases cur with
    | none => cases hm
    | some st => exact ⟨st, rfl, hm⟩

/-- Admitted under If-None-Match: the condition does not match the resource's tag. -/
theorem admits_ifNoneMatch {st : Stored} (h : admits name cur c = .ok ())
    (ht : c.tags.ifNoneMatch = some t) (hcur : cur = some st) : etagMatches t st.etag = false := by
  cases hm : etagMatches t st.etag with
  | false => rfl
  | true => exact absurd h (admits_of_ifNoneMatch ht (by simp [hcur, hm]))

/-! ## Calls that go through -/

@[simp] theorem record_mint (doc : Fields) : (s.record name doc).2.mint = s.mint := rfl

@[simp] theorem record_issued (doc : Fields) : (s.record name doc).2.issued = s.issued + 1 := rfl

/-- Recording sets the resource of the name to the document with a fresh tag. -/
theorem get?_record (doc : Fields) (n : String) :
    Keyed.get? (s.record name doc).2.resources n =
      if name = n then some { document := doc, etag := s.mint (s.issued + 1), lastModified := s.clock.truncSecs }
      else Keyed.get? s.resources n :=
  Keyed.get?_insert _ _ _ _

theorem get_eq_ok {st : Stored} : s.get name = .ok st ↔ Keyed.get? s.resources name = some st := by
  unfold get
  cases Keyed.get? s.resources name with
  | none => simp
  | some x => simp

/-- A get that goes through answers the resource and leaves the store as it was. -/
theorem call_get_eq_ok {r : Stored} : s.call (.get name) = .ok (r, s') ↔ s.get name = .ok r ∧ s' = s := by
  simp only [call]
  cases s.get name with
  | error e => simp [Except.map]
  | ok st => simp [Except.map, eq_comm]

/-- **A put that goes through** found an object body and was admitted against the current
resource; it records the body with the service's members under its name. -/
theorem put_eq_ok {body : Json} {r : Stored} :
    s.put name body c = .ok (r, s') ↔ ∃ doc, body = .object doc ∧
      admits name (Keyed.get? s.resources name) c = .ok () ∧
      (r, s') = s.record name (withServerFields doc name) := by
  constructor
  · intro h
    unfold put at h
    split at h
    · rename_i doc
      obtain ⟨u, ha, hr⟩ := Except.bind_ok_inv h
      exact ⟨doc, rfl, ha, (Except.ok.inj hr).symm⟩
    · cases h
  · rintro ⟨doc, rfl, ha, hr⟩
    simp only [put, ha, hr]
    rfl

/-- **A patch that goes through** found an object patch and the resource, and was admitted against
it; it records the stored document with the patch merged in and the service's members set. -/
theorem patch_eq_ok {body : Json} {r : Stored} :
    s.patch name body c = .ok (r, s') ↔ ∃ ps st, body = .object ps ∧
      Keyed.get? s.resources name = some st ∧ admits name (some st) c = .ok () ∧
      (r, s') = s.record name (withServerFields (Json.mergeMembers st.document ps) name) := by
  constructor
  · intro h
    cases body with
    | object ps =>
      simp only [patch, Json.isObject, Bool.not_true, Bool.false_eq_true, ↓reduceIte] at h
      obtain ⟨st, hget, h⟩ := Except.bind_ok_inv h
      obtain ⟨u, ha, hr⟩ := Except.bind_ok_inv h
      exact ⟨ps, st, rfl, get_eq_ok.mp hget, ha, (Except.ok.inj hr).symm⟩
    | null | bool _ | number _ | string _ | array _ => cases h
  · rintro ⟨ps, st, rfl, hget, ha, hr⟩
    have hg : s.get name = .ok st := get_eq_ok.mpr hget
    simp only [patch, Json.isObject, Bool.not_true, Bool.false_eq_true, ↓reduceIte, hg, bind,
      Except.bind, ha, hr]
    rfl

/-- A put that goes through was admitted against the current resource and records a document. -/
theorem put_ok {body : Json} {r : Stored} (h : s.put name body c = .ok (r, s')) :
    admits name (Keyed.get? s.resources name) c = .ok () ∧ ∃ doc, (r, s') = s.record name doc := by
  obtain ⟨doc, -, ha, hr⟩ := put_eq_ok.mp h
  exact ⟨ha, _, hr⟩

/-- A patch that goes through found the resource, was admitted against it and records a
document. -/
theorem patch_ok {body : Json} {r : Stored} (h : s.patch name body c = .ok (r, s')) :
    ∃ st, Keyed.get? s.resources name = some st ∧ admits name (some st) c = .ok () ∧
      ∃ doc, (r, s') = s.record name doc := by
  obtain ⟨ps, st, -, hget, ha, hr⟩ := patch_eq_ok.mp h
  exact ⟨st, hget, ha, _, hr⟩

/-- What a call that goes through does to the store: a get leaves it alone, a write records a
document under the call's name. -/
theorem call_cases {call : StoreCall} {r : Stored} (h : s.call call = .ok (r, s')) :
    (∃ n, call = .get n ∧ s' = s) ∨ ∃ doc, s' = (s.record call.name doc).2 := by
  cases call with
  | put n b c =>
    obtain ⟨_, doc, hr⟩ := put_ok h
    exact .inr ⟨doc, congrArg Prod.snd hr⟩
  | patch n b c =>
    obtain ⟨_, _, _, doc, hr⟩ := patch_ok h
    exact .inr ⟨doc, congrArg Prod.snd hr⟩
  | get n => exact .inl ⟨n, rfl, (call_get_eq_ok.mp h).2⟩

/-- A write that goes through under If-Match naming a minted tag found that tag on its
resource. -/
theorem call_ifMatch {call : StoreCall} {r : Stored} (h : s.call call = .ok (r, s'))
    (ht : call.ifMatch = some t) (hmint : IsMintedTag t) :
    (Keyed.get? s.resources call.name).map Stored.etag = some t := by
  have key : ∀ cur c, admits call.name cur c = .ok () → c.tags.ifMatch = some t →
      cur.map Stored.etag = some t := by
    intro cur c ha hc
    obtain ⟨st, rfl, hm⟩ := admits_ifMatch ha hc
    simp [((etagMatches_minted hmint _).1 hm).symm]
  cases call with
  | put n b c => exact key _ c (put_ok h).1 ht
  | patch n b c =>
    obtain ⟨st, hget, ha, _⟩ := patch_ok h
    rw [StoreCall.name, hget]
    exact key _ c ha ht
  | get n => cases ht

/-- A create-only put that goes through found no resource, and leaves one. -/
theorem call_createsOnly {call : StoreCall} {r : Stored} (h : s.call call = .ok (r, s'))
    (hc : call.createsOnly name = true) :
    Keyed.get? s.resources name = none ∧ (Keyed.get? s'.resources name).isSome := by
  cases call with
  | put n b c =>
    simp only [StoreCall.createsOnly, Bool.and_eq_true, beq_iff_eq] at hc
    obtain ⟨rfl, hstar⟩ := hc
    obtain ⟨ha, doc, hr⟩ := put_ok h
    have hs' : s' = (s.record n doc).2 := congrArg Prod.snd hr
    refine ⟨?_, by simp [hs', get?_record]⟩
    cases hget : Keyed.get? s.resources n with
    | none => rfl
    | some st => simpa using admits_ifNoneMatch ha hstar hget
  | patch n b c => cases hc
  | get n => cases hc

/-! ## What a call keeps -/

/-- The tag a write stamps is none the store had issued before. -/
theorem mint_fresh (hinj : Function.Injective s.mint) {k : Nat} (hk : k ≤ s.issued) :
    s.mint (s.issued + 1) ≠ s.mint k := by
  intro h
  have := hinj h
  omega

theorem call_mint {call : StoreCall} {r : Stored} (h : s.call call = .ok (r, s')) :
    s'.mint = s.mint := by
  rcases call_cases h with ⟨_, _, rfl⟩ | ⟨doc, rfl⟩ <;> rfl

/-- A resource, once there, stays. -/
theorem call_present {call : StoreCall} {r : Stored} (h : s.call call = .ok (r, s'))
    (hn : (Keyed.get? s.resources name).isSome) : (Keyed.get? s'.resources name).isSome := by
  rcases call_cases h with ⟨_, _, rfl⟩ | ⟨doc, rfl⟩
  · exact hn
  · rw [get?_record]
    split <;> simp [hn]

/-! ## Tags along a history -/

/-- The tags a store holds are tags it has issued, and no two resources hold the same one. -/
structure TagsIssued (s : Store) : Prop where
  issued : ∀ n st, Keyed.get? s.resources n = some st → ∃ k, k ≤ s.issued ∧ st.etag = s.mint k
  distinct : ∀ n n' st st', Keyed.get? s.resources n = some st →
    Keyed.get? s.resources n' = some st' → st.etag = st'.etag → n = n'

theorem TagsIssued.tick (h : s.TagsIssued) (clock : Timestamp) : { s with clock }.TagsIssued :=
  ⟨h.issued, h.distinct⟩

/-- Recording keeps the tags issued and apart: the new tag is fresh. -/
theorem TagsIssued.record (h : s.TagsIssued) (hinj : Function.Injective s.mint) (doc : Fields) :
    (s.record name doc).2.TagsIssued := by
  constructor
  · intro n st hn
    rw [get?_record] at hn
    split at hn
    · cases hn
      exact ⟨s.issued + 1, le_refl _, rfl⟩
    · obtain ⟨k, hk, he⟩ := h.issued n st hn
      exact ⟨k, by simp; omega, he⟩
  · intro n n' st st' hn hn' he
    rw [get?_record] at hn hn'
    -- the new tag differs from every tag held elsewhere
    have fresh : ∀ m st, Keyed.get? s.resources m = some st → s.mint (s.issued + 1) ≠ st.etag := by
      intro m st hm
      obtain ⟨k, hk, hek⟩ := h.issued m st hm
      rw [hek]
      exact mint_fresh hinj hk
    split at hn <;> split at hn'
    · subst_vars; rfl
    · cases hn; exact absurd he (fresh n' st' hn')
    · cases hn'; exact absurd he.symm (fresh n st hn)
    · exact h.distinct n n' st st' hn hn' he

theorem TagsIssued.call (h : s.TagsIssued) (hinj : Function.Injective s.mint) {call : StoreCall}
    {r : Stored} (hc : s.call call = .ok (r, s')) : s'.TagsIssued := by
  rcases call_cases hc with ⟨_, _, rfl⟩ | ⟨doc, rfl⟩
  · exact h
  · exact h.record hinj doc

/-- Tags `L` are retired in `s`: issued, each once, and held by no resource. -/
structure Retired (s : Store) (L : List String) : Prop where
  nodup : L.Nodup
  issued : ∀ t ∈ L, ∃ k, k ≤ s.issued ∧ t = s.mint k
  unheld : ∀ t ∈ L, ∀ n st, Keyed.get? s.resources n = some st → st.etag ≠ t

theorem Retired.tick {L : List String} (h : s.Retired L) (clock : Timestamp) :
    { s with clock }.Retired L :=
  ⟨h.nodup, h.issued, h.unheld⟩

/-- One call keeps the retired tags retired, and retires the tag a write's If-Match named. -/
theorem Retired.call {L : List String} (hL : s.Retired L) (hinj : Function.Injective s.mint)
    (hs : s.TagsIssued) {call : StoreCall} {r : Stored} (hc : s.call call = .ok (r, s'))
    (hmint : ∀ t ∈ call.ifMatch, IsMintedTag t) : s'.Retired (call.ifMatch.toList ++ L) := by
  -- the tag the write stamps is none of the issued ones
  have fresh : ∀ t, (∃ k, k ≤ s.issued ∧ t = s.mint k) → s.mint (s.issued + 1) ≠ t := by
    rintro t ⟨k, hk, rfl⟩
    exact mint_fresh hinj hk
  have hissued : ∀ t ∈ call.ifMatch.toList ++ L, ∃ k, k ≤ s.issued ∧ t = s.mint k := by
    intro t ht
    rcases List.mem_append.1 ht with ht | ht
    · obtain ⟨st, hget, he⟩ := Option.map_eq_some_iff.1
        (call_ifMatch hc (Option.mem_toList.1 ht) (hmint t (Option.mem_toList.1 ht)))
      obtain ⟨k, hk, hek⟩ := hs.issued _ st hget
      exact ⟨k, hk, he ▸ hek⟩
    · exact hL.issued t ht
  rcases call_cases hc with ⟨n, rfl, rfl⟩ | ⟨doc, rfl⟩
  · exact hL
  · refine ⟨?nodup, ?issued, ?unheld⟩
    case nodup =>
      cases hm : call.ifMatch with
      | none => exact hL.nodup
      | some t =>
        -- the named tag was held by the resource, so it was not yet retired
        obtain ⟨st, hget, he⟩ := Option.map_eq_some_iff.1 (call_ifMatch hc hm (hmint t hm))
        exact List.nodup_cons.2 ⟨fun hL' => hL.unheld t hL' _ st hget he, hL.nodup⟩
    case issued =>
      intro t ht
      obtain ⟨k, hk, rfl⟩ := hissued t ht
      exact ⟨k, by simp; omega, rfl⟩
    case unheld =>
      intro t ht n st hn
      rw [get?_record] at hn
      split at hn
      · cases hn
        exact fresh t (hissued t ht)
      · rcases List.mem_append.1 ht with ht | ht
        · -- the named tag was the resource's own, so no other resource holds it
          obtain ⟨st', hget, he⟩ := Option.map_eq_some_iff.1
            (call_ifMatch hc (Option.mem_toList.1 ht) (hmint t (Option.mem_toList.1 ht)))
          intro het
          exact ‹¬_› (hs.distinct _ _ _ _ hget hn (he.trans het.symm))
        · exact hL.unheld t ht n st hn

/-! ## Runs -/

/-- Along a run, no two accepted writes name the same minted tag in If-Match, nor one retired
before the run. -/
theorem Retired.accepted {L : List String} (calls : List (Timestamp × StoreCall))
    (hinj : Function.Injective s.mint) (hs : s.TagsIssued) (hL : s.Retired L)
    (hmint : ∀ p ∈ calls, ∀ t ∈ p.2.ifMatch, IsMintedTag t) :
    ((s.accepted calls).filterMap StoreCall.ifMatch ++ L).Nodup := by
  induction calls generalizing s L with
  | nil => simpa [accepted] using hL.nodup
  | cons p calls ih =>
    obtain ⟨clock, call⟩ := p
    have hrest : ∀ p ∈ calls, ∀ t ∈ p.2.ifMatch, IsMintedTag t :=
      fun p hp => hmint p (List.mem_cons_of_mem _ hp)
    simp only [Store.accepted]
    split
    · rename_i r s' hc
      have hinj' : Function.Injective s'.mint := call_mint hc ▸ hinj
      have key := ih hinj' ((hs.tick clock).call hinj hc)
        ((hL.tick clock).call hinj (hs.tick clock) hc (hmint _ List.mem_cons_self)) hrest
      cases hm : call.ifMatch with
      | none => simpa [List.filterMap_cons, hm] using key
      | some t =>
        simp only [hm, Option.toList_some, List.singleton_append] at key
        simpa [List.filterMap_cons, hm] using List.perm_middle.nodup_iff.1 key
    · exact ih hinj hs hL hrest

/-- Over a run from a store holding `name`, no create-only put of it goes through. -/
theorem accepted_createsOnly_of_present (calls : List (Timestamp × StoreCall))
    (hn : (Keyed.get? s.resources name).isSome) :
    (s.accepted calls).filter (StoreCall.createsOnly name) = [] := by
  induction calls generalizing s with
  | nil => rfl
  | cons p calls ih =>
    obtain ⟨clock, call⟩ := p
    simp only [Store.accepted]
    split
    · rename_i r s' hc
      have hno : call.createsOnly name = false := by
        cases hcr : call.createsOnly name with
        | false => rfl
        | true => simp [(call_createsOnly hc hcr).1] at hn
      simp [hno, ih (call_present hc hn)]
    · exact ih hn

/-- Over any run, at most one create-only put of a name goes through. -/
theorem accepted_createsOnly_le (calls : List (Timestamp × StoreCall)) :
    ((s.accepted calls).filter (StoreCall.createsOnly name)).length ≤ 1 := by
  induction calls generalizing s with
  | nil => simp [accepted]
  | cons p calls ih =>
    obtain ⟨clock, call⟩ := p
    simp only [Store.accepted]
    split
    · rename_i r s' hc
      cases hcr : call.createsOnly name with
      | false => simpa [List.filter_cons, hcr] using ih
      | true =>
        -- the put created the resource, so no later one goes through
        simp [hcr, accepted_createsOnly_of_present calls (call_createsOnly hc hcr).2]
    · exact ih

/-! ## Reachable stores -/

theorem seeded_cons {seeds : List (String × Json)} {n : String} {doc : Json}
    (h : s.seeded ((n, doc) :: seeds) = .ok s') :
    ∃ r s₁, s.call (.put n doc {}) = .ok (r, s₁) ∧ s₁.seeded seeds = .ok s' := by
  obtain ⟨⟨r, s₁⟩, hput, hrest⟩ := Except.bind_ok_inv h
  exact ⟨r, s₁, hput, hrest⟩

/-- Seeding keeps the source of tags, keeps the tags issued and apart, and leaves every seed's
name and every name already there present. -/
theorem seeded_inv {seeds : List (String × Json)} (h : s.seeded seeds = .ok s')
    (hinj : Function.Injective s.mint) (hs : s.TagsIssued) :
    s'.mint = s.mint ∧ s'.TagsIssued ∧
      ∀ n, (n ∈ seeds.map Prod.fst ∨ (Keyed.get? s.resources n).isSome) →
        (Keyed.get? s'.resources n).isSome := by
  induction seeds generalizing s with
  | nil =>
    cases h
    exact ⟨rfl, hs, fun n hn => by simpa using hn⟩
  | cons seed seeds ih =>
    obtain ⟨n₀, doc⟩ := seed
    obtain ⟨r, s₁, hc, hrest⟩ := seeded_cons h
    have hmint := call_mint hc
    obtain ⟨hm', hs', hn'⟩ := ih hrest (hmint ▸ hinj) (hs.call hinj hc)
    refine ⟨hm'.trans hmint, hs', fun n hn => hn' n ?_⟩
    rcases hn with hn | hn
    · rcases List.mem_cons.1 hn with hn | hn
      · -- the seed's own put created it
        right
        rcases call_cases hc with ⟨_, h, _⟩ | ⟨d, rfl⟩
        · cases h
        · subst hn
          simp [get?_record, StoreCall.name]
      · exact .inl hn
    · exact .inr (call_present hc hn)

/-- Along every history, the store draws on the service's source of tags, its tags are issued
and apart, and every seed's name is present. -/
theorem Reachable.inv {mint : Nat → String} {seeds : List (String × Json)}
    (hinj : Function.Injective mint) (h : Reachable mint seeds s) :
    s.mint = mint ∧ s.TagsIssued ∧ ∀ n ∈ seeds.map Prod.fst, (Keyed.get? s.resources n).isSome := by
  induction h with
  | seeded hs =>
    obtain ⟨hm, hi, hn⟩ := seeded_inv hs hinj ⟨by simp [empty], by simp [empty]⟩
    exact ⟨hm, hi, fun n h => hn n (.inl h)⟩
  | call _ hc ih =>
    obtain ⟨hm, hi, hn⟩ := ih
    exact ⟨(call_mint hc).trans hm, hi.call (hm ▸ hinj) hc, fun n h => call_present hc (hn n h)⟩
  | tick clock _ ih =>
    obtain ⟨hm, hi, hn⟩ := ih
    exact ⟨hm, hi.tick clock, hn⟩

/-- **Optimistic concurrency.** Take a store the service reaches, its tags drawn from a source
that never repeats itself.

* A write that goes through under If-Match naming a minted tag found exactly that tag on its
  resource.
* Over any run of calls, every If-Match naming a minted tag, no two accepted writes name the same
  tag: an update is never lost to another made on the strength of the same read.
* Over any run, at most one create-only put of a name goes through, and none of a seeded name. -/
theorem optimistic_concurrency {mint : Nat → String} {seeds : List (String × Json)}
    (hinj : Function.Injective mint) (hs : Reachable mint seeds s) :
    (∀ call r s' t, s.call call = .ok (r, s') → call.ifMatch = some t → IsMintedTag t →
      (Keyed.get? s.resources call.name).map Stored.etag = some t) ∧
    (∀ calls : List (Timestamp × StoreCall), (∀ p ∈ calls, ∀ t ∈ p.2.ifMatch, IsMintedTag t) →
      ((s.accepted calls).filterMap StoreCall.ifMatch).Nodup) ∧
    (∀ name (calls : List (Timestamp × StoreCall)),
      ((s.accepted calls).filter (StoreCall.createsOnly name)).length ≤ 1 ∧
      (name ∈ seeds.map Prod.fst → (s.accepted calls).filter (StoreCall.createsOnly name) = [])) := by
  obtain ⟨hm, hi, hn⟩ := hs.inv hinj
  refine ⟨fun call r s' t hc ht hmint => call_ifMatch hc ht hmint, fun calls hmint => ?_,
    fun name calls => ⟨accepted_createsOnly_le calls, fun h => ?_⟩⟩
  · have retired : s.Retired [] := ⟨List.nodup_nil, by simp, by simp⟩
    simpa using Retired.accepted calls (hm ▸ hinj) hi retired hmint
  · exact accepted_createsOnly_of_present calls (hn name h)

/-- A store seeded with one resource, then written under If-Match with the seed's tag: that tag
is now stale, and a second write naming it is refused. -/
theorem optimistic_concurrency_stale_tag :
    let s : Store :=
      { resources := [("r", { document := [("id", .string "/etag-headers/resources/r"),
                                             ("name", .string "r")],
                               etag := quotedRuns 2, lastModified := ⟨5, 0⟩ })],
        issued := 2, mint := quotedRuns, clock := ⟨5, 0⟩ }
    Function.Injective quotedRuns ∧ Reachable quotedRuns [("r", .object [])] s ∧
    IsMintedTag (quotedRuns 1) ∧
    s.call (.put "r" (.object []) { tags := { ifMatch := some (quotedRuns 1) } }) =
      .error (failed "r" "If-Match") ∧
    (∀ call r s' t, s.call call = .ok (r, s') → call.ifMatch = some t → IsMintedTag t →
      (Keyed.get? s.resources call.name).map Stored.etag = some t) ∧
    (∀ calls : List (Timestamp × StoreCall), (∀ p ∈ calls, ∀ t ∈ p.2.ifMatch, IsMintedTag t) →
      ((s.accepted calls).filterMap StoreCall.ifMatch).Nodup) ∧
    (∀ name (calls : List (Timestamp × StoreCall)),
      ((s.accepted calls).filter (StoreCall.createsOnly name)).length ≤ 1 ∧
      (name ∈ [("r", Json.object [])].map Prod.fst →
        (s.accepted calls).filter (StoreCall.createsOnly name) = [])) := by
  intro s
  -- seeded at time 0, then a put at time 5 naming the seed's tag
  have hs : Reachable quotedRuns [("r", .object [])] s :=
    @Reachable.call _ _ _ _ (.put "r" (.object []) { tags := { ifMatch := some (quotedRuns 1) } }) _
      (.tick ⟨5, 0⟩ (@Reachable.seeded _ _ ⟨0, 0⟩ _ rfl)) rfl
  exact ⟨quotedRuns_injective, hs, isMintedTag_quotedRuns 1, rfl,
    optimistic_concurrency quotedRuns_injective hs⟩

end Store

end MergePatch
