import Mathlib
import MergePatch.Service.Handler
import MergePatch.Proofs.StoreWrites
import MergePatch.Proofs.TextValues
/-!
# What a request does to the store

`Service.handle` answers one request and gives the store after it. Every request either leaves the
store exactly as it was, or is a `PUT` or `PATCH` of one resource whose conditions and body were
read, and whose store write went through; only then is it answered with success
(`dispatch_cases`). All refusals, from the route, the method, the name, the content type, the
headers, the body, the store's checks of the body and of the conditions, come before the one
write, so a request answered with an error changes nothing (`handle_atomic`).

The conditions of a write are read from the first line of each conditional header, and only when
that line is text (`Service.header?`). A write answered with success met every condition read so
(`write_conditions_met`). A line that is not text, or a second line, is not read at all.
-/

namespace MergePatch

/-- Whether a reply is a success: a status from 200 to 299. -/
def Reply.isSuccess (r : Reply) : Bool := 200 ≤ r.status && r.status < 300

namespace Service

variable {s s' : Store} {req : Incoming} {reply : Reply}

/-- The name of the resource a request target addresses: the segment after the collection path,
percent-decoded, when it is UTF-8 text. -/
def resourceName? (uri : String) : Option String :=
  match route? (pathOf uri) with
  | some (.resource seg) => String.fromUTF8? (Text.percentDecode seg)
  | _ => none

/-! ## Replies -/

@[simp] theorem jsonReply_status (status : Nat) (j : Json) (extra : List (String × String)) :
    (jsonReply status j extra).status = status := rfl

@[simp] theorem storedReply_isSuccess (st : Stored) : (storedReply st).isSuccess = true := rfl

@[simp] theorem bare_isSuccess_405 (extra : List (String × String)) :
    (bare 405 extra).isSuccess = false := rfl

theorem storeErrorReply_isSuccess (e : StoreError) : (storeErrorReply e).isSuccess = false := by
  cases e <;> rfl

/-- The answer to a store step: a failed one leaves the store and is no success. -/
theorem answer_cases (s : Store) (x : Except StoreError (Stored × Store)) :
    ((answer s x).2 = s ∧ (answer s x).1.isSuccess = false) ∨
      ∃ st s', x = .ok (st, s') ∧ answer s x = (storedReply st, s') := by
  rcases x with e | ⟨st, s'⟩
  · exact .inl ⟨rfl, storeErrorReply_isSuccess e⟩
  · exact .inr ⟨st, s', rfl, rfl⟩

/-- A write of a request: the conditions, then the body, then the store step `op`. Either it
fails and leaves the store, or each of the three went through and the stored resource is
answered. -/
theorem write_cases (s : Store) (req : Incoming)
    (op : Json → RequestConditions → Except StoreError (Stored × Store)) :
    let out := answer s (do let c ← conditions req; let doc ← bodyJson req; op doc c)
    (out.2 = s ∧ out.1.isSuccess = false) ∨
      ∃ c body st s', conditions req = .ok c ∧ bodyJson req = .ok body ∧ op body c = .ok (st, s') ∧
        out = (storedReply st, s') := by
  intro out
  rcases answer_cases s (do let c ← conditions req; let doc ← bodyJson req; op doc c) with
    h | ⟨st, s', hx, hout⟩
  · exact .inl h
  · obtain ⟨c, hc, hx⟩ := Except.bind_ok_inv hx
    obtain ⟨body, hb, hx⟩ := Except.bind_ok_inv hx
    exact .inr ⟨c, body, st, s', hc, hb, hx, hout⟩

/-! ## One route -/

/-- **What a route does.** It leaves the store as it was, and then it does not answer a `PUT` or a
`PATCH` with success; or the route is a resource whose name is text, the method is `PUT` or
`PATCH`, the conditions and the body were read, and the store's write went through. -/
theorem dispatch_cases (s : Store) (req : Incoming) (r : Route) :
    ((dispatch s req r).2 = s ∧
      ((dispatch s req r).1.isSuccess = true → req.method ≠ "PUT" ∧ req.method ≠ "PATCH")) ∨
    ∃ seg name c body st s', r = .resource seg ∧ String.fromUTF8? (Text.percentDecode seg) = some name ∧
      conditions req = .ok c ∧ bodyJson req = .ok body ∧ dispatch s req r = (storedReply st, s') ∧
      ((req.method = "PUT" ∧ s.put name body c = .ok (st, s')) ∨
        (req.method = "PATCH" ∧ s.patch name body c = .ok (st, s'))) := by
  -- a read answers from the store as it is; only `GET` and `HEAD` read
  have read : ∀ reply : Reply, (req.method = "GET" ∨ req.method = "HEAD") →
      reply.isSuccess = true → req.method ≠ "PUT" ∧ req.method ≠ "PATCH" := by
    rintro reply (h | h) - <;> rw [h] <;> decide
  cases r with
  | health =>
    dsimp only [dispatch]
    split_ifs with hget
    · exact .inl ⟨rfl, read _ hget⟩
    · exact .inl ⟨rfl, by simp⟩
  | collection =>
    dsimp only [dispatch]
    split_ifs with hget
    · exact .inl ⟨rfl, read _ hget⟩
    · exact .inl ⟨rfl, by simp⟩
  | resource seg =>
    dsimp only [dispatch]
    split
    · exact .inl ⟨rfl, by simp⟩
    split
    · exact .inl ⟨rfl, by simp [Reply.isSuccess]⟩
    rename_i name hname
    split
    · exact .inl ⟨rfl, read _ ‹_›⟩
    split
    · -- a put: the conditions, the body, then the store
      rename_i hput
      rcases write_cases s req (s.put name) with h | ⟨c, body, st, s', hc, hb, hw, hout⟩
      · exact .inl ⟨h.1, by simp [putOne, h.2]⟩
      · exact .inr ⟨seg, name, c, body, st, s', rfl, hname, hc, hb, hout, .inl ⟨hput, hw⟩⟩
    · -- a patch: the content type first, then as a put
      have hpatch : req.method = "PATCH" := by simp_all
      dsimp only [patchOne]
      split
      · exact .inl ⟨rfl, by simp [Reply.isSuccess]⟩
      rcases write_cases s req (s.patch name) with h | ⟨c, body, st, s', hc, hb, hw, hout⟩
      · exact .inl ⟨h.1, by simp [h.2]⟩
      · exact .inr ⟨seg, name, c, body, st, s', rfl, hname, hc, hb, hout, .inr ⟨hpatch, hw⟩⟩

/-! ## A whole request -/

/-- The store after a request: the route's, or the store as it was for a path without a route. -/
theorem handle_snd (s : Store) (req : Incoming) :
    (handle s req).2 = match route? (pathOf req.uri) with
      | some r => (dispatch s req r).2
      | none => s := by
  dsimp only [handle]
  cases route? (pathOf req.uri) with
  | none => rfl
  | some r => dsimp only

/-- A request is answered with success only by a route that answered so. -/
theorem handle_isSuccess (s : Store) (req : Incoming) :
    (handle s req).1.isSuccess = match route? (pathOf req.uri) with
      | some r => (dispatch s req r).1.isSuccess
      | none => false := by
  dsimp only [handle]
  cases route? (pathOf req.uri) with
  | none => split_ifs <;> rfl
  | some r =>
    dsimp only
    cases dispatch s req r
    split_ifs <;> rfl

/-- **What a request does.** It leaves the store as it was, and then it is no `PUT` or `PATCH`
answered with success; or it addresses a resource by name, it is a `PUT` or a `PATCH` whose
conditions and body were read, the store's write went through, and the request is answered with
success. -/
theorem handle_cases (s : Store) (req : Incoming) :
    ((handle s req).2 = s ∧
      ((handle s req).1.isSuccess = true → req.method ≠ "PUT" ∧ req.method ≠ "PATCH")) ∨
    ∃ name c body st s', resourceName? req.uri = some name ∧ conditions req = .ok c ∧
      bodyJson req = .ok body ∧ (handle s req).2 = s' ∧ (handle s req).1.isSuccess = true ∧
      ((req.method = "PUT" ∧ s.put name body c = .ok (st, s')) ∨
        (req.method = "PATCH" ∧ s.patch name body c = .ok (st, s'))) := by
  rw [handle_snd, handle_isSuccess]
  unfold resourceName?
  split
  · rename_i r hr
    rcases dispatch_cases s req r with h | ⟨seg, name, c, body, st, s', rfl, hname, hc, hb, hd, hw⟩
    · exact .inl h
    · refine .inr ⟨name, c, body, st, s', by rw [hr]; exact hname, hc, hb, by rw [hd], by rw [hd]; rfl, hw⟩
  · exact .inl ⟨rfl, by simp⟩

/-- A `PUT` of a named resource whose conditions and body are read and whose store write goes
through is answered with success, and leaves the store as the write made it. -/
theorem handle_put_ok {name : String} {c : RequestConditions} {body : Json} {st : Stored}
    (hname : resourceName? req.uri = some name) (hm : req.method = "PUT")
    (hc : conditions req = .ok c) (hb : bodyJson req = .ok body) (hw : s.put name body c = .ok (st, s')) :
    (handle s req).1.isSuccess = true ∧ (handle s req).2 = s' := by
  unfold resourceName? at hname
  split at hname
  · rename_i seg hr
    have hd : dispatch s req (.resource seg) = (storedReply st, s') := by
      dsimp only [dispatch]
      rw [if_neg (by simp [hm]), hname]
      dsimp only
      rw [if_neg (by simp [hm]), if_pos hm]
      simp only [putOne, hc, hb, hw, bind, Except.bind]
      rfl
    rw [handle_isSuccess, handle_snd, hr]
    dsimp only
    rw [hd]
    exact ⟨rfl, rfl⟩
  · cases hname

/-- The compact text of an object with no members reads back as that object. -/
theorem bodyJson_empty_object (h : req.body = (Json.object []).compact.toUTF8) :
    bodyJson req = .ok (.object []) := by
  have hp := Json.parse_compact (j := .object []) (.object (by simp)) (by decide)
  simp only [bodyJson, h, hp]
  rfl

/-- **Atomic requests.** A request answered with anything but success, and every `GET`, leaves
every resource of the store as it was, document, tag and time. A `PUT` answered with success
changes only the resource it names, to its JSON object body with the service's `id` and `name`;
a `PATCH` answered with success changes only the resource it names, which existed, to its document
with the body merged in as a merge patch, and the service's `id` and `name` set again. -/
theorem handle_atomic (h : handle s req = (reply, s')) :
    (reply.isSuccess = false ∨ req.method = "GET" → s' = s) ∧
    (reply.isSuccess = true → req.method = "PUT" →
      ∃ name doc, resourceName? req.uri = some name ∧ bodyJson req = .ok (.object doc) ∧
        (Keyed.get? s'.resources name).map Stored.document = some (Store.withServerFields doc name) ∧
        ∀ n, n ≠ name → Keyed.get? s'.resources n = Keyed.get? s.resources n) ∧
    (reply.isSuccess = true → req.method = "PATCH" →
      ∃ name patch prev merged, resourceName? req.uri = some name ∧ bodyJson req = .ok patch ∧
        Keyed.get? s.resources name = some prev ∧
        Json.mergePatch (.object prev.document) patch = .object merged ∧
        (Keyed.get? s'.resources name).map Stored.document = some (Store.withServerFields merged name) ∧
        ∀ n, n ≠ name → Keyed.get? s'.resources n = Keyed.get? s.resources n) := by
  have hs' : (handle s req).2 = s' := by rw [h]
  have hr : (handle s req).1 = reply := by rw [h]
  -- a write keeps every other name and reads the new document under its own
  have written : ∀ name doc, (s.record name doc).2 = s' →
      (Keyed.get? s'.resources name).map Stored.document = some doc ∧
        ∀ n, n ≠ name → Keyed.get? s'.resources n = Keyed.get? s.resources n := by
    rintro name doc rfl
    refine ⟨by simp [Store.get?_record], fun n hn => ?_⟩
    rw [Store.get?_record, if_neg (Ne.symm hn)]
  rcases handle_cases s req with ⟨hkeep, hput⟩ | ⟨name, c, body, st, s₁, hname, -, hb, hsnd, hok, hw⟩
  · refine ⟨fun _ => hs' ▸ hkeep, fun hok hm => ?_, fun hok hm => ?_⟩
    · exact absurd hm (hput (hr ▸ hok)).1
    · exact absurd hm (hput (hr ▸ hok)).2
  · rw [hs'] at hsnd
    subst hsnd
    refine ⟨?unchanged, ?put, ?patch⟩
    case unchanged =>
      rintro (hfail | hget)
      · rw [← hr, hok] at hfail
        cases hfail
      · rcases hw with ⟨hm, -⟩ | ⟨hm, -⟩ <;> rw [hget] at hm <;> exact absurd hm (by decide)
    case put =>
      intro _ hm
      rcases hw with ⟨-, hw⟩ | ⟨hm', -⟩
      · obtain ⟨doc, rfl, -, hrec⟩ := Store.put_eq_ok.mp hw
        exact ⟨name, doc, hname, hb, written name _ (congrArg Prod.snd hrec).symm⟩
      · rw [hm] at hm'
        exact absurd hm' (by decide)
    case patch =>
      intro _ hm
      rcases hw with ⟨hm', -⟩ | ⟨-, hw⟩
      · rw [hm] at hm'
        exact absurd hm' (by decide)
      · obtain ⟨ps, prev, rfl, hget, -, hrec⟩ := Store.patch_eq_ok.mp hw
        exact ⟨name, .object ps, prev, _, hname, hb, hget, rfl,
          written name _ (congrArg Prod.snd hrec).symm⟩

/-- The store may only be created by this `PUT`: `If-None-Match: *` against an empty store. -/
theorem handle_atomic_create :
    let s := Store.empty (fun _ => "\"t\"") ⟨0, 0⟩
    let req : Incoming :=
      { method := "PUT", uri := "/etag-headers/resources/r1", headers := [("if-none-match", "*")],
        body := (Json.object []).compact.toUTF8 }
    handle s req = ((handle s req).1, (handle s req).2) ∧
    ((handle s req).1.isSuccess = false ∨ req.method = "GET" → (handle s req).2 = s) ∧
    ((handle s req).1.isSuccess = true → req.method = "PUT" →
      ∃ name doc, resourceName? req.uri = some name ∧ bodyJson req = .ok (.object doc) ∧
        (Keyed.get? (handle s req).2.resources name).map Stored.document =
          some (Store.withServerFields doc name) ∧
        ∀ n, n ≠ name → Keyed.get? (handle s req).2.resources n = Keyed.get? s.resources n) ∧
    ((handle s req).1.isSuccess = true → req.method = "PATCH" →
      ∃ name patch prev merged, resourceName? req.uri = some name ∧ bodyJson req = .ok patch ∧
        Keyed.get? s.resources name = some prev ∧
        Json.mergePatch (.object prev.document) patch = .object merged ∧
        (Keyed.get? (handle s req).2.resources name).map Stored.document =
          some (Store.withServerFields merged name) ∧
        ∀ n, n ≠ name → Keyed.get? (handle s req).2.resources n = Keyed.get? s.resources n) := by
  intro s req
  exact ⟨rfl, handle_atomic rfl⟩

/-! ## Conditions read from the headers -/

/-- Every line of a header, in order. -/
def headerLines (req : Incoming) (name : String) : List String :=
  (req.headers.filter fun (n, _) => sameHeaderName n name).map (·.2)

/-- All lines of a header joined by commas into one list of values; none without a line. -/
def joinedHeader? (req : Incoming) (name : String) : Option String :=
  match headerLines req name with
  | [] => none
  | lines => some (String.intercalate ", " lines)

/-- A header that comes on at most one line, and that line is text. -/
def SingleText (req : Incoming) (name : String) : Prop :=
  (headerLines req name).length ≤ 1 ∧ ∀ v ∈ headerLines req name, isVisibleText v = true

/-- A header on one line of text reads as that line: as the first line read as text, and as all
lines joined. -/
theorem header?_eq_joined {name : String} (h : SingleText req name) :
    header? req name = joinedHeader? req name := by
  obtain ⟨hlen, htext⟩ := h
  unfold header? joinedHeader? headerLines at *
  rw [← List.head?_filter]
  cases hf : req.headers.filter (fun (n, _) => sameHeaderName n name) with
  | nil => rfl
  | cons p rest =>
    rw [hf] at hlen htext
    cases rest with
    | cons q rest => simp at hlen
    | nil =>
      have hp : isVisibleText p.2 = true := htext p.2 (by simp)
      simp only [hp, List.head?_cons, List.map_cons, List.map_nil, ↓reduceIte]
      rfl

/-- The conditions read from a request's headers: the tags as the headers' first lines of text,
and each date as the HTTP date of its header's first line of text, which must be one. -/
theorem conditions_eq_ok {c : RequestConditions} (h : conditions req = .ok c) :
    c.tags = ⟨header? req ifMatchHeader, header? req ifNoneMatchHeader⟩ ∧
      (∀ v, header? req ifUnmodifiedSinceHeader = some v →
        ∃ t, Timestamp.ofHttpDate? v = some t ∧ c.ifUnmodifiedSince = some t) ∧
      (∀ v, header? req ifModifiedSinceHeader = some v →
        ∃ t, Timestamp.ofHttpDate? v = some t ∧ c.ifModifiedSince = some t) := by
  -- a date header that is present is read, or the conditions are refused
  have date : ∀ name o, dateHeader req name = .ok o → ∀ v, header? req name = some v →
      ∃ t, Timestamp.ofHttpDate? v = some t ∧ o = some t := by
    intro name o hd v hv
    unfold dateHeader at hd
    rw [hv] at hd
    cases ht : Timestamp.ofHttpDate? v with
    | none => simp [ht] at hd
    | some t =>
      simp only [ht, Except.ok.injEq] at hd
      exact ⟨t, rfl, hd.symm⟩
  unfold conditions at h
  obtain ⟨u, hu, h⟩ := Except.bind_ok_inv h
  obtain ⟨m, hm, h⟩ := Except.bind_ok_inv h
  cases h
  exact ⟨rfl, date _ _ hu, date _ _ hm⟩

end Service

namespace Store

/-- **The checks of the conditions.** The conditions admit a write against the current resource,
if any, exactly when If-Match lists the resource's tag, If-None-Match does not, the resource was
not changed after an If-Unmodified-Since date, and it was changed after an If-Modified-Since date;
a date condition holds where no resource exists. -/
theorem admits_eq_ok {name : String} {cur : Option Stored} {c : RequestConditions} :
    admits name cur c = .ok () ↔
      (∀ t, c.tags.ifMatch = some t → cur.any (fun st => etagMatches t st.etag) = true) ∧
      (∀ t, c.tags.ifNoneMatch = some t → cur.any (fun st => etagMatches t st.etag) = false) ∧
      (∀ since, c.ifUnmodifiedSince = some since →
        cur.any (fun st => st.lastModified.isAfter since) = false) ∧
      (∀ since, c.ifModifiedSince = some since →
        cur.any (fun st => !st.lastModified.isAfter since) = false) := by
  -- each present condition is one guard; the guards are tried in turn
  obtain ⟨⟨im, inm⟩, ims, ius⟩ := c
  cases im <;> cases inm <;> cases ims <;> cases ius
  case none.none.none.none => simp [admits, pure, Except.pure]
  all_goals
    simp only [admits]
    split_ifs <;> simp_all [Except.throw_bind, Except.throw_ne_ok, pure, Except.pure]

end Store

namespace Service

variable {s : Store} {req : Incoming}

/-- The conditions that header values name, met by the resource kept under `name`: an If-Match
value lists the tag of a resource that exists; an If-None-Match value lists the tag of no resource
that exists; each date value is an HTTP date, whose condition holds of a resource that exists. -/
structure Met (s : Store) (name : String) (im inm ius ims : Option String) : Prop where
  ifMatch : ∀ t, im = some t →
    ∃ st, Keyed.get? s.resources name = some st ∧ etagMatches t st.etag = true
  ifNoneMatch : ∀ t st, inm = some t → Keyed.get? s.resources name = some st →
    etagMatches t st.etag = false
  ifUnmodifiedSince : ∀ v, ius = some v → ∃ since, Timestamp.ofHttpDate? v = some since ∧
    ∀ st, Keyed.get? s.resources name = some st → st.lastModified.isAfter since = false
  ifModifiedSince : ∀ v, ims = some v → ∃ since, Timestamp.ofHttpDate? v = some since ∧
    ∀ st, Keyed.get? s.resources name = some st → st.lastModified.isAfter since = true

/-- Conditions read from the headers and admitted against the resource under `name` are met. -/
theorem met_of_admits {name : String} {c : RequestConditions} (hc : conditions req = .ok c)
    (ha : Store.admits name (Keyed.get? s.resources name) c = .ok ()) :
    Met s name (header? req ifMatchHeader) (header? req ifNoneMatchHeader)
      (header? req ifUnmodifiedSinceHeader) (header? req ifModifiedSinceHeader) := by
  obtain ⟨htags, hius, hims⟩ := conditions_eq_ok hc
  obtain ⟨am, anm, aus, ams⟩ := Store.admits_eq_ok.mp ha
  constructor
  · intro t ht
    have hany := am t (by rw [htags]; exact ht)
    cases hget : Keyed.get? s.resources name with
    | none => simp [hget] at hany
    | some st => exact ⟨st, rfl, by simpa [hget] using hany⟩
  · intro t st ht hget
    simpa [hget] using anm t (by rw [htags]; exact ht)
  · intro v hv
    obtain ⟨since, hs, hc⟩ := hius v hv
    refine ⟨since, hs, fun st hget => ?_⟩
    simpa [hget] using aus since hc
  · intro v hv
    obtain ⟨since, hs, hc⟩ := hims v hv
    refine ⟨since, hs, fun st hget => ?_⟩
    simpa [hget] using ams since hc

/-- **Conditional writes.** A `PUT` or `PATCH` answered with success met the conditions of its
headers, each read from the first line of its header when that line is text. -/
theorem write_conditions_met (hok : (handle s req).1.isSuccess = true)
    (hm : req.method = "PUT" ∨ req.method = "PATCH") :
    ∃ name, resourceName? req.uri = some name ∧
      Met s name (header? req ifMatchHeader) (header? req ifNoneMatchHeader)
        (header? req ifUnmodifiedSinceHeader) (header? req ifModifiedSinceHeader) := by
  rcases handle_cases s req with ⟨-, hput⟩ | ⟨name, c, body, st, s', hname, hc, -, -, -, hw⟩
  · rcases hm with hm | hm
    · exact absurd hm (hput hok).1
    · exact absurd hm (hput hok).2
  · refine ⟨name, hname, ?_⟩
    rcases hw with ⟨-, hw⟩ | ⟨-, hw⟩
    · exact met_of_admits hc (Store.put_eq_ok.mp hw).choose_spec.2.1
    · obtain ⟨ps, cur, -, hget, ha, -⟩ := Store.patch_eq_ok.mp hw
      exact met_of_admits hc (hget ▸ ha)

/-- **Conditional headers that come on one line of text.** When each conditional header of a
`PUT` or `PATCH` comes on at most one line, and that line is text, a success answer means: the
resource existed and the If-Match list named its tag, the If-None-Match list named no tag of an
existing resource, and each date header was an HTTP date whose condition held. -/
theorem conditional_write_held (hok : (handle s req).1.isSuccess = true)
    (hm : req.method = "PUT" ∨ req.method = "PATCH")
    (hread : ∀ n ∈ [ifMatchHeader, ifNoneMatchHeader, ifUnmodifiedSinceHeader, ifModifiedSinceHeader],
      SingleText req n) :
    ∃ name, resourceName? req.uri = some name ∧
      Met s name (joinedHeader? req ifMatchHeader) (joinedHeader? req ifNoneMatchHeader)
        (joinedHeader? req ifUnmodifiedSinceHeader) (joinedHeader? req ifModifiedSinceHeader) := by
  rw [← header?_eq_joined (hread _ (by simp)), ← header?_eq_joined (hread _ (by simp)),
    ← header?_eq_joined (hread _ (by simp)), ← header?_eq_joined (hread _ (by simp))]
  exact write_conditions_met hok hm

/-- A create-only `PUT` against an empty store: its one conditional header is one line of text. -/
theorem conditional_write_held_create :
    let s := Store.empty (fun _ => "\"t\"") ⟨0, 0⟩
    let req : Incoming :=
      { method := "PUT", uri := "/etag-headers/resources/r1", headers := [("if-none-match", "*")],
        body := (Json.object []).compact.toUTF8 }
    (handle s req).1.isSuccess = true ∧ (req.method = "PUT" ∨ req.method = "PATCH") ∧
    (∀ n ∈ [ifMatchHeader, ifNoneMatchHeader, ifUnmodifiedSinceHeader, ifModifiedSinceHeader],
      SingleText req n) ∧
    ∃ name, resourceName? req.uri = some name ∧
      Met s name (joinedHeader? req ifMatchHeader) (joinedHeader? req ifNoneMatchHeader)
        (joinedHeader? req ifUnmodifiedSinceHeader) (joinedHeader? req ifModifiedSinceHeader) := by
  intro s req
  have hc : conditions req = .ok { tags := ⟨none, some "*"⟩ } := by
    have h1 : header? req ifUnmodifiedSinceHeader = none := by decide +kernel
    have h2 : header? req ifModifiedSinceHeader = none := by decide +kernel
    have h3 : header? req ifMatchHeader = none := by decide +kernel
    have h4 : header? req ifNoneMatchHeader = some "*" := by decide +kernel
    simp only [conditions, dateHeader, h1, h2, h3, h4]
    rfl
  have hname : resourceName? req.uri = some "r1" := by decide +kernel
  have hok : (handle s req).1.isSuccess = true :=
    (handle_put_ok hname rfl hc (bodyJson_empty_object rfl) (Store.put_eq_ok.mpr ⟨[], rfl, rfl, rfl⟩)).1
  have hread : ∀ n ∈ [ifMatchHeader, ifNoneMatchHeader, ifUnmodifiedSinceHeader, ifModifiedSinceHeader],
      SingleText req n := by
    intro n hn
    simp only [List.mem_cons, List.not_mem_nil, or_false] at hn
    rcases hn with rfl | rfl | rfl | rfl <;> exact ⟨by decide +kernel, by decide +kernel⟩
  exact ⟨hok, .inl rfl, hread, conditional_write_held hok (.inl rfl) hread⟩

/-- An If-Match line that is not text is not read: a `PUT` that may only replace `r1` creates it in
an empty store, and is answered with success. -/
theorem unreadable_if_match_ignored :
    let s := Store.empty (fun _ => "\"t\"") ⟨0, 0⟩
    let req : Incoming :=
      { method := "PUT", uri := "/etag-headers/resources/r1", headers := [("if-match", "\"é\"")],
        body := (Json.object []).compact.toUTF8 }
    (handle s req).1.isSuccess = true ∧ joinedHeader? req ifMatchHeader = some "\"é\"" ∧
      ¬ ∃ name, resourceName? req.uri = some name ∧
        Met s name (joinedHeader? req ifMatchHeader) (joinedHeader? req ifNoneMatchHeader)
          (joinedHeader? req ifUnmodifiedSinceHeader) (joinedHeader? req ifModifiedSinceHeader) := by
  intro s req
  have hc : conditions req = .ok {} := by
    have h1 : header? req ifUnmodifiedSinceHeader = none := by decide +kernel
    have h2 : header? req ifModifiedSinceHeader = none := by decide +kernel
    have h3 : header? req ifMatchHeader = none := by decide +kernel
    have h4 : header? req ifNoneMatchHeader = none := by decide +kernel
    simp only [conditions, dateHeader, h1, h2, h3, h4]
    rfl
  have hjoined : joinedHeader? req ifMatchHeader = some "\"é\"" := by decide +kernel
  have hname : resourceName? req.uri = some "r1" := by decide +kernel
  refine ⟨(handle_put_ok hname rfl hc (bodyJson_empty_object rfl)
    (Store.put_eq_ok.mpr ⟨[], rfl, rfl, rfl⟩)).1, hjoined, ?_⟩
  -- the If-Match list names a tag, yet no resource existed to hold it
  rintro ⟨name, -, hmet⟩
  obtain ⟨st, hget, -⟩ := hmet.ifMatch _ hjoined
  cases hget

end Service

end MergePatch
