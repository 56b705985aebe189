import Mathlib
import MergePatch.Proofs.Concurrency
/-!
# What a write stores

The service owns two members of every document it keeps: `id`, the collection path followed by
the resource's name, and `name`, the name itself. Both are set after everything else the client
sent, so no body and no merge patch can leave other values there.

`Store.put_eq_ok` and `Store.patch_eq_ok` say once what a write that goes through does: a put
records its object body, a patch the stored document with the patch merged in, each with the
service's members set, once the conditions admit it. Every fact about writes here reads off these
two, through `call_records`. Along every history of the store each document carries the
members the service owns under its own name (`Reachable.serverOwned`), and each write stores what
it answers with a tag that no resource held and the clock cut to the whole second
(`call_stamped`).
-/

namespace MergePatch

theorem Timestamp.fraction_truncSecs (t : Timestamp) : t.truncSecs.fraction = 0 :=
  Nat.sub_mod_eq_zero_of_mod_eq (Nat.mod_mod _ _).symm

namespace Store

variable {s s' : Store} {name : String} {c : RequestConditions} {r : Stored}

/-- The members the service owns, as they stand in a document kept under `name`. -/
def OwnedBy (name : String) (doc : Fields) : Prop :=
  Keyed.get? doc "id" = some (.string (collectionPath ++ "/" ++ name)) ∧
    Keyed.get? doc "name" = some (.string name)

/-- The service's members read what the service set; every other member reads as before. -/
theorem get?_withServerFields (doc : Fields) (name k : String) :
    Keyed.get? (withServerFields doc name) k =
      if k = "name" then some (.string name)
      else if k = "id" then some (.string (collectionPath ++ "/" ++ name))
      else Keyed.get? doc k := by
  unfold withServerFields
  rw [Keyed.get?_insert, Keyed.get?_insert]
  by_cases hn : k = "name"
  · simp [hn]
  · by_cases hi : k = "id"
    · simp [hi]
    · simp [hn, hi, Ne.symm hn, Ne.symm hi]

theorem ownedBy_withServerFields (doc : Fields) (name : String) :
    OwnedBy name (withServerFields doc name) := by
  constructor <;> simp [get?_withServerFields]

/-- What a call that goes through does: a get leaves the store as it was, and a write records,
under the call's name, a document with the service's members set. -/
theorem call_records {call : StoreCall} (h : s.call call = .ok (r, s')) :
    (∃ n, call = .get n ∧ s' = s) ∨
      ∃ doc, (r, s') = s.record call.name (withServerFields doc call.name) := by
  cases call with
  | put n b c =>
    obtain ⟨doc, -, -, hr⟩ := put_eq_ok.mp h
    exact .inr ⟨doc, hr⟩
  | patch n b c =>
    obtain ⟨ps, st, -, -, -, hr⟩ := patch_eq_ok.mp h
    exact .inr ⟨_, hr⟩
  | get n => exact .inl ⟨n, rfl, (call_get_eq_ok.mp h).2⟩

/-! ## The service's members along a history -/

/-- Every document carries the members the service owns, under the name it is kept by. -/
def ServerOwned (s : Store) : Prop :=
  ∀ k st, Keyed.get? s.resources k = some st → OwnedBy k st.document

theorem ServerOwned.record (h : s.ServerOwned) {doc : Fields} (hdoc : OwnedBy name doc) :
    (s.record name doc).2.ServerOwned := by
  intro k st hk
  rw [get?_record] at hk
  split at hk
  · rename_i hnk
    cases hk
    exact hnk ▸ hdoc
  · exact h k st hk

theorem ServerOwned.call (h : s.ServerOwned) {call : StoreCall} (hc : s.call call = .ok (r, s')) :
    s'.ServerOwned := by
  rcases call_records hc with ⟨_, _, rfl⟩ | ⟨doc, hr⟩
  · exact h
  · have hs' : s' = (s.record call.name (withServerFields doc call.name)).2 := congrArg Prod.snd hr
    rw [hs']
    exact h.record (ownedBy_withServerFields doc call.name)

theorem ServerOwned.seeded (h : s.ServerOwned) {seeds : List (String × Json)}
    (hs : s.seeded seeds = .ok s') : s'.ServerOwned := by
  induction seeds generalizing s with
  | nil =>
    cases hs
    exact h
  | cons seed seeds ih =>
    obtain ⟨_, s₁, hc, hrest⟩ := seeded_cons hs
    exact ih (h.call hc) hrest

/-- Along every history, from any seed, every document carries the members the service owns. -/
theorem Reachable.serverOwned {mint : Nat → String} {seeds : List (String × Json)}
    (h : Reachable mint seeds s) : s.ServerOwned := by
  induction h with
  | seeded hs => exact ServerOwned.seeded (fun k st hk => by simp [empty] at hk) hs
  | call _ hc ih => exact ih.call hc
  | tick clock _ ih => exact ih

/-! ## Stamps -/

/-- A write that goes through stores the resource it answers under its name, with a tag no
resource held before and the clock's time cut to the whole second. -/
theorem call_stamped (hinj : Function.Injective s.mint) (hs : s.TagsIssued) {call : StoreCall}
    (h : s.call call = .ok (r, s')) (hw : ∀ n, call ≠ .get n) :
    Keyed.get? s'.resources call.name = some r ∧
      (∀ n st, Keyed.get? s.resources n = some st → r.etag ≠ st.etag) ∧
      r.lastModified.secs = s.clock.secs ∧ r.lastModified.fraction = 0 := by
  rcases call_records h with ⟨n, rfl, -⟩ | ⟨doc, hr⟩
  · exact absurd rfl (hw n)
  · obtain ⟨rfl, rfl⟩ := Prod.mk.inj hr
    refine ⟨Keyed.get?_insert_self _ _ _, fun n st hn => ?_, rfl, Timestamp.fraction_truncSecs _⟩
    -- every tag held was issued before, and the new one is minted after all of them
    obtain ⟨k, hk, he⟩ := hs.issued n st hn
    rw [he]
    exact mint_fresh hinj hk

/-- **The service owns `id` and `name`.** In every store the service reaches, from any seed and
through any calls, each document carries `id`, the collection path and the name it is kept by, and
`name`, that name, whatever the bodies and patches said. Each write that goes through stores the
resource it answers under its name, with a tag that no resource held, the source of tags never
repeating itself, and the clock's time cut to the whole second. -/
theorem server_owned_stamped {mint : Nat → String} {seeds : List (String × Json)}
    (hinj : Function.Injective mint) (hs : Reachable mint seeds s) :
    (∀ k st, Keyed.get? s.resources k = some st →
      Keyed.get? st.document "id" = some (.string (collectionPath ++ "/" ++ k)) ∧
        Keyed.get? st.document "name" = some (.string k)) ∧
    (∀ call r s', s.call call = .ok (r, s') → (∀ n, call ≠ .get n) →
      Keyed.get? s'.resources call.name = some r ∧
        (∀ n st, Keyed.get? s.resources n = some st → r.etag ≠ st.etag) ∧
        r.lastModified.secs = s.clock.secs ∧ r.lastModified.fraction = 0) := by
  obtain ⟨hm, hi, -⟩ := hs.inv hinj
  exact ⟨hs.serverOwned, fun call r s' hc hw => call_stamped (hm ▸ hinj) hi hc hw⟩

/-- A store seeded with a document that gives another id and name, then written with yet another
id and name: the stored document keeps the service's id and name. -/
theorem server_owned_stamped_rewritten :
    let s : Store :=
      { resources := [("r", { document := [("id", .string "/etag-headers/resources/r"),
                                             ("name", .string "r"), ("v", .bool true)],
                               etag := quotedRuns 2, lastModified := ⟨7, 0⟩ })],
        issued := 2, mint := quotedRuns, clock := ⟨7, 0⟩ }
    Function.Injective quotedRuns ∧
    Reachable quotedRuns [("r", .object [("id", .string "x"), ("name", .string "y")])] s ∧
    (∀ k st, Keyed.get? s.resources k = some st →
      Keyed.get? st.document "id" = some (.string (collectionPath ++ "/" ++ k)) ∧
        Keyed.get? st.document "name" = some (.string k)) ∧
    (∀ call r s', s.call call = .ok (r, s') → (∀ n, call ≠ .get n) →
      Keyed.get? s'.resources call.name = some r ∧
        (∀ n st, Keyed.get? s.resources n = some st → r.etag ≠ st.etag) ∧
        r.lastModified.secs = s.clock.secs ∧ r.lastModified.fraction = 0) := by
  intro s
  -- seeded at time 0, then written at time 7
  have hs : Reachable quotedRuns [("r", .object [("id", .string "x"), ("name", .string "y")])] s :=
    @Reachable.call _ _ _ _ (.put "r" (.object [("id", .string "q"), ("name", .string "z"),
        ("v", .bool true)]) {}) _ (.tick ⟨7, 0⟩ (@Reachable.seeded _ _ ⟨0, 0⟩ _ rfl)) rfl
  exact ⟨quotedRuns_injective, hs, server_owned_stamped quotedRuns_injective hs⟩

end Store

end MergePatch
