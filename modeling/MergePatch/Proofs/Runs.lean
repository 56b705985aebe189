import Mathlib
import MergePatch.Proofs.FormsAgree
/-!
# What a run of calls keeps

Two facts about runs of calls made in place, each proved once for one call and lifted to a run.

Writing never changes a model. Each form is written in a scope that sets the model's flag and
then puts back the flag it found, with every nested model written in a scope of its own inside
it; the write leaves the model as it was, its own merge-patch flag and that of every nested
model included (`AnyModel.writeIn_state`), so a write can be left out of any run
(`runCalls_drop`).

Every nested model writes itself in full, in every state calls reach (`runCalls_nestedFull`).
Only a change of writing mode sets a flag, and it sets the flag of the model itself. A nested
model built by an assignment is built in full mode: an inner model from its members, a fish from
its kind and then its members, a partner of a partner likewise, a model read by a typed setter
with nothing assigned. An assignment through a nested model keeps that model's mode. Fish are
built by well-founded recursion on the value assigned, so the lemma for them is by induction on
its size, with the chain of partners as the inner induction.

An assignment made in place commits at each level only once the level below has gone through,
so one that fails leaves the model as it was at every depth (`AnyModel.setIn_run`); any call
that fails can be left out of a run.
-/

namespace MergePatch

/-! ## Inner models keep full mode -/

namespace InnerModel

theorem Sets.mode {v : Json} {m m' : InnerModel} {field : String} (h : Sets v m field m') :
    m'.tracker.mergePatch = m.tracker.mergePatch :=
  (congrArg Tracker.mergePatch h.tracker).trans rfl

theorem set_mode {m m' : InnerModel} {field : String} {v : Json} (h : m.set field v = .ok m') :
    m'.tracker.mergePatch = m.tracker.mergePatch :=
  (set_ok h).mode

theorem setAll_mode : ∀ {m m' : InnerModel} {fs : List (String × Json)},
    m.setAll fs = .ok m' → m'.tracker.mergePatch = m.tracker.mergePatch
  | _, _, [], h => by cases h; rfl
  | _, _, (_, _) :: _, h => by
    obtain ⟨m₁, h₁, h₂⟩ := Except.bind_ok_inv h
    rw [setAll_mode h₂, set_mode h₁]

/-- An inner model built from an assigned value writes itself in full. -/
theorem ofTracked_modes {field : String} {v : Json} {e : Option InnerModel}
    (h : ofTracked field v = .ok e) : ∀ m ∈ e, m.tracker.mergePatch = false := by
  intro m hm
  unfold ofTracked at h
  split at h
  · cases h
    cases hm
  · obtain ⟨m', hm', rfl⟩ := Except.map_ok_inv h
    cases hm
    exact (setAll_mode hm').trans rfl
  · cases h

end InnerModel

/-! ## Fish keep full mode along the chain of partners -/

namespace Fish

/-- The fish writes itself in full, and so does every partner along its chain. -/
def Full (f : Fish) : Prop := f.tracker.mergePatch = false ∧ f.NestedFull

theorem nestedFull_withCore (f : Fish) (c : FishCore) : (f.withCore c).NestedFull ↔ f.NestedFull := by
  cases f with
  | salmon _ p => cases p <;> exact Iff.rfl
  | shark _ _ | other _ _ => exact Iff.rfl

theorem nestedFull_salmon {c : FishCore} {p : Option Fish} (h : ∀ q ∈ p, q.Full) :
    (salmon c p).NestedFull := by
  cases p with
  | none => trivial
  | some q => exact h q rfl

theorem Fresh.full : {f : Fish} → f.Fresh → f.Full
  | .shark _ _, h | .other _ _, h | .salmon _ none, h =>
    ⟨Tracker.Fresh.mergePatch (Fresh.tracker h), trivial⟩
  | .salmon _ (some _), h => ⟨Tracker.Fresh.mergePatch (Fresh.tracker h), Fresh.full (Fresh.partner h)⟩

theorem ofKind_full (k : String) : (ofKind k).Full := (Fresh.full (by
  unfold ofKind
  split_ifs
  · exact rfl
  · exact ⟨rfl, trivial⟩
  · exact rfl))

theorem SetsCommon.nestedFull {v : Json} {f f' : Fish} {field : String} (h : SetsCommon v f field f')
    (hf : f.NestedFull) : f'.NestedFull := by
  cases h with
  | name f j _ | age f j _ | color f j _ => exact (nestedFull_withCore f _).mpr hf
  | weight c w j _ => trivial

theorem Sets.mode {v : Json} {f f' : Fish} {field : String} (h : Sets v f field f') :
    f'.tracker.mergePatch = f.tracker.mergePatch :=
  (congrArg Tracker.mergePatch h.tracker).trans rfl

section SetsFull

variable {v : Json} (hv : ∀ np, ofTracked "partner" v = .ok np → ∀ q ∈ np, q.Full)
include hv

/-- An assignment of a fish keeps every partner in full mode, given that a partner built from
the value is in full mode. -/
theorem Sets.nestedFull {f f' : Fish} {field : String} (h : Sets v f field f') :
    f.NestedFull → f'.NestedFull := by
  induction h with
  | common hc => exact hc.nestedFull
  | partner c p np hnp => exact fun _ => nestedFull_salmon (hv np hnp)
  | throughPartner c q q' field rest _ _ hs ih =>
    -- the partner keeps its own mode, and its partners by induction on the chain
    intro hq
    exact ⟨hs.mode.trans hq.1, ih hq.2⟩

theorem Sets.full {f f' : Fish} {field : String} (h : Sets v f field f') (hf : f.Full) : f'.Full :=
  ⟨h.mode.trans hf.1, h.nestedFull hv hf.2⟩

end SetsFull

/-- Building a fish member by member keeps it in full mode, given that every partner built from
values of size at most `n` is. -/
theorem setAll_full {n : Nat}
    (ih : ∀ w : Json, w.size ≤ n → ∀ np, ofTracked "partner" w = .ok np → ∀ q ∈ np, q.Full) :
    ∀ (fs : List (String × Json)) (f f' : Fish), Json.size.sizeFields fs ≤ n → f.Full →
      setAll f fs = .ok f' → f'.Full
  | [], f, f', _, hf, h => by
    rw [setAll] at h
    cases h
    exact hf
  | (k, x) :: rest, f, f', hn, hf, h => by
    simp only [Json.size.sizeFields] at hn
    rw [setAll] at h
    split_ifs at h
    · exact setAll_full ih rest f f' (by omega) hf h
    · obtain ⟨f₁, h₁, h₂⟩ := Except.bind_ok_inv h
      exact setAll_full ih rest f₁ f' (by omega) ((setMember_ok h₁).full (ih x (by omega)) hf) h₂

/-- A fish built from a value of size at most `n` is in full mode along its chain: by induction
on `n`, since each member of the value is smaller than the value. -/
theorem ofTracked_full_of_size : ∀ (n : Nat) (field : String) (v : Json), v.size ≤ n →
    ∀ np, ofTracked field v = .ok np → ∀ q ∈ np, q.Full
  | 0, _, v, hn, _, _ => absurd hn (Nat.not_le.mpr (size_pos v))
  | n + 1, field, v, hn, np, h => by
    unfold ofTracked at h
    split at h
    · cases h
      intro q hq
      cases hq
    · rename_i fs
      split at h
      · rename_i k _
        obtain ⟨f, hf, rfl⟩ := Except.map_ok_inv h
        have hfs : Json.size.sizeFields fs ≤ n := by
          simp only [Json.size] at hn
          omega
        rintro _ ⟨⟩
        exact setAll_full (fun w hw => ofTracked_full_of_size n "partner" w hw) fs (ofKind k) _ hfs
          (ofKind_full k) hf
      · cases h
    · cases h

theorem ofTracked_full {field : String} {v : Json} {np : Option Fish} (h : ofTracked field v = .ok np) :
    ∀ q ∈ np, q.Full :=
  ofTracked_full_of_size v.size field v le_rfl np h

end Fish

/-! ## Resources keep their nested models in full mode -/

namespace Resource

theorem Fresh.nestedFull {r : Resource} (h : r.Fresh) : r.NestedFull where
  map es hes p hp m hm := Tracker.Fresh.mergePatch (h.map es hes p hp m hm)
  innerModelProperty m hm := Tracker.Fresh.mergePatch (h.inner m hm)
  array xs hxs m hm := Tracker.Fresh.mergePatch (h.array xs hxs m hm)
  fish f hf := Fish.Fresh.full (h.fish f hf)

theorem mapOfChecked_modes (j : Json) :
    ∀ es ∈ mapOfChecked j, ∀ p ∈ es, ∀ m ∈ p.2, m.tracker.mergePatch = false := by
  intro es hes p hp m hm
  cases j <;> simp only [mapOfChecked, Option.mem_def, reduceCtorEq, Option.some.injEq] at hes
  subst hes
  obtain ⟨⟨k, y⟩, -, rfl⟩ := List.mem_map.mp hp
  cases y <;> simp only [Option.mem_def, Option.some.injEq, reduceCtorEq] at hm
  subst hm
  rfl

theorem arrayOfChecked_modes (j : Json) :
    ∀ xs ∈ arrayOfChecked j, ∀ m ∈ xs, m.tracker.mergePatch = false := by
  intro xs hxs m hm
  cases j <;> simp only [arrayOfChecked, Option.mem_def, reduceCtorEq, Option.some.injEq] at hxs
  subst hxs
  obtain ⟨y, -, rfl⟩ := List.mem_map.mp hm
  rfl

theorem entriesOfTracked_modes {field : String} : ∀ {es : List (String × Json)}
    {ms : Keyed (Option InnerModel)}, entriesOfTracked field es = .ok ms →
    ∀ p ∈ ms, ∀ m ∈ p.2, m.tracker.mergePatch = false
  | [], _, h => by
    cases h
    intro p hp
    cases hp
  | (_, _) :: _, _, h => by
    obtain ⟨e, he, h'⟩ := Except.bind_ok_inv h
    obtain ⟨ms, hms, h''⟩ := Except.bind_ok_inv h'
    cases h''
    intro p hp
    rcases List.mem_cons.mp hp with rfl | hp
    · exact InnerModel.ofTracked_modes he
    · exact entriesOfTracked_modes hms p hp

namespace NestedFull

variable {r : Resource} (hr : r.NestedFull)
include hr

theorem entry {p : String × Option InnerModel} (hp : p ∈ r.map.getD []) :
    ∀ m ∈ p.2, m.tracker.mergePatch = false := by
  cases hmap : r.map with
  | none =>
    rw [hmap] at hp
    cases hp
  | some es =>
    rw [hmap] at hp
    exact hr.map es hmap p hp

/-- The model an assignment through a map entry starts from is in full mode. -/
theorem entry_getD (key : String) :
    (((Keyed.get? (r.map.getD []) key).join).getD {}).tracker.mergePatch = false := by
  cases hk : Keyed.get? (r.map.getD []) key with
  | none => rfl
  | some e =>
    cases e with
    | none => rfl
    | some m => exact hr.entry (Keyed.get?_eq_some_mem hk) m rfl

theorem inner_getD : (r.innerModelProperty.getD {}).tracker.mergePatch = false := by
  cases hi : r.innerModelProperty with
  | none => rfl
  | some m => exact hr.innerModelProperty m hi

theorem map_insert {k : String} {e : Option InnerModel} (he : ∀ m ∈ e, m.tracker.mergePatch = false) :
    ∀ es ∈ some (Keyed.insert (r.map.getD []) k e), ∀ p ∈ es, ∀ m ∈ p.2,
      m.tracker.mergePatch = false := by
  rintro es ⟨⟩ p hp
  rcases Keyed.mem_insert hp with rfl | hp
  · exact he
  · exact hr.entry hp

end NestedFull

/-- An assignment of a resource keeps every nested model in full mode. -/
theorem Sets.nestedFull {v : Json} {r r' : Resource} {field : String} (h : Sets v r field r')
    (hr : r.NestedFull) : r'.NestedFull := by
  cases h with
  | description _ _ | longValue _ _ | intValue _ _ | enumValue _ _ =>
    exact ⟨hr.map, hr.innerModelProperty, hr.array, hr.fish⟩
  | mapObject es ms _ hms =>
    refine ⟨?_, hr.innerModelProperty, hr.array, hr.fish⟩
    rintro es' ⟨⟩
    exact entriesOfTracked_modes hms
  | mapValue j _ _ => exact ⟨mapOfChecked_modes j, hr.innerModelProperty, hr.array, hr.fish⟩
  | innerModel m hm => exact ⟨hr.map, InnerModel.ofTracked_modes hm, hr.array, hr.fish⟩
  | array j _ => exact ⟨hr.map, hr.innerModelProperty, arrayOfChecked_modes j, hr.fish⟩
  | fish f hf => exact ⟨hr.map, hr.innerModelProperty, hr.array, Fish.ofTracked_full hf⟩
  | innerMember field rest m _ hset =>
    refine ⟨hr.map, ?_, hr.array, hr.fish⟩
    rintro m' ⟨⟩
    exact (InnerModel.set_mode hset).trans hr.inner_getD
  | fishMember field rest f f' _ hf hset =>
    refine ⟨hr.map, hr.innerModelProperty, hr.array, ?_⟩
    rintro g ⟨⟩
    exact (Fish.set_ok hset).2.full (fun _ hq => Fish.ofTracked_full hq) (hr.fish f hf)
  | mapEntry field rest e _ _ he =>
    exact ⟨hr.map_insert (InnerModel.ofTracked_modes he), hr.innerModelProperty, hr.array, hr.fish⟩
  | mapMember field rest key member e _ _ hset =>
    refine ⟨hr.map_insert ?_, hr.innerModelProperty, hr.array, hr.fish⟩
    rintro m ⟨⟩
    exact (InnerModel.set_mode hset).trans (hr.entry_getD key)

end Resource

/-! ## Every call keeps nested models in full mode -/

namespace ModelCall

/-- Whether the call writes the model: its full form, its merge patch, the form of its current
mode, or the text of either form. -/
def isWrite : ModelCall → Bool
  | .toJson | .toMergePatch | .serialize | .toBody _ => true
  | _ => false

end ModelCall

namespace AnyModel

theorem Fresh.nestedFull {m : AnyModel} (h : m.Fresh) : m.NestedFull := by
  cases m with
  | resource r => exact Resource.Fresh.nestedFull h
  | inner n => trivial
  | fish f => exact (Fish.Fresh.full h).2
  | variant f => exact (Fish.Fresh.full h).2

theorem set_nestedFull {m m' : AnyModel} {p : String} {v : Json} (h : m.set p v = .ok m')
    (hm : m.NestedFull) : m'.NestedFull := by
  cases m with
  | resource r =>
    obtain ⟨r', hr, rfl⟩ := Except.map_ok_inv h
    exact (Resource.set_ok hr).nestedFull hm
  | inner n =>
    obtain ⟨n', -, rfl⟩ := Except.map_ok_inv h
    trivial
  | fish f =>
    obtain ⟨f', hf, rfl⟩ := Except.map_ok_inv h
    exact (Fish.set_ok hf).2.nestedFull (fun _ hq => Fish.ofTracked_full hq) hm
  | variant f =>
    obtain ⟨f', hf, rfl⟩ := Except.map_ok_inv h
    exact (Fish.setMember_ok hf).nestedFull (fun _ hq => Fish.ofTracked_full hq) hm

/-- A typed setter builds what it assigns with nothing assigned, so in full mode. -/
theorem setter_nestedFull {m : AnyModel} {field : String} {s : Schema Shape}
    {assign : Json → AnyModel} (h : m.setter field = some (s, assign)) (hm : m.NestedFull)
    (j : Json) : (assign j).NestedFull := by
  cases m with
  | resource r =>
    have hr : r.NestedFull := hm
    simp only [setter] at h
    split_ifs at h <;> cases h <;> simp only [NestedFull]
    · exact ⟨hr.map, hr.innerModelProperty, hr.array, hr.fish⟩
    · exact ⟨Resource.mapOfChecked_modes j, hr.innerModelProperty, hr.array, hr.fish⟩
    · exact ⟨hr.map, hr.innerModelProperty, hr.array, hr.fish⟩
    · exact ⟨hr.map, hr.innerModelProperty, hr.array, hr.fish⟩
    · exact ⟨hr.map, hr.innerModelProperty, hr.array, hr.fish⟩
    · refine ⟨hr.map, ?_, hr.array, hr.fish⟩
      intro n hn
      split at hn
      · cases hn
        rfl
      · cases hn
    · exact ⟨hr.map, hr.innerModelProperty, Resource.arrayOfChecked_modes j, hr.fish⟩
    · refine ⟨hr.map, hr.innerModelProperty, hr.array, ?_⟩
      intro f hf
      split at hf
      · cases hf
        exact Fish.Fresh.full (Fish.ofChecked_fresh j)
      · cases hf
  | inner n =>
    simp only [setter] at h
    split_ifs at h <;> cases h <;> trivial
  | fish f => cases h
  | variant f =>
    have hf : f.NestedFull := hm
    cases f with
    | shark c w =>
      simp only [setter] at h
      split_ifs at h <;> cases h <;> trivial
    | other k c =>
      simp only [setter] at h
      split_ifs at h <;> cases h <;> trivial
    | salmon c p =>
      simp only [setter] at h
      split_ifs at h <;> cases h <;> simp only [NestedFull]
      · exact (Fish.nestedFull_withCore _ _).mpr hf
      · exact (Fish.nestedFull_withCore _ _).mpr hf
      · exact (Fish.nestedFull_withCore _ _).mpr hf
      · -- a partner read by the setter has nothing assigned
        refine Fish.nestedFull_salmon fun q hq => ?_
        split at hq
        · cases hq
          exact Fish.Fresh.full (Fish.ofChecked_fresh j)
        · cases hq

theorem withValue_nestedFull {m m' : AnyModel} {field : String} {v : Json}
    (h : m.withValue field v = some (.ok m')) (hm : m.NestedFull) : m'.NestedFull := by
  simp only [withValue, Option.map_eq_some_iff] at h
  obtain ⟨⟨s, assign⟩, hs, hm'⟩ := h
  obtain ⟨j, -, rfl⟩ := Except.map_ok_inv hm'
  exact setter_nestedFull hs hm j

theorem setMergePatch_nestedFull {m : AnyModel} (hm : m.NestedFull) (b : Bool) :
    (m.setMergePatch b).NestedFull := by
  cases m with
  | resource r =>
    have hr : r.NestedFull := hm
    exact Resource.NestedFull.mk hr.map hr.innerModelProperty hr.array hr.fish
  | inner n => trivial
  | fish f => exact (Fish.nestedFull_withCore f _).mpr hm
  | variant f => exact (Fish.nestedFull_withCore f _).mpr hm

/-- **One call.** A call that goes through keeps every nested model in full mode. -/
theorem perform_nestedFull {kind : ModelKind} {m m' : AnyModel} {c : ModelCall}
    (h : m.perform kind c = some m') (hm : m.NestedFull) : m'.NestedFull := by
  cases c with
  | set p v => exact set_nestedFull (Except.ok_of_toOption h) hm
  | assign e =>
    obtain ⟨a, -, hset⟩ := Except.bind_ok_inv (Except.ok_of_toOption h)
    exact set_nestedFull hset hm
  | withField field v =>
    obtain ⟨x, hx, hm'⟩ := Option.bind_eq_some_iff.mp h
    rw [Except.ok_of_toOption hm'] at hx
    exact withValue_nestedFull hx hm
  | get p | equals _ =>
    obtain ⟨_, -, rfl⟩ := Option.map_eq_some_iff.mp h
    exact hm
  | enableMergePatch b =>
    cases h
    exact setMergePatch_nestedFull hm b
  | toJson | toMergePatch | serialize | toBody _ =>
    cases h
    exact hm

/-- **A run of calls.** Every nested model stays in full mode. -/
theorem runCalls_nestedFull (kind : ModelKind) (cs : List ModelCall) {m : AnyModel}
    (hm : m.NestedFull) : (m.runCalls kind cs).NestedFull := by
  induction cs generalizing m with
  | nil => exact hm
  | cons c cs ih =>
    cases hc : m.perform kind c with
    | none =>
      simp only [runCalls_cons, hc, Option.getD_none]
      exact ih hm
    | some m' =>
      simp only [runCalls_cons, hc, Option.getD_some]
      exact ih (perform_nestedFull hc hm)

/-- A write made in place leaves the model as it found it. -/
theorem after_write (m : AnyModel) {c : ModelCall} (hc : c.isWrite = true) : m.after c = m := by
  cases c with
  | toJson | toMergePatch | serialize | toBody _ =>
    simp [after, toJsonIn, toMergePatchIn, serializeIn, toBodyIn, Functor.map, StateT.map]
  | set _ _ | assign _ | withField _ _ | get _ | enableMergePatch _ | equals _ => cases hc

/-- A call that leaves the model where the run has brought it can be left out of the run. -/
theorem runCalls_drop {kind : ModelKind} {m : AnyModel} {cs ds : List ModelCall} {c : ModelCall}
    (h : (m.runCalls kind cs).after c = m.runCalls kind cs) :
    m.runCalls kind (cs ++ c :: ds) = m.runCalls kind (cs ++ ds) := by
  rw [runCalls_append, runCalls_append, runCalls, h]

end AnyModel

/-- **Writing keeps every mode.** Writing a model in place, in any scope, leaves it as it was:
the scopes put back the flag of the model and of every nested model. So a write can be left out
of any run of calls from any model. And from every model a client starts from, every nested
model writes itself in full after any run of calls: only the model's own mode ever changes. -/
theorem writing_keeps_modes {kind : ModelKind} {m₀ : AnyModel} (h₀ : AnyModel.Start kind m₀) :
    (∀ (scope : Option Bool) (m : AnyModel), (AnyModel.writeIn scope m).2 = m) ∧
    (∀ (m : AnyModel) (cs ds : List ModelCall) (c : ModelCall), c.isWrite = true →
      m.runCalls kind (cs ++ c :: ds) = m.runCalls kind (cs ++ ds)) ∧
    ∀ cs, (m₀.runCalls kind cs).NestedFull :=
  ⟨AnyModel.writeIn_state,
    fun _ _ _ _ hc => AnyModel.runCalls_drop (AnyModel.after_write _ hc),
    fun cs => AnyModel.runCalls_nestedFull kind cs h₀.fresh.nestedFull⟩

/-- A new resource, written in full as a merge patch. -/
theorem writing_keeps_modes_new :
    AnyModel.Start .resource (.resource {}) ∧
    (∀ (scope : Option Bool) (m : AnyModel), (AnyModel.writeIn scope m).2 = m) ∧
    (∀ (m : AnyModel) (cs ds : List ModelCall) (c : ModelCall), c.isWrite = true →
      m.runCalls .resource (cs ++ c :: ds) = m.runCalls .resource (cs ++ ds)) ∧
    ∀ cs, ((AnyModel.resource {}).runCalls .resource cs).NestedFull :=
  ⟨.new rfl, writing_keeps_modes (.new rfl)⟩

/-- **A failed call changes nothing.** An assignment made in place, by path or as a parsed
`path=value`, ends in the model the assignment gives when it succeeds and in the model as it was,
at every depth (fields, assigned fields, modes), when it fails. So a call that fails, wherever
it stands in a run, can be left out of it. -/
theorem failed_assignment_keeps_model (kind : ModelKind) (m : AnyModel) :
    (∀ p v, (AnyModel.setIn p v).run m = atomically (m.set p v) m) ∧
    (∀ a : Assignment, a.applyIn.run m = atomically (a.applyTo m) m) ∧
    ∀ cs ds c, (m.runCalls kind cs).perform kind c = none →
      m.runCalls kind (cs ++ c :: ds) = m.runCalls kind (cs ++ ds) := by
  refine ⟨fun p v => AnyModel.setIn_run p v m, fun a => AnyModel.setIn_run a.path a.value m, ?_⟩
  intro cs ds c hc
  apply AnyModel.runCalls_drop
  rw [AnyModel.after_eq kind, hc, Option.getD_none]

/-- After a change of mode, an assignment through the inner model of a new resource to a field
it does not have fails inside the copy of the inner model, and the run is as if it had not been
made. -/
theorem failed_assignment_keeps_model_nested :
    ((AnyModel.resource {}).runCalls .resource [.enableMergePatch true]).perform .resource
        (.set "innerModelProperty.nickname" (.string "x")) = none ∧
    (AnyModel.resource {}).runCalls .resource
        ([.enableMergePatch true] ++ .set "innerModelProperty.nickname" (.string "x") :: [.toMergePatch]) =
      (AnyModel.resource {}).runCalls .resource ([.enableMergePatch true] ++ [.toMergePatch]) :=
  ⟨rfl, (failed_assignment_keeps_model .resource (.resource {})).2.2 _ _ _ rfl⟩

end MergePatch
