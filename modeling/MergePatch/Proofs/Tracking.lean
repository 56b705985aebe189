import Mathlib
import MergePatch.Proofs.InPlace
/-!
# Mutation tracking

A model's tracker lists the top-level fields assigned since it was built. This module proves that
the list is exact for every run of calls:

* a model read from text is `Fresh`: every tracker at every depth records nothing and writes in
  full (`fromText_fresh`);
* a successful assignment marks exactly the head of its path, before the first dot
  (`Resource.Sets.tracker`, `Fish.Sets.tracker`, `setter_tracker`), whatever it did below;
* a call that assigns nothing leaves the assigned fields alone (`perform_mutated`).

`runCalls_mutated` lifts the step to a run, and `mutated_fields_exact` is the statement for every
model a client can start from.
-/

namespace MergePatch

/-! ## Fresh models -/

/-- Nothing assigned and full mode. -/
def Tracker.Fresh (t : Tracker) : Prop := t = {}

def InnerModel.Fresh (m : InnerModel) : Prop := m.tracker.Fresh

/-- A fish whose tracker and whose partners' trackers are all fresh. -/
def Fish.Fresh : Fish → Prop
  | .shark c _ => c.tracker.Fresh
  | .salmon c p => c.tracker.Fresh ∧ match p with
    | some q => q.Fresh
    | none => True
  | .other _ c => c.tracker.Fresh

/-- A resource whose trackers are fresh at every depth: its own, the map's models, the inner
model, the array's models and the fish. -/
structure Resource.Fresh (r : Resource) : Prop where
  tracker : r.tracker.Fresh
  map : ∀ es, r.map = some es → ∀ e ∈ es, ∀ m, e.2 = some m → m.Fresh
  inner : ∀ m, r.innerModelProperty = some m → m.Fresh
  array : ∀ xs, r.array = some xs → ∀ m ∈ xs, m.Fresh
  fish : ∀ f, r.fish = some f → f.Fresh

def AnyModel.Fresh : AnyModel → Prop
  | .resource r => r.Fresh
  | .inner m => m.Fresh
  | .fish f => f.Fresh
  | .variant f => f.Fresh

theorem Fish.Fresh.tracker {f : Fish} (h : f.Fresh) : f.tracker.Fresh := by
  cases f with
  | shark c w => exact h
  | salmon c p =>
    cases p with
    | none => exact (Fish.Fresh.eq_3 c ▸ h).1
    | some q => exact (Fish.Fresh.eq_2 c q ▸ h).1
  | other k c => exact h

theorem AnyModel.Fresh.tracker {m : AnyModel} (h : m.Fresh) : m.tracker.Fresh := by
  cases m with
  | resource r => exact (show r.Fresh from h).tracker
  | inner n => exact h
  | fish f => exact Fish.Fresh.tracker h
  | variant f => exact Fish.Fresh.tracker h

theorem AnyModel.mutated_of_fresh {m : AnyModel} (h : m.Fresh) : m.mutated = [] := by
  have ht : m.tracker = {} := h.tracker
  simp [AnyModel.mutated, ht]

theorem Fish.ofCheckedWith_fresh (fuel : Nat) (j : Json) : (Fish.ofCheckedWith fuel j).Fresh := by
  induction fuel generalizing j with
  | zero => exact rfl
  | succ n ih =>
    simp only [Fish.ofCheckedWith]
    split
    · exact rfl
    · split
      · exact ⟨rfl, ih _⟩
      · exact ⟨rfl, trivial⟩
    · exact rfl

theorem Fish.ofChecked_fresh (j : Json) : (Fish.ofChecked j).Fresh := Fish.ofCheckedWith_fresh _ _

theorem Resource.ofChecked_fresh (j : Json) : (Resource.ofChecked j).Fresh where
  tracker := rfl
  map := by
    intro es hes e he m hm
    simp only [Resource.ofChecked, Option.bind_eq_some_iff] at hes
    obtain ⟨x, -, hx⟩ := hes
    cases x <;> simp only [Resource.mapOfChecked, reduceCtorEq, Option.some.injEq] at hx
    subst hx
    obtain ⟨⟨k, y⟩, -, rfl⟩ := List.mem_map.mp he
    cases y <;> simp only [Option.some.injEq, reduceCtorEq] at hm
    subst hm
    exact rfl
  inner := by
    intro m hm
    simp only [Resource.ofChecked] at hm
    split at hm
    · cases hm
      exact rfl
    · cases hm
  array := by
    intro xs hxs m hm
    simp only [Resource.ofChecked, Option.bind_eq_some_iff] at hxs
    obtain ⟨x, -, hx⟩ := hxs
    cases x <;> simp only [Resource.arrayOfChecked, reduceCtorEq, Option.some.injEq] at hx
    subst hx
    obtain ⟨y, -, rfl⟩ := List.mem_map.mp hm
    exact rfl
  fish := by
    intro f hf
    simp only [Resource.ofChecked] at hf
    split at hf
    · cases hf
      exact Fish.ofChecked_fresh _
    · cases hf

/-- A model read from text is fresh at every depth. -/
theorem AnyModel.fromText_fresh {kind : ModelKind} {input : ByteArray} {m : AnyModel}
    (h : AnyModel.fromText kind input = .ok m) : m.Fresh := by
  obtain ⟨j, -, rfl⟩ := Except.map_ok_inv h
  cases kind with
  | resource => exact Resource.ofChecked_fresh j
  | innerModel => exact rfl
  | fish => exact Fish.ofChecked_fresh j
  | shark => exact Fish.ofChecked_fresh _
  | salmon => exact Fish.ofChecked_fresh _
  | otherFish => exact Fish.ofChecked_fresh j

/-- The models a client starts from: a new one, one read from text, or a new fish of a kind. -/
inductive AnyModel.Start (kind : ModelKind) : AnyModel → Prop
  | new {m : AnyModel} : AnyModel.new? kind = some m → Start kind m
  | read {m : AnyModel} (input : ByteArray) : AnyModel.fromText kind input = .ok m → Start kind m
  | ofKind {m : AnyModel} (k : String) : AnyModel.ofKind kind k = .ok m → Start kind m

theorem AnyModel.Start.fresh {kind : ModelKind} {m : AnyModel} (h : AnyModel.Start kind m) :
    m.Fresh := by
  cases h with
  | new h =>
    cases kind <;> simp only [AnyModel.new?, reduceCtorEq, Option.some.injEq] at h <;> subst h
    · exact ⟨rfl, by simp, by simp, by simp, by simp⟩
    · exact rfl
    · exact rfl
    · exact ⟨rfl, trivial⟩
  | read input h => exact AnyModel.fromText_fresh h
  | ofKind k h =>
    unfold AnyModel.ofKind at h
    split at h
    · split at h
      · cases h
      · cases h
        exact rfl
    · cases h
      unfold Fish.ofKind
      split
      · exact rfl
      · split
        · exact ⟨rfl, trivial⟩
        · exact rfl

/-! ## What one assignment marks -/

theorem pathHead_of_splitOnce {p head rest : String} (h : splitOnce p '.' = some (head, rest)) :
    pathHead p = head := by
  rw [pathHead, h]

theorem InnerModel.Sets.tracker {v : Json} {m m' : InnerModel} {field : String}
    (h : InnerModel.Sets v m field m') : m'.tracker = m.tracker.mark (pathHead field) := by
  cases h with
  | name j _ => rfl
  | description j _ => rfl

theorem Fish.SetsCommon.tracker {v : Json} {f f' : Fish} {field : String}
    (h : Fish.SetsCommon v f field f') : f'.tracker = f.tracker.mark (pathHead field) := by
  cases h with
  | name f j _ => cases f <;> rfl
  | age f j _ => cases f <;> rfl
  | color f j _ => cases f <;> rfl
  | weight c w j _ => rfl

/-- An assignment of a fish marks the head of its path alone, even when it goes through the
partner. -/
theorem Fish.Sets.tracker {v : Json} {f f' : Fish} {field : String} (h : Fish.Sets v f field f') :
    f'.tracker = f.tracker.mark (pathHead field) := by
  cases h with
  | common h => exact h.tracker
  | partner c p np _ => rfl
  | throughPartner c q q' field rest hrest _ _ =>
    rw [pathHead_of_dropPrefix? hrest]
    rfl

theorem Resource.Sets.tracker {v : Json} {r r' : Resource} {field : String}
    (h : Resource.Sets v r field r') : r'.tracker = r.tracker.mark (pathHead field) := by
  cases h with
  | description _ _ | mapObject _ _ _ _ | mapValue _ _ _ | longValue _ _ | intValue _ _
  | enumValue _ _ | innerModel _ _ | array _ _ | fish _ _ => rfl
  | innerMember field rest m hsplit _ =>
    rw [pathHead_of_splitOnce hsplit]
    rfl
  | fishMember field rest f f' hsplit _ _ =>
    rw [pathHead_of_splitOnce hsplit]
    rfl
  | mapEntry field rest e hsplit _ _ =>
    rw [pathHead_of_splitOnce hsplit]
    rfl
  | mapMember field rest key member e hsplit _ _ =>
    rw [pathHead_of_splitOnce hsplit]
    rfl

namespace AnyModel

theorem set_tracker {m m' : AnyModel} {p : String} {v : Json} (h : m.set p v = .ok m') :
    m'.tracker = m.tracker.mark (pathHead p) := by
  cases m with
  | resource r =>
    obtain ⟨r', hr, rfl⟩ := Except.map_ok_inv h
    exact (Resource.set_ok hr).tracker
  | inner n =>
    obtain ⟨n', hn, rfl⟩ := Except.map_ok_inv h
    exact (InnerModel.set_ok hn).tracker
  | fish f =>
    obtain ⟨f', hf, rfl⟩ := Except.map_ok_inv h
    exact (Fish.set_ok hf).2.tracker
  | variant f =>
    obtain ⟨f', hf, rfl⟩ := Except.map_ok_inv h
    exact (Fish.setMember_ok hf).tracker

/-- A typed setter marks its own field, whatever value it is given; every typed setter is named
by a single field. -/
theorem setter_tracker {m : AnyModel} {field : String} {s : Schema Shape}
    {assign : Json → AnyModel} (h : m.setter field = some (s, assign)) (j : Json) :
    (assign j).tracker = m.tracker.mark (pathHead field) := by
  cases m with
  | resource r =>
    simp only [setter] at h
    split_ifs at h <;> cases h <;> subst_vars <;> rfl
  | inner n =>
    simp only [setter] at h
    split_ifs at h <;> cases h <;> subst_vars <;> rfl
  | fish f => cases h
  | variant f =>
    cases f with
    | shark c w =>
      simp only [setter] at h
      split_ifs at h <;> cases h <;> subst_vars <;> rfl
    | salmon c p =>
      simp only [setter] at h
      split_ifs at h <;> cases h <;> subst_vars <;> rfl
    | other k c =>
      simp only [setter] at h
      split_ifs at h <;> cases h <;> subst_vars <;> rfl

theorem withValue_tracker {m m' : AnyModel} {field : String} {v : Json}
    (h : m.withValue field v = some (.ok m')) : m'.tracker = m.tracker.mark (pathHead field) := by
  simp only [withValue, Option.map_eq_some_iff] at h
  obtain ⟨⟨s, assign⟩, hs, hm⟩ := h
  obtain ⟨j, -, rfl⟩ := Except.map_ok_inv hm
  exact setter_tracker hs j

@[simp] theorem tracker_withTracker (m : AnyModel) (t : Tracker) : (m.withTracker t).tracker = t := by
  cases m with
  | resource r => rfl
  | inner n => rfl
  | fish f => cases f <;> rfl
  | variant f => cases f <;> rfl

theorem mem_mutated_of_mark {m m' : AnyModel} {head : String}
    (h : m'.tracker = m.tracker.mark head) (f : String) :
    f ∈ m'.mutated ↔ f ∈ m.mutated ∨ f = head := by
  rw [mutated, h, Tracker.mark, Names.mem_insert, or_comm]
  rfl

/-! ## Runs of calls -/

/-- **One call.** A call that goes through adds the head of the path it assigns, if any, to the
assigned fields, and changes nothing else in them. -/
theorem perform_mutated {kind : ModelKind} {m m' : AnyModel} {c : ModelCall}
    (h : m.perform kind c = some m') (f : String) :
    f ∈ m'.mutated ↔ f ∈ m.mutated ∨ f ∈ (c.target.map pathHead).toList := by
  cases c with
  | set p v =>
    rw [mem_mutated_of_mark (set_tracker (Except.ok_of_toOption h))]
    simp [ModelCall.target]
  | assign e =>
    obtain ⟨a, ha, hm⟩ := Except.bind_ok_inv (Except.ok_of_toOption h)
    rw [mem_mutated_of_mark (set_tracker hm)]
    simp [ModelCall.target, ha, Except.toOption]
  | withField field v =>
    obtain ⟨x, hx, hm⟩ := Option.bind_eq_some_iff.mp h
    rw [Except.ok_of_toOption hm] at hx
    rw [mem_mutated_of_mark (withValue_tracker hx)]
    simp [ModelCall.target]
  | get p =>
    obtain ⟨_, -, rfl⟩ := Option.map_eq_some_iff.mp h
    simp [ModelCall.target]
  | enableMergePatch b =>
    cases h
    simp [mutated, setMergePatch, Tracker.withMode, ModelCall.target]
  | equals text =>
    obtain ⟨_, -, rfl⟩ := Option.map_eq_some_iff.mp h
    simp [ModelCall.target]
  | toJson | toMergePatch | serialize | toBody _ =>
    cases h
    simp [ModelCall.target]

/-- **A run of calls.** The assigned fields after a run are those before it and the heads of
the paths of the assignments in it that went through. -/
theorem runCalls_mutated (kind : ModelKind) (cs : List ModelCall) (m : AnyModel) (f : String) :
    f ∈ (runCalls kind m cs).mutated ↔ f ∈ m.mutated ∨ f ∈ assignedHeads kind m cs := by
  induction cs generalizing m with
  | nil => simp [runCalls, assignedHeads]
  | cons c cs ih =>
    cases hc : m.perform kind c with
    | none =>
      -- a failed call leaves the model as it was
      simp only [runCalls_cons, assignedHeads, hc, Option.getD_none]
      exact ih m
    | some m' =>
      simp only [runCalls_cons, assignedHeads, hc, Option.getD_some, List.mem_append]
      rw [ih m', perform_mutated hc, or_assoc]

/-- A call that assigns nothing keeps the assigned fields as they were, in order. -/
theorem perform_mutated_of_target {kind : ModelKind} {m m' : AnyModel} {c : ModelCall}
    (hc : c.target = none) (h : m.perform kind c = some m') : m'.mutated = m.mutated := by
  cases c with
  | set p v | withField field v => cases hc
  | assign e =>
    obtain ⟨a, ha, -⟩ := Except.bind_ok_inv (Except.ok_of_toOption h)
    simp [ModelCall.target, ha, Except.toOption] at hc
  | get p | equals _ =>
    obtain ⟨_, -, rfl⟩ := Option.map_eq_some_iff.mp h
    rfl
  | enableMergePatch b =>
    cases h
    simp [mutated, setMergePatch, Tracker.withMode]
  | toJson | toMergePatch | serialize | toBody _ =>
    cases h
    rfl

theorem runCalls_append (kind : ModelKind) (m : AnyModel) (cs ds : List ModelCall) :
    runCalls kind m (cs ++ ds) = runCalls kind (runCalls kind m cs) ds := by
  induction cs generalizing m with
  | nil => rfl
  | cons c cs ih => exact ih _

end AnyModel

/-- **Mutation tracking is exact.** Every model a client starts from (a new one, one read from
text, a new fish of a kind) is fresh at every depth. From it, the assigned fields after any run
of calls are exactly the heads of the paths that the run's successful assignments assigned; and
a call that fails, or that assigns nothing, leaves them as they were. -/
theorem mutated_fields_exact {kind : ModelKind} {m : AnyModel} (hm : AnyModel.Start kind m) :
    m.Fresh ∧
    (∀ cs f, f ∈ (m.runCalls kind cs).mutated ↔ f ∈ m.assignedHeads kind cs) ∧
    (∀ cs c, (c.target = none ∨ (m.runCalls kind cs).perform kind c = none) →
      (m.runCalls kind (cs ++ [c])).mutated = (m.runCalls kind cs).mutated) := by
  have hfresh := hm.fresh
  refine ⟨hfresh, fun cs f => ?_, fun cs c hc => ?_⟩
  · rw [AnyModel.runCalls_mutated, AnyModel.mutated_of_fresh hfresh]
    simp
  · rw [AnyModel.runCalls_append]
    -- the run so far ends in some model; the last call either fails or assigns nothing
    generalize m.runCalls kind cs = m₀ at hc ⊢
    cases hp : m₀.perform kind c with
    | none => simp [AnyModel.runCalls, AnyModel.after_eq kind, hp]
    | some m' =>
      have ht : c.target = none := by simpa [hp] using hc
      simpa [AnyModel.runCalls, AnyModel.after_eq kind, hp] using AnyModel.perform_mutated_of_target ht hp

/-- A new resource, assigned nothing yet. -/
theorem mutated_fields_exact_new :
    AnyModel.Start .resource (.resource {}) ∧ (AnyModel.resource {}).Fresh ∧
    (∀ cs f, f ∈ ((AnyModel.resource {}).runCalls .resource cs).mutated ↔
      f ∈ (AnyModel.resource {}).assignedHeads .resource cs) ∧
    (∀ cs c, (c.target = none ∨
        ((AnyModel.resource {}).runCalls .resource cs).perform .resource c = none) →
      ((AnyModel.resource {}).runCalls .resource (cs ++ [c])).mutated =
        ((AnyModel.resource {}).runCalls .resource cs).mutated) :=
  ⟨.new rfl, mutated_fields_exact (.new rfl)⟩

end MergePatch
