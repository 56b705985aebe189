import Mathlib
import MergePatch.Proofs.Setters
/-!
# Calls made in place

What the procedures on a model held by reference do, each said once against the functional
definitions that the other proofs use.

Writing restores every flag. A write in a scope sets the flag of the model and then puts back
the flag it found, and the nested models are written in their own scopes inside it; by
induction along the nesting (the chain of partners for fish), every write leaves the model
exactly as it found it (`AnyModel.writeIn_state`) and gives the JSON of `AnyModel.write` in the
mode of its scope (`AnyModel.writeIn_fst`). Reads that write a nested model whole therefore
read what `get` reads and leave the model as it was (`AnyModel.getIn_eq`).

Assignment commits at each level only once the level below has gone through. A procedure whose
run is `atomically x s` ends, on success, in the model that `x` computes and, on failure, in the
model `s` it started from. Each setter is such a procedure for its functional form: a value is
decoded before anything is stored, a nested model is set on a copy, and the copy is put back
only after the assignment inside it succeeded (`AnyModel.setIn_run`).

So the model after a call made in place is the model that `perform` gives when the call goes
through, and the model as it was when it fails (`AnyModel.after_eq`).
-/

namespace MergePatch

/-! ## Writing -/

namespace Tracker

@[simp] theorem enter_mergePatch (t : Tracker) (scope : Option Bool) :
    (t.enter scope).mergePatch = scope.getD t.mergePatch := by
  cases scope <;> rfl

@[simp] theorem isAssigned_enter (t : Tracker) (scope : Option Bool) (f : String) :
    (t.enter scope).isAssigned f = t.isAssigned f := by
  cases scope <;> rfl

@[simp] theorem member_enter (t : Tracker) (scope : Option Bool) (merge : Bool) (logical wire : String)
    (value : Option Json) : (t.enter scope).member merge logical wire value = t.member merge logical wire value := by
  cases scope <;> rfl

/-- A scope puts back the flag it found. -/
@[simp] theorem leave_enter (t : Tracker) (scope : Option Bool) :
    (t.enter scope).leave t.mergePatch scope = t := by
  cases scope <;> rfl

/-- In merge-patch mode a field that was not assigned is left out, whatever its value. -/
theorem member_unassigned {t : Tracker} {logical : String} (h : t.isAssigned logical = false)
    (wire : String) (value : Option Json) : t.member true logical wire value = [] := by
  simp [member, h]

end Tracker

section Nested

variable {τ α : Type}

theorem optIn_state {act : StateM τ α} (h : ∀ x, (act x).2 = x) (o : Option τ) :
    (optIn act o).2 = o := by
  cases o with
  | none => rfl
  | some x => simp only [optIn, Prod.map_snd, h]

theorem optIn_fst (act : StateM τ α) (o : Option τ) : (optIn act o).1 = o.map fun x => (act x).1 := by
  cases o <;> rfl

/-- A write that leaves what it writes as it was gives, on an optional part, its JSON and the
part unchanged. -/
theorem optIn_eq {act : StateM τ α} {g : τ → α} (h : ∀ x, act x = (g x, x)) (o : Option τ) :
    optIn act o = (o.map g, o) := by
  cases o with
  | none => rfl
  | some x => simp [optIn, h]

variable {writeIn : Option Bool → StateM τ Json}

/-- A nested write leaves the nested model as it found it when each write of it does. -/
theorem nestedIn_state (h : ∀ scope x, (writeIn scope x).2 = x) (merge assigned : Bool)
    (p : Option τ) : (nestedIn writeIn merge assigned p).2 = p := by
  unfold nestedIn
  split_ifs <;> simp only [optIn_state (h _)]

/-- What a nested write contributes is the nested model written as a merge patch in merge-patch
mode and in its own mode otherwise, given the writes in a raising scope and in no scope. -/
theorem member_nestedIn {write : τ → Bool → Json} {flag : τ → Bool}
    (hmerge : ∀ x, (writeIn (some true) x).1 = write x true)
    (hown : ∀ x, (writeIn none x).1 = write x (flag x))
    (t : Tracker) (merge : Bool) (logical wire : String) (p : Option τ) :
    t.member merge logical wire (nestedIn writeIn merge (t.isAssigned logical) p).1 =
      t.member merge logical wire (p.map fun x => write x (merge || flag x)) := by
  cases merge with
  | false => simp [nestedIn, optIn_fst, hown]
  | true =>
    cases hl : t.isAssigned logical with
    | false => simp only [Tracker.member_unassigned hl]
    | true => simp [nestedIn, optIn_fst, hmerge]

end Nested

namespace InnerModel

@[simp] theorem writeIn_state (scope : Option Bool) (m : InnerModel) : (writeIn scope m).2 = m := by
  simp [writeIn]

theorem writeIn_fst (scope : Option Bool) (m : InnerModel) :
    (writeIn scope m).1 = m.write (scope.getD m.tracker.mergePatch) := by
  simp [writeIn, write]

theorem toJsonIn_eq (m : InnerModel) : toJsonIn m = (m.toJson, m) := by
  simp [toJsonIn, writeIn_fst, toJson, Functor.map, StateT.map]

end InnerModel

namespace Fish

/-- **Writing a fish restores every flag along its chain of partners.** By induction on the
chain: the partner's write, in whatever scope, leaves it as it was, so putting it back changes
nothing, and the fish's own scope puts back its flag. -/
@[simp] theorem writeIn_state : ∀ (scope : Option Bool) (f : Fish), (writeIn scope f).2 = f
  | _, shark c w | _, other k c | _, salmon c none => by simp [writeIn]
  | scope, salmon c (some q) => by
    have hraise := writeIn_state (some true) q
    have hown := writeIn_state none q
    simp only [writeIn]
    split_ifs <;> simp [Prod.map_snd, hraise, hown]

/-- A fish written in place gives its JSON in the mode of the scope: the mode its flag has
otherwise. -/
theorem writeIn_fst : ∀ (scope : Option Bool) (f : Fish),
    (writeIn scope f).1 = f.write (scope.getD f.tracker.mergePatch)
  | _, shark c w | _, other k c | _, salmon c none => by
    simp [writeIn, write, FishCore.members, tracker, core]
  | scope, salmon c (some q) => by
    have hraise := writeIn_fst (some true) q
    have hown := writeIn_fst none q
    simp only [writeIn]
    split_ifs with hmerge hassigned
    · simp_all [write, FishCore.members, tracker, core]
    · simp_all [write, FishCore.members, tracker, core, Tracker.member]
    · simp_all [write, FishCore.members, tracker, core]

theorem toJsonIn_eq (f : Fish) : toJsonIn f = (f.toJson, f) := by
  simp [toJsonIn, writeIn_fst, toJson, Functor.map, StateT.map]

end Fish

namespace Resource

@[simp] theorem entriesIn_state (scope : Option Bool) (es : Keyed (Option InnerModel)) :
    (entriesIn scope es).2 = es := by
  simp only [entriesIn, List.map_map]
  conv_rhs => rw [← List.map_id es]
  refine List.map_congr_left fun (k, e) _ => ?_
  simp [optIn_state]

theorem entriesIn_fst_raise (es : Keyed (Option InnerModel)) :
    (entriesIn (some true) es).1 = writeMap es true := by
  simp only [entriesIn, writeMap, List.map_map]
  congr 1
  refine List.map_congr_left fun (k, e) _ => ?_
  cases e <;> simp [optIn_fst, InnerModel.writeIn_fst]

theorem entriesIn_fst_own (es : Keyed (Option InnerModel)) :
    (entriesIn none es).1 = writeMap es false := by
  simp only [entriesIn, writeMap, List.map_map]
  congr 1
  refine List.map_congr_left fun (k, e) _ => ?_
  cases e <;> simp [optIn_fst, InnerModel.writeIn_fst, InnerModel.writeOwn]

/-- **Writing a resource restores every flag**: its own, by its scope, and those of the inner
model, the fish and every model of the map, by theirs. -/
@[simp] theorem writeIn_state (scope : Option Bool) (r : Resource) : (writeIn scope r).2 = r := by
  simp [writeIn, nestedIn_state]

theorem writeIn_fst (scope : Option Bool) (r : Resource) :
    (writeIn scope r).1 = r.write (scope.getD r.tracker.mergePatch) := by
  simp only [writeIn, write, Tracker.member_enter, Tracker.enter_mergePatch, Tracker.isAssigned_enter]
  rw [member_nestedIn entriesIn_fst_raise entriesIn_fst_own,
    member_nestedIn (fun m => InnerModel.writeIn_fst (some true) m)
      (fun m => InnerModel.writeIn_fst none m),
    member_nestedIn (fun f => Fish.writeIn_fst (some true) f) (fun f => Fish.writeIn_fst none f)]
  simp

end Resource

namespace AnyModel

/-- **Writing a model restores every flag**, at every depth. -/
@[simp] theorem writeIn_state (scope : Option Bool) (m : AnyModel) : (writeIn scope m).2 = m := by
  cases m <;> simp [writeIn]

/-- A model written in place gives the JSON of `write` in the mode of the scope, and the mode of
its flag when there is none. -/
theorem writeIn_fst (scope : Option Bool) (m : AnyModel) :
    (writeIn scope m).1 = m.write (scope.getD m.tracker.mergePatch) := by
  cases m <;> simp [writeIn, write, tracker, Resource.writeIn_fst, InnerModel.writeIn_fst,
    Fish.writeIn_fst]

theorem toJsonIn_eq (m : AnyModel) : toJsonIn m = (m.toJson, m) := by
  simp [toJsonIn, writeIn_fst, toJson, Functor.map, StateT.map]

theorem toMergePatchIn_eq (m : AnyModel) : toMergePatchIn m = (m.toMergePatch, m) := by
  simp [toMergePatchIn, writeIn_fst, toMergePatch, Functor.map, StateT.map]

theorem serializeIn_eq (m : AnyModel) : serializeIn m = (m.serialize, m) := by
  simp [serializeIn, writeIn_fst, serialize, Functor.map, StateT.map]

theorem toBodyIn_eq (merge : Bool) (m : AnyModel) : toBodyIn merge m = (m.toBody merge, m) := by
  simp [toBodyIn, writeIn_fst, toBody, Functor.map, StateT.map]

end AnyModel

/-! ## Reading -/

theorem Json.ofOption_eq_getD {α : Type} (f : α → Json) (o : Option α) :
    Json.ofOption f o = (o.map f).getD .null := by
  cases o <;> rfl

/-- A lookup in a map rewritten at one key gives the entry rewritten there. -/
theorem Keyed.get?_map_at {β γ : Type} (es : Keyed β) (key : String) (f g : β → γ) :
    Keyed.get? (es.map fun p => (p.1, if p.1 = key then f p.2 else g p.2)) key =
      (Keyed.get? es key).map f := by
  induction es with
  | nil => rfl
  | cons p es ih =>
    obtain ⟨k, e⟩ := p
    by_cases hk : k = key
    · subst hk
      simp
    · simp [Keyed.get?_cons, hk, ih]

namespace Fish

/-- Reading a fish in place reads what `getMember` reads and leaves the fish as it was; a
partner read whole is written in full and put back as it was. By induction on the chain. -/
theorem getMemberIn_eq : ∀ (field : String) (f : Fish), getMemberIn field f = (f.getMember field, f)
  | _, shark c w | _, other k c => rfl
  | field, salmon c none => by
    cases hp : dropPrefix? field "partner." with
    | some rest => simp [getMemberIn, getMember, hp]
    | none =>
      simp only [getMemberIn, getMember, hp]
      split_ifs <;> rfl
  | field, salmon c (some q) => by
    cases hp : dropPrefix? field "partner." with
    | some rest =>
      simp only [getMemberIn, getMember, hp]
      split_ifs
      · rfl
      · simp [getMemberIn_eq rest q]
    | none =>
      simp only [getMemberIn, getMember, hp]
      split_ifs <;> simp [optIn_eq toJsonIn_eq]

theorem getIn_eq (field : String) (f : Fish) : getIn field f = (f.get field, f) := by
  unfold getIn get
  split_ifs
  · rfl
  · exact getMemberIn_eq field f

end Fish

namespace Resource

theorem getNestedIn_eq (head rest : String) (r : Resource) :
    getNestedIn head rest r = (r.getNested head rest, r) := by
  unfold getNestedIn
  split_ifs with hfish hmap
  · subst hfish
    cases hf : r.fish with
    | none => simp [getNested, hf]
    | some f =>
      simp only [getNested, hf, Fish.getIn_eq]
      refine Prod.ext (by simp) ?_
      rw [← hf]
  · subst hmap
    split
    · rename_i es hsplit hm
      simp only [optIn_eq InnerModel.toJsonIn_eq, List.map_map]
      refine Prod.ext ?_ ?_
      · have hget := Keyed.get?_map_at es rest (fun e => (e.map InnerModel.toJson, e)) (fun e => (none, e))
        simp only [getNested, hsplit, hm, Option.bind_some, hget]
        cases Keyed.get? es rest with
        | none => rfl
        | some e => cases e <;> rfl
      · show { r with map := _ } = r
        conv_rhs => rw [← show { r with map := some es } = r from hm ▸ rfl]
        congr 2
        conv_rhs => rw [← List.map_id es]
        refine List.map_congr_left fun ke _ => ?_
        obtain ⟨k, e⟩ := ke
        by_cases hk : k = rest <;> simp [hk]
    · rfl
  · rfl

/-- Reading a resource in place reads what `get` reads and leaves the resource as it was: every
nested model read whole is written in full and put back as it was. -/
theorem getIn_eq (field : String) (r : Resource) : getIn field r = (r.get field, r) := by
  unfold getIn
  split
  · rename_i head rest hsplit
    simp only [getNestedIn_eq, get, hsplit]
  · rename_i hsplit
    split_ifs with hmap hinner hfish
    · subst hmap
      cases hm : r.map with
      | none => simp [get, hsplit, hm, Json.ofOption]
      | some es =>
        simp only [optIn_eq InnerModel.toJsonIn_eq, List.map_map]
        refine Prod.ext ?_ ?_
        · change _ = Except.ok (Json.ofOption _ r.map)
          rw [hm]
          exact congrArg (Except.ok ∘ Json.object) (List.map_congr_left fun (k, e) _ => by cases e <;> rfl)
        · show { r with map := _ } = r
          conv_rhs => rw [← show { r with map := some es } = r from hm ▸ rfl]
          congr 2
          conv_rhs => rw [← List.map_id es]
          exact List.map_congr_left fun (k, e) _ => rfl
    · subst hinner
      simp only [optIn_eq InnerModel.toJsonIn_eq, get, hsplit, Json.ofOption_eq_getD]
      rfl
    · subst hfish
      simp only [optIn_eq Fish.toJsonIn_eq, get, hsplit, Json.ofOption_eq_getD]
      rfl
    · rfl

end Resource

namespace AnyModel

/-- Reading a model in place reads what `get` reads and leaves the model as it was. -/
theorem getIn_eq (p : String) (m : AnyModel) : getIn p m = (m.get p, m) := by
  cases m <;> simp [getIn, get, Resource.getIn_eq, Fish.getIn_eq, Fish.getMemberIn_eq]

end AnyModel

/-! ## Assignment -/

/-- The result of a procedure that makes the change `x` at once: the model `x` computes when it
succeeds, and the model `s` as it was when it fails. -/
def atomically {ε σ : Type} (x : Except ε σ) (s : σ) : EStateM.Result ε σ Unit :=
  match x with
  | .ok s' => .ok () s'
  | .error e => .error e s

section Steps

variable {ε σ τ α : Type}

theorem getThe_bind_run (k : σ → EStateM ε σ α) (s : σ) : (getThe σ >>= k).run s = (k s).run s :=
  rfl

/-- A field decoded, stored and then marked: the run stores and marks the decoded value at once,
or fails with the state as it was. -/
theorem decodeStore_run (x : Except ε α) (store : α → σ → σ) (mark : σ → σ) (s : σ) :
    (liftExcept x >>= fun a => modify (store a) >>= fun _ => modify mark : EStateM ε σ Unit).run s =
      atomically (x >>= fun a => pure (mark (store a s))) s := by
  cases x <;> rfl

/-- A part set on a copy by an atomic procedure, then put back and marked: the run puts back and
marks the copy the procedure leaves when it succeeds, and a failure leaves the state as it was. -/
theorem onCopyStore_run {act : EStateM ε τ Unit} {x : τ} {y : Except ε τ}
    (h : act.run x = atomically y x) (put : τ → σ → σ) (mark : σ → σ) (s : σ) :
    (onCopy x act >>= fun x' => modify (put x') >>= fun _ => modify mark : EStateM ε σ Unit).run s =
      atomically (y >>= fun x' => pure (mark (put x' s))) s := by
  simp only [EStateM.run] at h
  simp only [onCopy, EStateM.run, bind, EStateM.bind, h]
  cases y <;> rfl

theorem liftResult_atomically (wrap : τ → σ) (x : Except ε τ) (t : τ) :
    liftResult wrap (atomically x t) = atomically (wrap <$> x) (wrap t) := by
  cases x <;> rfl

theorem endState_atomically (x : Except ε σ) (s : σ) : endState (atomically x s) = x.toOption.getD s := by
  cases x <;> rfl

end Steps

namespace InnerModel

/-- An inner model's field is decoded before anything is stored. -/
theorem setIn_run (field : String) (v : Json) (m : InnerModel) :
    (setIn field v).run m = atomically (m.set field v) m := by
  unfold setIn set
  split_ifs with hname hdesc
  · subst hname
    exact decodeStore_run _ _ _ m
  · subst hdesc
    exact decodeStore_run _ _ _ m
  · rfl

end InnerModel

namespace Fish

theorem setCommonIn_run (field : String) (v : Json) (f : Fish) :
    (setCommonIn field v).run f = atomically (f.setCommon field v) f := by
  unfold setCommonIn setCommon
  by_cases hid : field = "id"
  · simp only [if_pos hid]
    rfl
  simp only [if_neg hid]
  by_cases hname : field = "name"
  · subst hname
    cases decodeField "name" (.option .string) v <;> cases f <;> rfl
  simp only [if_neg hname]
  by_cases hage : field = "age"
  · subst hage
    cases decodeField "age" (.option (.int .i32)) v <;> cases f <;> rfl
  simp only [if_neg hage]
  by_cases hcolor : field = "color"
  · subst hcolor
    cases decodeField "color" (.option .string) v <;> cases f <;> rfl
  simp only [if_neg hcolor]
  cases f with
  | shark c w =>
    by_cases hweight : field = "weight"
    · subst hweight
      cases decodeField "weight" (.option (.int .i32)) v <;> rfl
    · simp only [if_neg hweight]
      rfl
  | salmon c p | other k c => rfl

/-- **Assignment along the chain of partners commits only once the inner one went through.** A
path `partner.rest` sets a copy of the partner, put back only after the assignment inside it
succeeded, so by induction on the chain a failure anywhere leaves the fish as it was. -/
theorem setMemberIn_run : ∀ (field : String) (v : Json) (f : Fish),
    (setMemberIn field v).run f = atomically (f.setMember field v) f
  | field, v, shark c w => by
    rw [setMemberIn]
    simp only [EStateM.run, bind, EStateM.bind, getThe, MonadStateOf.get, EStateM.get]
    unfold setMember
    exact setCommonIn_run field v _
  | field, v, other k c => by
    rw [setMemberIn]
    simp only [EStateM.run, bind, EStateM.bind, getThe, MonadStateOf.get, EStateM.get]
    unfold setMember
    exact setCommonIn_run field v _
  | field, v, salmon c p => by
    rw [setMemberIn]
    simp only [EStateM.run, bind, EStateM.bind, getThe, MonadStateOf.get, EStateM.get]
    unfold setMember
    cases hp : dropPrefix? field "partner." with
    | none =>
      dsimp only
      by_cases hpartner : field = "partner"
      · simp only [if_pos hpartner]
        exact decodeStore_run _ _ _ _
      · simp only [if_neg hpartner]
        exact setCommonIn_run field v _
    | some rest =>
      dsimp only
      cases p with
      | none => rfl
      | some q =>
        by_cases hkind : rest = "kind"
        · simp only [if_pos hkind]
          rfl
        · simp only [if_neg hkind]
          -- the copy of the partner is set first; only its success is put back
          exact onCopyStore_run (setMemberIn_run rest v q) _ _ _

theorem setIn_run (field : String) (v : Json) (f : Fish) :
    (setIn field v).run f = atomically (f.set field v) f := by
  unfold setIn set
  split_ifs
  · rfl
  · exact setMemberIn_run field v f

end Fish

namespace Resource

/-- A path into a nested model or the map sets a copy, put back and marked only once the
assignment inside it went through. -/
theorem setNestedIn_run (field head rest : String) (v : Json) (r : Resource) :
    (setNestedIn field head rest v).run r = atomically (r.setNested field head rest v) r := by
  unfold setNestedIn setNested
  rw [getThe_bind_run]
  by_cases hinner : head = "innerModelProperty"
  · simp only [if_pos hinner]
    exact onCopyStore_run (InnerModel.setIn_run rest v _) _ _ r
  simp only [if_neg hinner]
  by_cases hfish : head = "fish"
  · simp only [if_pos hfish]
    cases r.fish with
    | none => rfl
    | some f =>
      dsimp only
      exact onCopyStore_run (Fish.setIn_run rest v f) _ _ r
  simp only [if_neg hfish]
  by_cases hmap : head = "map"
  · simp only [if_pos hmap]
    cases splitOnce rest '.' with
    | none =>
      dsimp only
      exact decodeStore_run _ _ _ r
    | some km =>
      obtain ⟨key, member⟩ := km
      dsimp only
      exact onCopyStore_run (InnerModel.setIn_run member v _) _ _ r
  simp only [if_neg hmap]
  split_ifs <;> rfl

/-- **Assigning a resource in place is atomic**: each field's value is decoded, or its nested
model built, before anything is stored, and a path commits only once the nested assignment went
through. -/
theorem setIn_run (field : String) (v : Json) (r : Resource) :
    (setIn field v).run r = atomically (r.set field v) r := by
  unfold setIn set
  cases splitOnce field '.' with
  | some hr =>
    obtain ⟨head, rest⟩ := hr
    exact setNestedIn_run field head rest v r
  | none =>
    dsimp only
    by_cases hro : field = "id" ∨ field = "name"
    · simp only [if_pos hro]
      rfl
    simp only [if_neg hro]
    by_cases hdesc : field = "description"
    · simp only [if_pos hdesc]
      exact decodeStore_run _ _ _ r
    simp only [if_neg hdesc]
    by_cases hmapf : field = "map"
    · simp only [if_pos hmapf]
      -- both sides read an object as entries and anything else by the schema; cases on the
      -- value rather than split, which may take the two matches for one
      cases v <;> dsimp only <;> exact decodeStore_run _ _ _ r
    simp only [if_neg hmapf]
    by_cases hlong : field = "longValue"
    · simp only [if_pos hlong]
      exact decodeStore_run _ _ _ r
    simp only [if_neg hlong]
    by_cases hint : field = "intValue"
    · simp only [if_pos hint]
      exact decodeStore_run _ _ _ r
    simp only [if_neg hint]
    by_cases henum : field = "enumValue"
    · simp only [if_pos henum]
      exact decodeStore_run _ _ _ r
    simp only [if_neg henum]
    by_cases hinner : field = "innerModelProperty"
    · simp only [if_pos hinner]
      exact decodeStore_run _ _ _ r
    simp only [if_neg hinner]
    by_cases harray : field = "array"
    · simp only [if_pos harray]
      exact decodeStore_run _ _ _ r
    simp only [if_neg harray]
    by_cases hfish : field = "fish"
    · simp only [if_pos hfish]
      exact decodeStore_run _ _ _ r
    simp only [if_neg hfish]
    rfl

end Resource

namespace AnyModel

/-- **Assigning a model in place is atomic** at every depth: it ends in the model `set` gives
when that succeeds, and in the model as it was when it fails. -/
theorem setIn_run (p : String) (v : Json) (m : AnyModel) :
    (setIn p v).run m = atomically (m.set p v) m := by
  cases m with
  | resource r =>
    show liftResult resource ((Resource.setIn p v).run r) = _
    rw [Resource.setIn_run, liftResult_atomically]
    rfl
  | inner n =>
    show liftResult inner ((InnerModel.setIn p v).run n) = _
    rw [InnerModel.setIn_run, liftResult_atomically]
    rfl
  | fish f =>
    show liftResult fish ((Fish.setIn p v).run f) = _
    rw [Fish.setIn_run, liftResult_atomically]
    rfl
  | variant f =>
    show liftResult variant ((Fish.setMemberIn p v).run f) = _
    rw [Fish.setMemberIn_run, liftResult_atomically]
    rfl

/-- **The model after a call made in place** is the model `perform` gives when the call goes
through, and the model as it was when the call fails. -/
theorem after_eq (kind : ModelKind) (m : AnyModel) (c : ModelCall) :
    m.after c = (m.perform kind c).getD m := by
  cases c with
  | set p v => simp only [after, perform, setIn_run, endState_atomically]
  | assign e =>
    simp only [after, perform]
    cases Assignment.parse e with
    | ok a => simp only [Assignment.applyIn, setIn_run, endState_atomically]; rfl
    | error _ => rfl
  | withField f v => rfl
  | get p =>
    simp only [after, perform, getIn_eq]
    cases m.get p <;> rfl
  | enableMergePatch b => rfl
  | equals text =>
    simp only [after, perform]
    cases fromText kind text <;> rfl
  | toJson => simp [after, perform, toJsonIn_eq]
  | toMergePatch => simp [after, perform, toMergePatchIn_eq]
  | serialize => simp [after, perform, serializeIn_eq]
  | toBody b => simp [after, perform, toBodyIn_eq]

theorem runCalls_cons (kind : ModelKind) (m : AnyModel) (c : ModelCall) (cs : List ModelCall) :
    m.runCalls kind (c :: cs) = ((m.perform kind c).getD m).runCalls kind cs := by
  rw [runCalls, after_eq kind]

end AnyModel

end MergePatch
