import Mathlib
import MergePatch.Proofs.Lenses
/-!
# Independent assignments commute

Two dynamic assignments of paths neither of which reaches into the other can be made in either
order: each succeeds or fails alike, with the same error, and the two orders end in one model,
every field and every tracker at every depth (`independent_assignments_commute`).

The argument is that of a store with locations, the top-level field a path starts with, its
head. `SameAt` says two models hold the same under one head, and an assignment is a `LocalStep`
at the head of its path: where it succeeds it leaves the other heads as they were and marks its
own, and what it does depends only on what the model holds there. Steps at two heads commute
(`LocalStep.diamond`) and neither changes how the other fails (`LocalStep.error_stable`); the
trackers agree because marking commutes (`Tracker.mark_comm`).

Two independent paths under one head go below it: into the inner model, whose two fields are
heads of their own; into the fish, and through a salmon's partner at any depth, by induction on
the assignment; or into the map, where assignments under two keys are insertions that commute
and two fields of one entry are the inner model again.
-/

namespace MergePatch

/-! ## Marking in either order -/

theorem Keyed.insert_comm_of_lt {α : Type} (xs : Keyed α) {k k' : String} (hk : k < k') (v v' : α) :
    insert (insert xs k v) k' v' = insert (insert xs k' v') k v := by
  induction xs with
  | nil => simp [insert, hk, not_lt_of_gt hk, ne_of_gt hk]
  | cons p rest ih =>
    obtain ⟨j, w⟩ := p
    rcases lt_trichotomy k j with h | h | h
    · -- `k` goes first on both sides, before whatever `k'` does to the list
      rcases lt_trichotomy k' j with h' | h' | h'
      · simp [insert, h, h', hk, not_lt_of_gt hk, ne_of_gt hk]
      · subst h'
        simp [insert, h, not_lt_of_gt hk, ne_of_gt hk]
      · simp [insert, h, not_lt_of_gt h', ne_of_gt h', not_lt_of_gt hk, ne_of_gt hk]
    · subst h
      simp [insert, not_lt_of_gt hk, ne_of_gt hk]
    · have h' := lt_trans h hk
      simp [insert, not_lt_of_gt h, ne_of_gt h, not_lt_of_gt h', ne_of_gt h', ih]

/-- Insertions under two keys commute. -/
theorem Keyed.insert_comm {α : Type} (xs : Keyed α) {k k' : String} (hk : k ≠ k') (v v' : α) :
    insert (insert xs k v) k' v' = insert (insert xs k' v') k v := by
  rcases lt_or_gt_of_ne hk with h | h
  · exact insert_comm_of_lt xs h v v'
  · exact (insert_comm_of_lt xs h v' v).symm

/-- A set of names is inserted into as a keyed list with nothing under each key. -/
theorem Names.insert_eq_keyed (ns : Names) (n : String) :
    insert ns n = (Keyed.insert (ns.map fun m => (m, ())) n ()).map Prod.fst := by
  induction ns with
  | nil => rfl
  | cons m rest ih =>
    simp only [insert, Keyed.insert, List.map_cons]
    split_ifs with h₁ h₂
    · simp [Function.comp_def]
    · simp [h₂, Function.comp_def]
    · simp [ih]

theorem Names.insert_comm (ns : Names) (a b : String) :
    insert (insert ns a) b = insert (insert ns b) a := by
  by_cases hab : a = b
  · rw [hab]
  · have hunit : ∀ xs : Keyed Unit, (xs.map Prod.fst).map (fun m => (m, ())) = xs := by
      intro xs
      simp [List.map_map, Function.comp_def]
    rw [insert_eq_keyed, insert_eq_keyed, hunit, insert_eq_keyed, insert_eq_keyed, hunit,
      Keyed.insert_comm _ hab]

/-- Marking two fields in either order leaves one tracker. -/
theorem Tracker.mark_comm (t : Tracker) (a b : String) : (t.mark a).mark b = (t.mark b).mark a := by
  simp [Tracker.mark, Names.insert_comm]

/-! ## Outcomes of a step on two models -/

/-- A step that only wraps its first part's result fails as that part did. -/
theorem Except.error_of_bind_pure {ε α β : Type} {x : Except ε α} {f : α → β} {e : ε}
    (h : (x >>= fun a => pure (f a)) = .error e) : x = .error e := by
  cases x with
  | error e' =>
    cases h
    rfl
  | ok a => cases h

theorem Except.map_error_inv {ε α β : Type} {x : Except ε α} {f : α → β} {e : ε}
    (h : (f <$> x) = .error e) : x = .error e := by
  cases x with
  | error e' =>
    cases h
    rfl
  | ok a => cases h

/-- Two outcomes of one step on two models: the same error, or results related by `R`. -/
inductive Except.Rel {ε α β : Type} (R : α → β → Prop) : Except ε α → Except ε β → Prop
  | error (e : ε) : Except.Rel R (.error e) (.error e)
  | ok {a : α} {b : β} : R a b → Except.Rel R (.ok a) (.ok b)

namespace Except.Rel

variable {ε α β γ : Type} {R : α → β → Prop} {x : Except ε α} {y : Except ε β}

theorem bind_same (c : Except ε γ) {f : γ → Except ε α} {g : γ → Except ε β}
    (h : ∀ a, Except.Rel R (f a) (g a)) : Except.Rel R (c >>= f) (c >>= g) := by
  cases c with
  | error e => exact .error e
  | ok a => exact h a

theorem refl {R : α → α → Prop} (hR : ∀ a, R a a) (x : Except ε α) : Except.Rel R x x := by
  cases x with
  | error e => exact .error e
  | ok a => exact .ok (hR a)

/-- Steps related at their first part, then at their second, are related as a whole. -/
theorem bind {δ γ : Type} {S : γ → δ → Prop} {c : Except ε γ} {d : Except ε δ}
    {f : γ → Except ε α} {g : δ → Except ε β} (h : Except.Rel S c d)
    (hfg : ∀ a b, S a b → Except.Rel R (f a) (g b)) : Except.Rel R (c >>= f) (d >>= g) := by
  cases h with
  | error e => exact .error e
  | ok hab => exact hfg _ _ hab

theorem eq_error (h : Except.Rel R x y) {e : ε} (hx : x = .error e) : y = .error e := by
  cases h with
  | error => cases hx; rfl
  | ok _ => cases hx

theorem exists_ok (h : Except.Rel R x y) {a : α} (hx : x = .ok a) : ∃ b, y = .ok b ∧ R a b := by
  cases h with
  | error => cases hx
  | ok hr =>
    cases hx
    exact ⟨_, rfl, hr⟩

end Except.Rel

/-! ## Steps at a location -/

section Located

variable {M ε : Type} (Agree : String → M → M → Prop) (tracker : M → Tracker)

/-- A step that works at one location `a` of a model: where it succeeds it leaves every other
location as it was and marks `a`, and what it does depends only on what the model holds at
`a`. -/
structure LocalStep (F : M → Except ε M) (a : String) : Prop where
  frame : ∀ {x x'}, F x = .ok x' → ∀ b, b ≠ a → Agree b x x'
  mark : ∀ {x x'}, F x = .ok x' → tracker x' = (tracker x).mark a
  congr : ∀ {x y}, Agree a x y → Except.Rel (Agree a) (F x) (F y)

variable {Agree tracker} {F G : M → Except ε M} {a b : String}

/-- A step at another location does not change how a step fails. -/
theorem LocalStep.error_stable (hF : LocalStep Agree tracker F a) (hG : LocalStep Agree tracker G b)
    (hab : a ≠ b) {x xg : M} {e : ε} (hx : F x = .error e) (hg : G x = .ok xg) : F xg = .error e :=
  (hF.congr (hG.frame hg a hab)).eq_error hx

/-- Steps at two locations, each successful alone, succeed in either order and end alike. -/
theorem LocalStep.diamond (hequiv : ∀ c, Equivalence (Agree c))
    (hext : ∀ x y, (∀ c, Agree c x y) → tracker x = tracker y → x = y)
    (hF : LocalStep Agree tracker F a) (hG : LocalStep Agree tracker G b) (hab : a ≠ b)
    {x xf xg : M} (hf : F x = .ok xf) (hg : G x = .ok xg) :
    ∃ y, G xf = .ok y ∧ F xg = .ok y := by
  obtain ⟨y₁, hy₁, ha⟩ := (hF.congr (hG.frame hg a hab)).exists_ok hf
  obtain ⟨y₂, hy₂, hb⟩ := (hG.congr (hF.frame hf b (Ne.symm hab))).exists_ok hg
  refine ⟨y₂, hy₂, ?_⟩
  rw [hy₁]
  congr 1
  refine hext _ _ (fun c => ?_) ?_
  · by_cases hca : c = a
    · -- at `a`, both read what `F` left
      subst hca
      exact (hequiv c).trans ((hequiv c).symm ha) (hG.frame hy₂ c hab)
    by_cases hcb : c = b
    · -- at `b`, both read what `G` left
      subst hcb
      exact (hequiv c).trans ((hequiv c).symm (hF.frame hy₁ c (Ne.symm hab))) hb
    · -- elsewhere, both read what the model held
      have h₁ := hF.frame hy₁ c hca
      have h₂ := hG.frame hg c hcb
      have h₃ := hF.frame hf c hca
      have h₄ := hG.frame hy₂ c hcb
      exact (hequiv c).trans ((hequiv c).symm h₁)
        ((hequiv c).trans ((hequiv c).symm h₂) ((hequiv c).trans h₃ h₄))
  · rw [hF.mark hy₁, hG.mark hg, hG.mark hy₂, hF.mark hf, Tracker.mark_comm]

end Located

/-! ## Inner models -/

namespace InnerModel

theorem set_name {m : InnerModel} {v j : Json} (hj : decodeField "name" (.option .string) v = .ok j) :
    m.set "name" v = .ok (m.withName j.str?) := by
  simp [set, hj, bind, Except.bind, pure, Except.pure]

theorem set_description {m : InnerModel} {v j : Json}
    (hj : decodeField "description" (.option .string) v = .ok j) :
    m.set "description" v = .ok (m.withDescription j.str?) := by
  simp [set, hj, bind, Except.bind, pure, Except.pure]

/-- Whether an inner model's assignment fails, and how, does not depend on the model. -/
theorem set_rel (m m' : InnerModel) (p : String) (v : Json) :
    Except.Rel (fun _ _ => True) (m.set p v) (m'.set p v) := by
  unfold set
  split_ifs
  · exact .bind_same _ fun _ => .ok trivial
  · exact .bind_same _ fun _ => .ok trivial
  · exact .error _

theorem withName_withDescription (m : InnerModel) (x y : Option String) :
    (m.withName x).withDescription y = (m.withDescription y).withName x := by
  simp [withName, withDescription, Tracker.mark_comm]

/-- Assignments of the two fields of an inner model commute. -/
theorem Sets.diamond {v w : Json} {m mp mq : InnerModel} {p q : String} (hpq : p ≠ q)
    (hp : Sets v m p mp) (hq : Sets w m q mq) : ∃ m', mp.set q w = .ok m' ∧ mq.set p v = .ok m' := by
  cases hp with
  | name j hj =>
    cases hq with
    | name j' _ => exact absurd rfl hpq
    | description j' hj' =>
      exact ⟨_, set_description hj', by rw [set_name hj, withName_withDescription]⟩
  | description j hj =>
    cases hq with
    | name j' hj' =>
      exact ⟨_, set_name hj', by rw [set_description hj, withName_withDescription]⟩
    | description j' _ => exact absurd rfl hpq

end InnerModel

/-! ## Paths -/

/-- A path that is its own head parts by its head from every path it does not reach into. -/
theorem pathHead_ne_of_self {p q : String} (hp : pathHead p = p) (hpq : ¬ SegmentPrefix p q) :
    pathHead p ≠ pathHead q := by
  rw [hp]
  intro h
  exact hpq (h ▸ segmentPrefix_pathHead q)

/-! ## Fish -/

namespace Fish

/-- A shark's weight; other fish have none. -/
def weight? : Fish → Option Int32
  | shark _ w => w
  | _ => none

/-- A salmon's partner; other fish have none. -/
def partner? : Fish → Option Fish
  | salmon _ p => p
  | _ => none

/-- Two fish of one variant and kind hold the same under the top-level field `a`: what an
assignment of a path starting with `a` reads and writes. -/
structure SameAt (f g : Fish) (a : String) : Prop where
  modelName : f.modelName = g.modelName
  kind : f.kind = g.kind
  id : a = "id" → f.core.id = g.core.id
  name : a = "name" → f.core.name = g.core.name
  age : a = "age" → f.core.age = g.core.age
  color : a = "color" → f.core.color = g.core.color
  weight : a = "weight" → f.weight? = g.weight?
  partner : a = "partner" → f.partner? = g.partner?

theorem sameAt_equivalence (a : String) : Equivalence fun f g : Fish => SameAt f g a where
  refl _ := ⟨rfl, rfl, fun _ => rfl, fun _ => rfl, fun _ => rfl, fun _ => rfl, fun _ => rfl,
    fun _ => rfl⟩
  symm h := ⟨h.modelName.symm, h.kind.symm, fun e => (h.id e).symm, fun e => (h.name e).symm,
    fun e => (h.age e).symm, fun e => (h.color e).symm, fun e => (h.weight e).symm,
    fun e => (h.partner e).symm⟩
  trans h h' := ⟨h.modelName.trans h'.modelName, h.kind.trans h'.kind,
    fun e => (h.id e).trans (h'.id e), fun e => (h.name e).trans (h'.name e),
    fun e => (h.age e).trans (h'.age e), fun e => (h.color e).trans (h'.color e),
    fun e => (h.weight e).trans (h'.weight e), fun e => (h.partner e).trans (h'.partner e)⟩

/-- Fish that hold the same everywhere and have one tracker are one fish. -/
theorem eq_of_sameAt {f g : Fish} (h : ∀ a, SameAt f g a) (ht : f.tracker = g.tracker) : f = g := by
  have hid := (h "id").id rfl
  have hname := (h "name").name rfl
  have hage := (h "age").age rfl
  have hcolor := (h "color").color rfl
  have hweight := (h "weight").weight rfl
  have hpartner := (h "partner").partner rfl
  have hmodel := (h "").modelName
  have hkind := (h "").kind
  -- the name of the model fixes the variant, and the kind that of another fish
  cases f with
  | shark c w =>
    cases g <;> simp only [modelName, String.reduceEq] at hmodel
    obtain ⟨⟩ := c
    simp_all [core, tracker, weight?]
  | salmon c p =>
    cases g <;> simp only [modelName, String.reduceEq] at hmodel
    obtain ⟨⟩ := c
    simp_all [core, tracker, partner?]
  | other k c =>
    cases g <;> simp only [modelName, String.reduceEq] at hmodel
    obtain ⟨⟩ := c
    simp_all [core, tracker, kind]

@[simp] theorem modelName_withCore (f : Fish) (c : FishCore) : (f.withCore c).modelName = f.modelName := by
  cases f <;> rfl

@[simp] theorem weight?_withCore (f : Fish) (c : FishCore) : (f.withCore c).weight? = f.weight? := by
  cases f <;> rfl

@[simp] theorem partner?_withCore (f : Fish) (c : FishCore) : (f.withCore c).partner? = f.partner? := by
  cases f <;> rfl

/-! ### Each setter, applied with one value to fish that agree, keeps them agreeing -/

namespace SameAt

variable {f g : Fish} {a : String}

theorem withName (h : SameAt f g a) (x : Option String) : SameAt (f.withName x) (g.withName x) a := by
  obtain ⟨_, _, _, -, _, _, _, _⟩ := h
  constructor <;> simp_all [Fish.withName, kind_withCore]

theorem withAge (h : SameAt f g a) (x : Option Int32) : SameAt (f.withAge x) (g.withAge x) a := by
  obtain ⟨_, _, _, _, -, _, _, _⟩ := h
  constructor <;> simp_all [Fish.withAge, kind_withCore]

theorem withColor (h : SameAt f g a) (x : Option String) : SameAt (f.withColor x) (g.withColor x) a := by
  obtain ⟨_, _, _, _, _, -, _, _⟩ := h
  constructor <;> simp_all [Fish.withColor, kind_withCore]

theorem withWeight (h : SameAt f g a) (x : Option Int32) : SameAt (f.withWeight x) (g.withWeight x) a := by
  have hmodel := h.modelName
  -- only sharks change, and the name of the model says both are sharks or neither is
  cases f <;> cases g <;> simp only [Fish.modelName, String.reduceEq] at hmodel
  · exact ⟨rfl, rfl, h.id, h.name, h.age, h.color, fun _ => rfl, h.partner⟩
  · exact h
  · exact h

theorem withPartner (h : SameAt f g a) (x : Option Fish) :
    SameAt (f.withPartner x) (g.withPartner x) a := by
  have hmodel := h.modelName
  cases f <;> cases g <;> simp only [Fish.modelName, String.reduceEq] at hmodel
  · exact h
  · exact ⟨rfl, rfl, h.id, h.name, h.age, h.color, h.weight, fun _ => rfl⟩
  · exact h

end SameAt

/-! ### One assignment works at the head of its path -/

theorem SetsCommon.pathHead {v : Json} {f f' : Fish} {p : String} (h : SetsCommon v f p f') :
    pathHead p = p := by
  cases h <;> rfl

theorem SetsCommon.sameAt {v : Json} {f f' : Fish} {p : String} (h : SetsCommon v f p f') {a : String}
    (ha : a ≠ p) : SameAt f f' a := by
  cases h with
  | name f j _ => constructor <;> simp_all [withName, kind_withCore]
  | age f j _ => constructor <;> simp_all [withAge, kind_withCore]
  | color f j _ => constructor <;> simp_all [withColor, kind_withCore]
  | weight c w j _ =>
    constructor <;> simp_all [withWeight, FishCore.mark, core, kind, modelName, weight?, partner?]

/-- **Frame.** A successful assignment leaves alone every top-level field but the head of its
path. -/
theorem Sets.sameAt {v : Json} {f f' : Fish} {p : String} (h : Sets v f p f') {a : String}
    (ha : a ≠ pathHead p) : SameAt f f' a := by
  cases h with
  | common hc => exact hc.sameAt (hc.pathHead ▸ ha)
  | partner c p np _ =>
    change a ≠ "partner" at ha
    constructor <;> simp_all [FishCore.mark, core, Fish.kind, modelName, weight?, partner?]
  | throughPartner c q q' field rest hd _ _ =>
    rw [pathHead_of_dropPrefix? hd] at ha
    constructor <;> simp_all [FishCore.mark, core, Fish.kind, modelName, weight?, partner?]

/-- A successful assignment is what the relation says it is. -/
theorem SetsCommon.setCommon {v : Json} {f f' : Fish} {p : String} (h : SetsCommon v f p f') :
    f.setCommon p v = .ok f' := by
  cases h with
  | name f j hj | age f j hj | color f j hj => simp [Fish.setCommon, hj, bind, Except.bind, pure, Except.pure]
  | weight c w j hj => simp [Fish.setCommon, hj, bind, Except.bind, pure, Except.pure]

theorem Sets.setMember_eq_ok {v : Json} {f f' : Fish} {p : String} (h : Sets v f p f') :
    f.setMember p v = .ok f' := by
  induction h with
  | @common f f' p hc =>
    have hd : dropPrefix? p "partner." = none := by cases hc <;> rfl
    have hne : p ≠ "partner" := by cases hc <;> decide
    rw [setMember_of_common hd hne]
    exact hc.setCommon
  | partner c p np hnp =>
    rw [Fish.setMember, show dropPrefix? "partner" "partner." = none from rfl, if_pos rfl, hnp]
    rfl
  | throughPartner c q q' field rest hd hkind _ ih =>
    rw [Fish.setMember, hd]
    simp only [hkind, ↓reduceIte, ih]
    rfl

theorem setMember_of_not_salmon {f : Fish} (hf : f.modelName ≠ "Salmon") (p : String) (v : Json) :
    f.setMember p v = f.setCommon p v := by
  cases f with
  | salmon => exact absurd rfl hf
  | shark | other => rw [setMember.eq_def]

theorem setCommon_congr {f g : Fish} {p : String} (h : SameAt f g (pathHead p)) (v : Json) :
    Except.Rel (fun f' g' => SameAt f' g' (pathHead p)) (f.setCommon p v) (g.setCommon p v) := by
  have hmodel := h.modelName
  unfold setCommon
  split_ifs
  · rw [hmodel]
    exact .error _
  · exact .bind_same _ fun _ => .ok (h.withName _)
  · exact .bind_same _ fun _ => .ok (h.withAge _)
  · exact .bind_same _ fun _ => .ok (h.withColor _)
  -- a shark's weight, or no field at all: both fish are of one variant
  · cases f <;> cases g <;> simp only [modelName, String.reduceEq] at hmodel
    · exact .bind_same _ fun _ => .ok (h.withWeight _)
    all_goals exact .error _
  · cases f <;> cases g <;> simp only [modelName, String.reduceEq] at hmodel <;> exact .error _

/-- **Congruence.** What an assignment does depends only on what the fish holds under the head
of its path. -/
theorem setMember_congr {f g : Fish} {p : String} (h : SameAt f g (pathHead p)) (v : Json) :
    Except.Rel (fun f' g' => SameAt f' g' (pathHead p)) (f.setMember p v) (g.setMember p v) := by
  by_cases hf : f.modelName = "Salmon"
  swap
  · rw [setMember_of_not_salmon hf, setMember_of_not_salmon (h.modelName ▸ hf)]
    exact setCommon_congr h v
  have hmodel := h.modelName
  cases f <;> cases g <;> simp only [modelName, String.reduceEq] at hf hmodel
  rename_i c p₁ d p₂
  rw [setMember, setMember]
  cases hd : dropPrefix? p "partner." with
  | some rest =>
    -- a path into the partner: both salmons have the same partner
    have hpartner : p₁ = p₂ := h.partner (pathHead_of_dropPrefix? hd)
    subst hpartner
    cases p₁ with
    | none => exact .error _
    | some q =>
      dsimp only
      split_ifs
      · exact .error _
      · exact .bind_same _ fun q' => .ok (h.withPartner (some q'))
  | none =>
    dsimp only
    split_ifs
    · exact .bind_same _ fun np => .ok (h.withPartner np)
    · exact setCommon_congr h v

/-- An assignment of a fish is a step at the head of its path. -/
theorem localStep_setMember (p : String) (v : Json) :
    LocalStep (fun a f g => SameAt f g a) Fish.tracker (fun f => f.setMember p v) (pathHead p) where
  frame h _ hb := (setMember_ok h).sameAt hb
  mark h := (setMember_ok h).tracker
  congr h := setMember_congr h v

theorem Sets.diamond_of_pathHead_ne {v w : Json} {f fp fq : Fish} {p q : String}
    (hp : Sets v f p fp) (hq : Sets w f q fq) (hhead : pathHead p ≠ pathHead q) :
    ∃ f', fp.setMember q w = .ok f' ∧ fq.setMember p v = .ok f' :=
  LocalStep.diamond sameAt_equivalence (fun _ _ => eq_of_sameAt) (localStep_setMember p v)
    (localStep_setMember q w) hhead hp.setMember_eq_ok hq.setMember_eq_ok

/-- A path under the partner that is not the partner itself is a path into it. -/
theorem dropPrefix?_of_pathHead {q : String} (hq : pathHead q = "partner") (hne : q ≠ "partner") :
    ∃ rest, dropPrefix? q "partner." = some rest := by
  cases hs : splitOnce q '.' with
  | none =>
    rw [pathHead_of_splitOnce_none hs] at hq
    exact absurd hq hne
  | some km =>
    obtain ⟨head, rest⟩ := km
    rw [pathHead_of_splitOnce hs] at hq
    subst hq
    rw [eq_of_splitOnce hs, show "partner" ++ "." ++ rest = "partner." ++ rest from rfl]
    exact ⟨rest, dropPrefix?_dotted _ _⟩

/-- Assignments of two independent paths of a fish, each successful alone, succeed in either
order and end alike. Paths under two heads are steps at two places; two paths into the partner
are, one level down, two independent paths of the partner. -/
theorem Sets.diamond {v w : Json} {f fp fq : Fish} {p q : String} (hp : Sets v f p fp)
    (hq : Sets w f q fq) (hpq : ¬ SegmentPrefix p q) (hqp : ¬ SegmentPrefix q p) :
    ∃ f', fp.setMember q w = .ok f' ∧ fq.setMember p v = .ok f' := by
  induction hp generalizing q fq with
  | common hc =>
    exact (Sets.common hc).diamond_of_pathHead_ne hq (pathHead_ne_of_self hc.pathHead hpq)
  | partner c p₀ np hnp =>
    exact (Sets.partner c p₀ np hnp).diamond_of_pathHead_ne hq (pathHead_ne_of_self rfl hpq)
  | throughPartner c q₀ q₀' p rest hd hkind hs ih =>
    by_cases hhead : pathHead p = pathHead q
    swap
    · exact (Sets.throughPartner c q₀ q₀' p rest hd hkind hs).diamond_of_pathHead_ne hq hhead
    -- both paths go into the partner
    rw [pathHead_of_dropPrefix? hd] at hhead
    cases hq with
    | common hc =>
      rw [hc.pathHead] at hhead
      subst hhead
      exact absurd (segmentPrefix_partner hd) hqp
    | partner _ _ np _ => exact absurd (segmentPrefix_partner hd) hqp
    | throughPartner _ _ q₀'' q rest' hd' hkind' hs' =>
      obtain ⟨q'', h₁, h₂⟩ :=
        ih hs' (not_segmentPrefix_partner hd hd' hpq) (not_segmentPrefix_partner hd' hd hqp)
      exact ⟨_, (Sets.throughPartner _ q₀' q'' q rest' hd' hkind' (setMember_ok h₁)).setMember_eq_ok,
        (Sets.throughPartner _ q₀'' q'' p rest hd hkind (setMember_ok h₂)).setMember_eq_ok⟩

/-- An assignment that fails fails alike after a successful assignment of an independent
path. -/
theorem Sets.setMember_error {v w : Json} {f fq : Fish} {p q : String} {e : ModelError}
    (hq : Sets w f q fq) (hp : f.setMember p v = .error e) (hpq : ¬ SegmentPrefix p q)
    (hqp : ¬ SegmentPrefix q p) : fq.setMember p v = .error e := by
  induction hq generalizing p with
  | common hc =>
    exact (localStep_setMember p v).error_stable (localStep_setMember _ w)
      (pathHead_ne_of_self hc.pathHead hqp).symm hp (Sets.common hc).setMember_eq_ok
  | partner c p₀ np hnp =>
    exact (localStep_setMember p v).error_stable (localStep_setMember _ w)
      (pathHead_ne_of_self rfl hqp).symm hp (Sets.partner c p₀ np hnp).setMember_eq_ok
  | throughPartner c q₀ q₀' q rest hd hkind hs ih =>
    by_cases hhead : pathHead p = pathHead q
    swap
    · exact (localStep_setMember p v).error_stable (localStep_setMember q w) hhead hp
        (Sets.throughPartner c q₀ q₀' q rest hd hkind hs).setMember_eq_ok
    -- both paths go into the partner, where the assignment fails alike
    rw [pathHead_of_dropPrefix? hd] at hhead
    obtain ⟨rest', hd'⟩ := dropPrefix?_of_pathHead hhead fun h => hpq (h ▸ segmentPrefix_partner hd)
    rw [Fish.setMember, hd'] at hp ⊢
    dsimp only at hp ⊢
    split_ifs at hp ⊢
    · exact hp
    · cases hx : q₀.setMember rest' v with
      | error e' =>
        rw [hx] at hp
        cases hp
        rw [ih hx (not_segmentPrefix_partner hd' hd hpq) (not_segmentPrefix_partner hd hd' hqp)]
        rfl
      | ok q' =>
        rw [hx] at hp
        cases hp

theorem set_diamond {v w : Json} {f fp fq : Fish} {p q : String} (hp : f.set p v = .ok fp)
    (hq : f.set q w = .ok fq) (hpq : ¬ SegmentPrefix p q) (hqp : ¬ SegmentPrefix q p) :
    ∃ f', fp.set q w = .ok f' ∧ fq.set p v = .ok f' := by
  obtain ⟨hpk, hp⟩ := set_ok hp
  obtain ⟨hqk, hq⟩ := set_ok hq
  simp only [set, hpk, hqk, ↓reduceIte]
  exact hp.diamond hq hpq hqp

theorem set_error {v w : Json} {f fq : Fish} {p q : String} {e : ModelError}
    (hq : f.set q w = .ok fq) (hp : f.set p v = .error e) (hpq : ¬ SegmentPrefix p q)
    (hqp : ¬ SegmentPrefix q p) : fq.set p v = .error e := by
  unfold set at hp ⊢
  split_ifs at hp ⊢
  · exact hp
  · exact (set_ok hq).2.setMember_error hp hpq hqp

end Fish

/-! ## Resources -/

namespace Resource

theorem sameAt_equivalence (a : String) : Equivalence fun r r' : Resource => SameAt r r' a where
  refl _ := by simp [SameAt]
  symm h := by grind [SameAt]
  trans h h' := by grind [SameAt]

/-- Resources that hold the same in every field and have one tracker are one resource. -/
theorem eq_of_sameAt {r r' : Resource} (h : ∀ a, SameAt r r' a) (ht : r.tracker = r'.tracker) :
    r = r' := by
  cases r
  cases r'
  simp_all [SameAt]

/-- **Congruence.** What an assignment does depends only on what the resource holds in the field
its path starts with. -/
theorem set_congr {r r' : Resource} {p : String} (h : SameAt r r' (pathHead p)) (v : Json) :
    Except.Rel (fun x y => SameAt x y (pathHead p)) (r.set p v) (r'.set p v) := by
  cases hs : splitOnce p '.' with
  | some km =>
    obtain ⟨head, rest⟩ := km
    rw [pathHead_of_splitOnce hs] at h ⊢
    obtain ⟨-, -, -, hmap, -, -, -, hinner, -, hfish⟩ := h
    rw [set_dotted hs, set_dotted hs]
    unfold setNested
    split_ifs with h₁ h₂ h₃
    · rw [hinner h₁]
      exact .bind_same _ fun _ => .ok (by simp [SameAt, mark, h₁])
    · rw [hfish h₂]
      split
      · exact .error _
      · exact .bind_same _ fun _ => .ok (by simp [SameAt, mark, h₂])
    · rw [hmap h₃]
      split
      · exact .bind_same _ fun _ => .ok (by simp [SameAt, mark, h₃])
      · exact .bind_same _ fun _ => .ok (by simp [SameAt, mark, h₃])
    all_goals exact .error _
  | none =>
    -- a field of the resource itself: its new value does not depend on its old one; the
    -- branches of the assignment are taken one by one, both sides at once
    rw [pathHead_of_splitOnce_none hs]
    unfold set
    rw [hs]
    dsimp only
    by_cases h₁ : p = "id" ∨ p = "name"
    · rw [if_pos h₁, if_pos h₁]
      exact .error _
    rw [if_neg h₁, if_neg h₁]
    by_cases h₂ : p = "description"
    · rw [if_pos h₂, if_pos h₂]
      exact .bind_same _ fun _ => .ok (by simp [SameAt, mark, h₂])
    rw [if_neg h₂, if_neg h₂]
    by_cases h₃ : p = "map"
    · rw [if_pos h₃, if_pos h₃]
      split
      · exact .bind_same _ fun _ => .ok (by simp [SameAt, mark, h₃])
      · exact .bind_same _ fun _ => .ok (by simp [SameAt, mark, h₃])
    rw [if_neg h₃, if_neg h₃]
    by_cases h₄ : p = "longValue"
    · rw [if_pos h₄, if_pos h₄]
      exact .bind_same _ fun _ => .ok (by simp [SameAt, mark, h₄])
    rw [if_neg h₄, if_neg h₄]
    by_cases h₅ : p = "intValue"
    · rw [if_pos h₅, if_pos h₅]
      exact .bind_same _ fun _ => .ok (by simp [SameAt, mark, h₅])
    rw [if_neg h₅, if_neg h₅]
    by_cases h₆ : p = "enumValue"
    · rw [if_pos h₆, if_pos h₆]
      exact .bind_same _ fun _ => .ok (by simp [SameAt, mark, h₆])
    rw [if_neg h₆, if_neg h₆]
    by_cases h₇ : p = "innerModelProperty"
    · rw [if_pos h₇, if_pos h₇]
      exact .bind_same _ fun _ => .ok (by simp [SameAt, mark, h₇])
    rw [if_neg h₇, if_neg h₇]
    by_cases h₈ : p = "array"
    · rw [if_pos h₈, if_pos h₈]
      exact .bind_same _ fun _ => .ok (by simp [SameAt, mark, h₈])
    rw [if_neg h₈, if_neg h₈]
    by_cases h₉ : p = "fish"
    · rw [if_pos h₉, if_pos h₉]
      exact .bind_same _ fun _ => .ok (by simp [SameAt, mark, h₉])
    rw [if_neg h₉, if_neg h₉]
    exact .error _

/-- An assignment of a resource is a step at the head of its path. -/
theorem localStep_set (p : String) (v : Json) :
    LocalStep (fun a r r' => SameAt r r' a) Resource.tracker (fun r => r.set p v) (pathHead p) where
  frame h _ hb := (set_ok h).sameAt hb
  mark h := (set_ok h).tracker
  congr h := set_congr h v

/-- What an assignment through the map writes under the entry its path names, from what the
map held there: an entry assigned whole, or a field of the entry, which is created if absent. -/
def entryUpdate (p rest : String) (v : Json) (old : Option (Option InnerModel)) :
    Except ModelError (Option InnerModel) :=
  match splitOnce rest '.' with
  | none => InnerModel.ofTracked p v
  | some (_, member) => some <$> ((old.join).getD {}).set member v

/-- An assignment through the map reads and writes the one entry its path names. -/
theorem setNested_map (r : Resource) (p rest : String) (v : Json) :
    r.setNested p "map" rest v =
      (entryUpdate p rest v (Keyed.get? (r.map.getD []) (pathHead rest)) >>= fun e =>
        pure ({ r with map := some (Keyed.insert (r.map.getD []) (pathHead rest) e) }.mark "map")) := by
  cases hs : splitOnce rest '.' with
  | none =>
    rw [setNested_entry r p rest v hs, pathHead_of_splitOnce_none hs]
    simp only [entryUpdate, hs]
  | some km =>
    obtain ⟨key, member⟩ := km
    rw [setNested_member r p rest key member v hs, pathHead_of_splitOnce hs]
    simp only [entryUpdate, hs]
    cases ((Keyed.get? (r.map.getD []) key).join.getD {}).set member v <;> rfl

/-- Whether an update of an entry fails, and how, does not depend on what the entry held. -/
theorem entryUpdate_rel (p rest : String) (v : Json) (old old' : Option (Option InnerModel)) :
    Except.Rel (fun _ _ => True) (entryUpdate p rest v old) (entryUpdate p rest v old') := by
  unfold entryUpdate
  split
  · exact .refl (fun _ => trivial) _
  · exact (InnerModel.set_rel _ _ _ v).bind fun _ _ _ => .ok trivial

/-- Two independent paths under one head both go below it. -/
theorem splitOnce_of_independent {p q : String} (hhead : pathHead p = pathHead q)
    (hpq : ¬ SegmentPrefix p q) (hqp : ¬ SegmentPrefix q p) :
    ∃ rest rest', splitOnce p '.' = some (pathHead p, rest) ∧
      splitOnce q '.' = some (pathHead p, rest') := by
  cases hs : splitOnce p '.' with
  | none => exact absurd hhead (pathHead_ne_of_self (pathHead_of_splitOnce_none hs) hpq)
  | some km =>
    obtain ⟨head, rest⟩ := km
    rw [pathHead_of_splitOnce hs] at hhead ⊢
    obtain ⟨rest', hq⟩ := splitOnce_of_pathHead_eq hs hhead.symm hqp
    exact ⟨rest, rest', rfl, hq⟩

/-- Two independent assignments inside the inner model. -/
theorem setNested_inner_diamond {v w : Json} {r rp rq : Resource} {p q rest rest' : String}
    (hne : rest ≠ rest') (hp : r.setNested p "innerModelProperty" rest v = .ok rp)
    (hq : r.setNested q "innerModelProperty" rest' w = .ok rq) :
    ∃ r', rp.setNested q "innerModelProperty" rest' w = .ok r' ∧
      rq.setNested p "innerModelProperty" rest v = .ok r' := by
  rw [setNested_inner] at hp hq
  obtain ⟨mp, hmp, hp⟩ := Except.bind_ok_inv hp
  cases hp
  obtain ⟨mq, hmq, hq⟩ := Except.bind_ok_inv hq
  cases hq
  obtain ⟨m', h₁, h₂⟩ := (InnerModel.set_ok hmp).diamond hne (InnerModel.set_ok hmq)
  refine ⟨{ r with innerModelProperty := some m' }.mark "innerModelProperty", ?_, ?_⟩
  · rw [setNested_inner]
    simp only [mark, Option.getD_some, h₁, Tracker.mark_mark, bind_pure_comp, Except.map_ok]
  · rw [setNested_inner]
    simp only [mark, Option.getD_some, h₂, Tracker.mark_mark, bind_pure_comp, Except.map_ok]

/-- Two independent assignments inside the fish. -/
theorem setNested_fish_diamond {v w : Json} {r rp rq : Resource} {p q rest rest' : String}
    (hpq : ¬ SegmentPrefix rest rest') (hqp : ¬ SegmentPrefix rest' rest)
    (hp : r.setNested p "fish" rest v = .ok rp) (hq : r.setNested q "fish" rest' w = .ok rq) :
    ∃ r', rp.setNested q "fish" rest' w = .ok r' ∧ rq.setNested p "fish" rest v = .ok r' := by
  rw [setNested_fish] at hp hq
  cases hf : r.fish with
  | none =>
    rw [hf] at hp
    cases hp
  | some f =>
    rw [hf, Option.elim_some] at hp hq
    obtain ⟨fp, hfp, hp⟩ := Except.bind_ok_inv hp
    cases hp
    obtain ⟨fq, hfq, hq⟩ := Except.bind_ok_inv hq
    cases hq
    obtain ⟨f', h₁, h₂⟩ := Fish.set_diamond hfp hfq hpq hqp
    refine ⟨{ r with fish := some f' }.mark "fish", ?_, ?_⟩
    · rw [setNested_fish]
      simp only [mark, Tracker.mark_mark, bind_pure_comp, Option.elim_some, h₁, Except.map_ok]
    · rw [setNested_fish]
      simp only [mark, Tracker.mark_mark, bind_pure_comp, Option.elim_some, h₂, Except.map_ok]

/-- Two independent assignments through the map: into two entries, which commute, or into two
fields of one entry. -/
theorem setNested_map_diamond {v w : Json} {r rp rq : Resource} {p q rest rest' : String}
    (hpq : ¬ SegmentPrefix rest rest') (hqp : ¬ SegmentPrefix rest' rest)
    (hp : r.setNested p "map" rest v = .ok rp) (hq : r.setNested q "map" rest' w = .ok rq) :
    ∃ r', rp.setNested q "map" rest' w = .ok r' ∧ rq.setNested p "map" rest v = .ok r' := by
  rw [setNested_map] at hp hq
  obtain ⟨x, hx, hp⟩ := Except.bind_ok_inv hp
  cases hp
  obtain ⟨y, hy, hq⟩ := Except.bind_ok_inv hq
  cases hq
  by_cases hkey : pathHead rest = pathHead rest'
  · -- one entry, two fields of it
    obtain ⟨m, m', hs, hs'⟩ := splitOnce_of_independent hkey hpq hqp
    have hm : m ≠ m' := fun h => not_segmentPrefix_rest hs hs' hpq (.inl h.symm)
    simp only [entryUpdate, hs, hs'] at hx hy
    obtain ⟨em, hem, rfl⟩ := Except.map_ok_inv hx
    obtain ⟨em', hem', rfl⟩ := Except.map_ok_inv hy
    rw [← hkey] at hem'
    obtain ⟨e', h₁, h₂⟩ := (InnerModel.set_ok hem).diamond hm (InnerModel.set_ok hem')
    refine ⟨{ r with map := some (Keyed.insert (r.map.getD []) (pathHead rest) (some e')) }.mark "map",
      ?_, ?_⟩
    · rw [setNested_map, ← hkey]
      simp only [entryUpdate, hs', mark, Option.getD_some, Keyed.get?_insert_self, Option.join_some, h₁,
        Except.map_ok, Keyed.insert_insert, Tracker.mark_mark, bind_pure_comp]
    · rw [setNested_map, ← hkey]
      simp only [entryUpdate, hs, mark, Option.getD_some, Keyed.get?_insert_self, Option.join_some, h₂,
        Except.map_ok, Keyed.insert_insert, Tracker.mark_mark, bind_pure_comp]
  · -- two entries: each update reads what the map held, and the insertions commute
    refine ⟨{ r with map := some (Keyed.insert (Keyed.insert (r.map.getD []) (pathHead rest) x)
      (pathHead rest') y) }.mark "map", ?_, ?_⟩
    · rw [setNested_map]
      simp only [mark, Option.getD_some, Keyed.get?_insert_of_ne _ _ hkey, hy, Tracker.mark_mark,
        bind_pure_comp, Except.map_ok]
    · rw [setNested_map]
      simp only [mark, Option.getD_some, Keyed.get?_insert_of_ne _ _ (Ne.symm hkey), hx, Tracker.mark_mark,
        bind_pure_comp, Except.map_ok, Keyed.insert_comm _ hkey]

/-- Below a head other than the inner model, the fish and the map there is nothing to assign. -/
theorem setNested_ne_ok {r r' : Resource} {p head rest : String} {v : Json}
    (h₁ : head ≠ "innerModelProperty") (h₂ : head ≠ "fish") (h₃ : head ≠ "map") :
    r.setNested p head rest v ≠ .ok r' := by
  unfold setNested
  rw [if_neg h₁, if_neg h₂, if_neg h₃]
  split_ifs <;> nofun

/-- Whether an assignment inside the inner model fails, and how, does not depend on the resource. -/
theorem setNested_inner_rel (r r' : Resource) (p rest : String) (v : Json) :
    Except.Rel (fun _ _ => True) (r.setNested p "innerModelProperty" rest v)
      (r'.setNested p "innerModelProperty" rest v) := by
  rw [setNested_inner, setNested_inner]
  exact (InnerModel.set_rel _ _ rest v).bind fun _ _ _ => .ok trivial

/-- Whether an assignment through the map fails, and how, does not depend on the resource. -/
theorem setNested_map_rel (r r' : Resource) (p rest : String) (v : Json) :
    Except.Rel (fun _ _ => True) (r.setNested p "map" rest v) (r'.setNested p "map" rest v) := by
  rw [setNested_map, setNested_map]
  exact (entryUpdate_rel p rest v _ _).bind fun _ _ _ => .ok trivial

/-- Assignments of two independent paths of a resource, each successful alone, succeed in either
order and end alike. -/
theorem set_diamond {v w : Json} {r rp rq : Resource} {p q : String} (hp : r.set p v = .ok rp)
    (hq : r.set q w = .ok rq) (hpq : ¬ SegmentPrefix p q) (hqp : ¬ SegmentPrefix q p) :
    ∃ r', rp.set q w = .ok r' ∧ rq.set p v = .ok r' := by
  by_cases hhead : pathHead p = pathHead q
  swap
  · exact LocalStep.diamond sameAt_equivalence (fun _ _ => eq_of_sameAt) (localStep_set p v)
      (localStep_set q w) hhead hp hq
  -- one head: both paths go below it, into the inner model, the fish or the map
  obtain ⟨rest, rest', hs, hs'⟩ := splitOnce_of_independent hhead hpq hqp
  have hpq' := not_segmentPrefix_rest hs hs' hpq
  have hqp' := not_segmentPrefix_rest hs' hs hqp
  rw [set_dotted hs] at hp ⊢
  rw [set_dotted hs'] at hq ⊢
  by_cases h₁ : pathHead p = "innerModelProperty"
  · rw [h₁] at hp hq ⊢
    exact setNested_inner_diamond (fun h => hpq' (.inl h.symm)) hp hq
  by_cases h₂ : pathHead p = "fish"
  · rw [h₂] at hp hq ⊢
    exact setNested_fish_diamond hpq' hqp' hp hq
  by_cases h₃ : pathHead p = "map"
  · rw [h₃] at hp hq ⊢
    exact setNested_map_diamond hpq' hqp' hp hq
  exact absurd hp (setNested_ne_ok h₁ h₂ h₃)

/-- An assignment of a resource that fails fails alike after a successful assignment of an
independent path. -/
theorem set_error {v w : Json} {r rq : Resource} {p q : String} {e : ModelError}
    (hq : r.set q w = .ok rq) (hp : r.set p v = .error e) (hpq : ¬ SegmentPrefix p q)
    (hqp : ¬ SegmentPrefix q p) : rq.set p v = .error e := by
  by_cases hhead : pathHead p = pathHead q
  swap
  · exact (localStep_set p v).error_stable (localStep_set q w) hhead hp hq
  -- one head: inside the inner model or the map a failure does not depend on the resource,
  -- inside the fish it is the fish's own
  obtain ⟨rest, rest', hs, hs'⟩ := splitOnce_of_independent hhead hpq hqp
  rw [set_dotted hs] at hp ⊢
  rw [set_dotted hs'] at hq
  by_cases h₁ : pathHead p = "innerModelProperty"
  · rw [h₁] at hp ⊢
    exact (setNested_inner_rel r rq p rest v).eq_error hp
  by_cases h₂ : pathHead p = "fish"
  · rw [h₂] at hp hq ⊢
    rw [setNested_fish] at hp hq ⊢
    cases hf : r.fish with
    | none =>
      rw [hf] at hq
      cases hq
    | some f =>
      rw [hf, Option.elim_some] at hp hq
      obtain ⟨fq, hfq, hq⟩ := Except.bind_ok_inv hq
      cases hq
      have hfe := Fish.set_error hfq (Except.error_of_bind_pure hp)
        (not_segmentPrefix_rest hs hs' hpq) (not_segmentPrefix_rest hs' hs hqp)
      simp only [mark, Option.elim_some, hfe]
      rfl
  by_cases h₃ : pathHead p = "map"
  · rw [h₃] at hp ⊢
    exact (setNested_map_rel r rq p rest v).eq_error hp
  exact absurd hq (setNested_ne_ok h₁ h₂ h₃)

end Resource

/-! ## Every model -/

namespace AnyModel

/-- Assignments of two independent paths, each successful alone, succeed in either order and end
alike. -/
theorem set_diamond {v w : Json} {m mp mq : AnyModel} {p q : String} (hp : m.set p v = .ok mp)
    (hq : m.set q w = .ok mq) (hpq : ¬ SegmentPrefix p q) (hqp : ¬ SegmentPrefix q p) :
    ∃ m', mp.set q w = .ok m' ∧ mq.set p v = .ok m' := by
  cases m with
  | resource r =>
    obtain ⟨rp, hrp, rfl⟩ := Except.map_ok_inv hp
    obtain ⟨rq, hrq, rfl⟩ := Except.map_ok_inv hq
    obtain ⟨r', h₁, h₂⟩ := Resource.set_diamond hrp hrq hpq hqp
    exact ⟨resource r', by rw [set, h₁]; rfl, by rw [set, h₂]; rfl⟩
  | inner n =>
    obtain ⟨np, hnp, rfl⟩ := Except.map_ok_inv hp
    obtain ⟨nq, hnq, rfl⟩ := Except.map_ok_inv hq
    -- an inner model has no nested paths: independent paths are two fields
    have hne : p ≠ q := fun h => hpq (.inl h.symm)
    obtain ⟨n', h₁, h₂⟩ := (InnerModel.set_ok hnp).diamond hne (InnerModel.set_ok hnq)
    exact ⟨inner n', by rw [set, h₁]; rfl, by rw [set, h₂]; rfl⟩
  | fish f =>
    obtain ⟨fp, hfp, rfl⟩ := Except.map_ok_inv hp
    obtain ⟨fq, hfq, rfl⟩ := Except.map_ok_inv hq
    obtain ⟨f', h₁, h₂⟩ := Fish.set_diamond hfp hfq hpq hqp
    exact ⟨fish f', by rw [set, h₁]; rfl, by rw [set, h₂]; rfl⟩
  | variant f =>
    obtain ⟨fp, hfp, rfl⟩ := Except.map_ok_inv hp
    obtain ⟨fq, hfq, rfl⟩ := Except.map_ok_inv hq
    obtain ⟨f', h₁, h₂⟩ := (Fish.setMember_ok hfp).diamond (Fish.setMember_ok hfq) hpq hqp
    exact ⟨variant f', by rw [set, h₁]; rfl, by rw [set, h₂]; rfl⟩

/-- An assignment that fails fails alike after a successful assignment of an independent path. -/
theorem set_error {v w : Json} {m mq : AnyModel} {p q : String} {e : ModelError}
    (hq : m.set q w = .ok mq) (hp : m.set p v = .error e) (hpq : ¬ SegmentPrefix p q)
    (hqp : ¬ SegmentPrefix q p) : mq.set p v = .error e := by
  cases m with
  | resource r =>
    obtain ⟨rq, hrq, rfl⟩ := Except.map_ok_inv hq
    rw [set, Resource.set_error hrq (Except.map_error_inv hp) hpq hqp]
    rfl
  | inner n =>
    obtain ⟨nq, hnq, rfl⟩ := Except.map_ok_inv hq
    rw [set, (InnerModel.set_rel n nq p v).eq_error (Except.map_error_inv hp)]
    rfl
  | fish f =>
    obtain ⟨fq, hfq, rfl⟩ := Except.map_ok_inv hq
    rw [set, Fish.set_error hfq (Except.map_error_inv hp) hpq hqp]
    rfl
  | variant f =>
    obtain ⟨fq, hfq, rfl⟩ := Except.map_ok_inv hq
    rw [set, (Fish.setMember_ok hfq).setMember_error (Except.map_error_inv hp) hpq hqp]
    rfl

/-- An assignment fails, and with which error, alike before and after an assignment of an
independent path, whether that one succeeded or not. -/
theorem set_error_after {v w : Json} (kind : ModelKind) (m : AnyModel) {p q : String}
    (hpq : ¬ SegmentPrefix p q) (hqp : ¬ SegmentPrefix q p) (e : ModelError) :
    (m.runCalls kind [.set q w]).set p v = .error e ↔ m.set p v = .error e := by
  simp only [runCalls, after_eq kind, perform]
  cases hq : m.set q w with
  | error _ => rfl
  | ok mq =>
    show mq.set p v = .error e ↔ _
    constructor
    · intro h
      cases hp : m.set p v with
      | error e' => rw [set_error hq hp hpq hqp] at h; exact h
      | ok mp =>
        obtain ⟨m', -, h₂⟩ := set_diamond hp hq hpq hqp
        rw [h₂] at h
        cases h
    · exact fun hp => set_error hq hp hpq hqp

end AnyModel

/-- **Independent assignments commute**, for every model. Of two assignments of paths neither of
which reaches into the other, each succeeds or fails, with the same error, whether it is made
first or after the other, and the two orders end in one model: every field, and every tracker
at every depth. -/
theorem independent_assignments_commute (kind : ModelKind) (m : AnyModel) {p q : String}
    (hpq : ¬ SegmentPrefix p q) (hqp : ¬ SegmentPrefix q p) (v w : Json) :
    (∀ e, (m.runCalls kind [.set q w]).set p v = .error e ↔ m.set p v = .error e) ∧
    (∀ e, (m.runCalls kind [.set p v]).set q w = .error e ↔ m.set q w = .error e) ∧
    m.runCalls kind [.set p v, .set q w] = m.runCalls kind [.set q w, .set p v] := by
  refine ⟨AnyModel.set_error_after kind m hpq hqp, AnyModel.set_error_after kind m hqp hpq, ?_⟩
  simp only [AnyModel.runCalls, AnyModel.after_eq kind, AnyModel.perform]
  -- each assignment succeeds or fails on its own; a failure changes nothing
  cases hp : m.set p v with
  | ok mp =>
    cases hq : m.set q w with
    | ok mq =>
      obtain ⟨m', h₁, h₂⟩ := AnyModel.set_diamond hp hq hpq hqp
      simp only [Except.toOption, Option.getD_some, h₁, h₂]
    | error eq => simp only [Except.toOption, Option.getD_some, Option.getD_none, hp,
        AnyModel.set_error hp hq hqp hpq]
  | error ep =>
    cases hq : m.set q w with
    | ok mq => simp only [Except.toOption, Option.getD_some, Option.getD_none, hq,
        AnyModel.set_error hq hp hpq hqp]
    | error eq => simp only [Except.toOption, Option.getD_none, hp, hq]

/-- A new resource given two fields of one map entry that neither assignment finds: both orders
create the entry and end alike. -/
theorem independent_assignments_commute_entry :
    ¬ SegmentPrefix "map.a.name" "map.a.description" ∧
      ¬ SegmentPrefix "map.a.description" "map.a.name" ∧
      (AnyModel.resource {}).runCalls .resource
          [.set "map.a.name" (.string "x"), .set "map.a.description" (.string "y")] =
        (AnyModel.resource {}).runCalls .resource
          [.set "map.a.description" (.string "y"), .set "map.a.name" (.string "x")] := by
  have h₁ : ¬ SegmentPrefix "map.a.name" "map.a.description" := fun h => absurd h.prefix (by decide)
  have h₂ : ¬ SegmentPrefix "map.a.description" "map.a.name" := fun h => absurd h.prefix (by decide)
  exact ⟨h₁, h₂, (independent_assignments_commute .resource _ h₁ h₂ _ _).2.2⟩

end MergePatch
