import MergePatch.Proofs.TextValues
/-!
# Text nested too deep

The reader of JSON text allows 127 nested containers. `Json.parse_deep`: the compact text of a
value that nests more does not parse, whatever else it holds. `ReadM.FailsAny` states that the
reading of one value's text stops with an error; `ReadM.any_deep` proves it for every value
nested deeper than the allowance, by induction on the fuel as `ReadM.any_compact` does. In a
container, the elements before the first one too deep are read in full, that one stops the
loop, and the error passes through the closing of every container around it.
-/

namespace MergePatch

namespace Json

theorem exists_deeper_element {items : List Json} {m : Nat} (h : m < depth.depthList items) :
    ∃ y ∈ items, m < y.depth := by
  by_contra hn
  simp only [not_exists, not_and, not_lt] at hn
  exact absurd (depthList_le hn) (by omega)

theorem exists_deeper_member {fields : List (String × Json)} {m : Nat} (h : m < depth.depthFields fields) :
    ∃ p ∈ fields, m < p.2.depth := by
  by_contra hn
  simp only [not_exists, not_and, not_lt] at hn
  exact absurd (depthFields_le hn) (by omega)

/-- The first entry whose measure reaches `m`, with the entries before it. -/
theorem exists_first_reaching {β : Type} (f : β → Nat) {xs : List β} {m : Nat}
    (h : ∃ y ∈ xs, m ≤ f y) : ∃ pre y post, xs = pre ++ y :: post ∧ m ≤ f y ∧ ∀ x ∈ pre, f x < m := by
  cases hf : xs.find? (fun x => decide (m ≤ f x)) with
  | none =>
    obtain ⟨y, hy, hfy⟩ := h
    have := List.find?_eq_none.1 hf y hy
    simp [hfy] at this
  | some y =>
    obtain ⟨hy, pre, post, rfl, hpre⟩ := List.find?_eq_some_iff_append.1 hf
    exact ⟨pre, y, post, rfl, by simpa using hy, fun x hx => by simpa using hpre x hx⟩

end Json

namespace ReadM

open Text

variable {α β : Type} {input : ByteArray} {pos d : Nat}

theorem placed_fails {act : ReadM α} {c : Cursor} (h : ∃ e c', act c = .error e c') :
    ∃ e c', placed act c = .error e c' := by
  obtain ⟨e, c', h⟩ := h
  refine ⟨e.placeAt (Position.after c'.input c'.pos), c', ?_⟩
  show EStateM.tryCatch act _ c = _
  simp [EStateM.tryCatch, h]
  rfl

theorem map_error {x : ReadM α} {f : α → β} {c c' : Cursor} {e : ReadError} (h : x c = .error e c') :
    (f <$> x) c = .error e c' := by
  show EStateM.map f x c = _
  simp [EStateM.map, h]

theorem enter_error (hd : d ≤ 1) : ∃ e c, enter ⟨input, pos, d⟩ = .error e c := by
  unfold enter
  rw [bind_ok (get_eq _), if_pos hd]
  exact ⟨_, _, rfl⟩

/-- A container opened with no nesting left stops at its bracket. -/
theorem within_enter_error {body : ReadM α} {close : ReadM (Option ReadError)} (hd : d ≤ 1) :
    ∃ e c, within body close ⟨input, pos, d⟩ = .error e c := by
  obtain ⟨e, c, h⟩ := @enter_error input pos d hd
  unfold within
  exact ⟨e, c, bind_error h⟩

/-- A container whose contents stop with an error stops with an error, once closed from there. -/
theorem within_error {body : ReadM α} {close : ReadM (Option ReadError)} {e : ReadError} {c' : Cursor}
    (hd : 2 ≤ d) (hbody : body ⟨input, pos + 1, d - 1⟩ = .error e c') :
    ∃ e' c'', within body close ⟨input, pos, d⟩ = .error e' c'' := by
  have hattempt : attempt body ⟨input, pos + 1, d - 1⟩ = .ok (.error e) c' := by
    show EStateM.tryCatch _ _ _ = _
    simp [EStateM.tryCatch, Functor.map, EStateM.map, hbody]
    rfl
  unfold within
  rw [bind_ok (enter_ok hd), bind_ok (bump_eq _), bind_ok hattempt]
  simp only [leave, bind_ok (modify_eq _ _)]
  cases hclose : close { c' with depth := c'.depth + 1 } with
  | error e₂ c₂ => exact ⟨e₂, c₂, bind_error hclose⟩
  | ok closing c₂ =>
    rw [bind_ok hclose]
    exact ⟨e, c₂, by cases closing <;> rfl⟩

/-- Reading the text of `j` by `any fuel` stops with an error when `j` nests more containers
than the allowance `d`. -/
def FailsAny (fuel : Nat) (j : Json) : Prop :=
  ∀ {input : ByteArray} {pos d : Nat}, 1 ≤ d → d ≤ j.depth → At input pos (bytes j.compact) →
    ∃ e c, any fuel ⟨input, pos, d⟩ = .error e c

section Elements

variable (fuel : Nat) {y : Json}

/-- Elements after the first, up to one that stops with an error: the loop stops with it. The
induction is on the elements before it, each read in full. -/
theorem anyElements_rest_fail (hy : y.Canonical) (hfail : FailsAny fuel y) (hd : 1 ≤ d)
    (hdeep : d ≤ y.depth) (post : List Json) :
    ∀ (pre acc : List Json) (steps pos : Nat),
      (∀ x ∈ pre, ReadsAny fuel x ∧ x.Canonical ∧ x.depth < d) → pre.length < steps →
      At input pos (Json.restBytes (pre ++ y :: post) ++ [93]) →
      ∃ e c, anyElements fuel false acc steps ⟨input, pos, d⟩ = .error e c
  | [], acc, steps, pos, _, hsteps, h => by
    obtain ⟨s, rfl⟩ : ∃ s, steps = s + 1 := ⟨steps - 1, by simp at hsteps; omega⟩
    obtain ⟨b, rest, hbytes, hblank, h93, -⟩ := compact_head hy
    have h' : At input pos (44 :: (bytes y.compact ++ (Json.restBytes post ++ [93]))) := by
      simpa [Json.restBytes] using h
    obtain ⟨hc, hafter⟩ := at_cons.1 h'
    have hyat := (at_append.1 hafter).1
    have hb : input[pos + 1]? = some b := by
      rw [hbytes] at hyat
      exact (at_cons.1 hyat).1
    obtain ⟨e, c, he⟩ := hfail hd hdeep hyat
    rw [anyElements_comma_step fuel hc hb hblank h93]
    exact ⟨e, c, bind_error he⟩
  | x :: pre, acc, steps, pos, hpre, hsteps, h => by
    obtain ⟨s, rfl⟩ : ∃ s, steps = s + 1 := ⟨steps - 1, by simp at hsteps; omega⟩
    obtain ⟨hx, hxc, hxd⟩ := hpre x List.mem_cons_self
    have h' : At input pos (44 :: (bytes x.compact ++ (Json.restBytes (pre ++ y :: post) ++ [93]))) := by
      simpa [Json.restBytes] using h
    rw [anyElements_comma fuel hx hxc hxd (restBytes_head _) acc s h']
    exact anyElements_rest_fail hy hfail hd hdeep post pre _ s _
      (fun x hx => hpre x (List.mem_cons_of_mem _ hx)) (by simp at hsteps; omega)
      (at_append.1 (at_cons.1 h').2).2

/-- The elements of an array, up to one that stops with an error: the loop stops with it. -/
theorem anyElements_first_fail (hy : y.Canonical) (hfail : FailsAny fuel y) (hd : 1 ≤ d)
    (hdeep : d ≤ y.depth) {pre post : List Json}
    (hpre : ∀ x ∈ pre, ReadsAny fuel x ∧ x.Canonical ∧ x.depth < d) {steps : Nat}
    (hsteps : pre.length < steps) (h : At input pos (bytes (Json.compactList (pre ++ y :: post)) ++ [93])) :
    ∃ e c, anyElements fuel true [] steps ⟨input, pos, d⟩ = .error e c := by
  obtain ⟨s, rfl⟩ : ∃ s, steps = s + 1 := ⟨steps - 1, by omega⟩
  cases pre with
  | nil =>
    obtain ⟨b, rest, hbytes, hblank, h93, -⟩ := compact_head hy
    rw [List.nil_append, Json.bytes_compactList, List.append_assoc] at h
    have hyat := (at_append.1 h).1
    have hb : input[pos]? = some b := by
      rw [hbytes] at hyat
      exact (at_cons.1 hyat).1
    obtain ⟨e, c, he⟩ := hfail hd hdeep hyat
    rw [anyElements_first_step fuel hb hblank h93]
    exact ⟨e, c, bind_error he⟩
  | cons x pre =>
    obtain ⟨hx, hxc, hxd⟩ := hpre x List.mem_cons_self
    obtain ⟨b, rest, hbytes, hblank, h93, -⟩ := compact_head hxc
    rw [List.cons_append, Json.bytes_compactList, List.append_assoc] at h
    obtain ⟨hxat, hrest⟩ := at_append.1 h
    have hb : input[pos]? = some b := by
      rw [hbytes] at hxat
      exact (at_cons.1 hxat).1
    obtain ⟨e, erest, he, hend⟩ := restBytes_head (pre ++ y :: post)
    have hends : EndsValue input (pos + (bytes x.compact).length) := by
      rw [he] at hrest
      exact EndsValue.of_getElem? (at_cons.1 hrest).1 hend
    rw [anyElements_first_step fuel hb hblank h93, bind_ok (hx hxd hxat hends)]
    exact anyElements_rest_fail fuel hy hfail hd hdeep post pre _ s _
      (fun x hx => hpre x (List.mem_cons_of_mem _ hx)) (by simp at hsteps; omega) hrest

end Elements

section Members

variable (fuel : Nat) {k : String} {y : Json}

/-- Members after the first, up to one whose value stops with an error: the loop stops with it.
The induction is on the members before it, each read in full. -/
theorem anyMembers_rest_fail (hfail : FailsAny fuel y) (hd : 1 ≤ d) (hdeep : d ≤ y.depth)
    (post : List (String × Json)) :
    ∀ (pre : List (String × Json)) (acc : Fields) (steps pos : Nat),
      (∀ p ∈ pre, ReadsAny fuel p.2 ∧ p.2.depth < d) → pre.length < steps →
      At input pos (Json.restMembers (pre ++ (k, y) :: post) ++ [125]) →
      ∃ e c, anyMembers fuel false acc steps ⟨input, pos, d⟩ = .error e c
  | [], acc, steps, pos, _, hsteps, h => by
    obtain ⟨s, rfl⟩ : ∃ s, steps = s + 1 := ⟨steps - 1, by simp at hsteps; omega⟩
    have h' : At input pos (44 :: (Json.memberBytes (k, y) ++ (Json.restMembers post ++ [125]))) := by
      simpa [Json.restMembers] using h
    obtain ⟨hc, hafter⟩ := at_cons.1 h'
    obtain ⟨hk, hcolon, hyat, -⟩ := at_member hafter
    obtain ⟨e, c, he⟩ := hfail hd hdeep hyat
    rw [anyMembers_comma_step fuel (at_cons.2 ⟨hc, hk⟩) hcolon]
    exact ⟨e, c, bind_error he⟩
  | (k', x) :: pre, acc, steps, pos, hpre, hsteps, h => by
    obtain ⟨s, rfl⟩ : ∃ s, steps = s + 1 := ⟨steps - 1, by simp at hsteps; omega⟩
    obtain ⟨hx, hxd⟩ := hpre (k', x) List.mem_cons_self
    have h' : At input pos (44 :: (Json.memberBytes (k', x) ++
        (Json.restMembers (pre ++ (k, y) :: post) ++ [125]))) := by
      simpa [Json.restMembers] using h
    rw [anyMembers_comma fuel hx hxd (restMembers_head _) acc s h']
    exact anyMembers_rest_fail hfail hd hdeep post pre _ s _
      (fun p hp => hpre p (List.mem_cons_of_mem _ hp)) (by simp at hsteps; omega)
      (by simpa [Nat.add_assoc] using (at_append.1 (at_cons.1 h').2).2)

/-- The members of an object, up to one whose value stops with an error: the loop stops with it. -/
theorem anyMembers_first_fail (hfail : FailsAny fuel y) (hd : 1 ≤ d) (hdeep : d ≤ y.depth)
    {pre post : List (String × Json)} (hpre : ∀ p ∈ pre, ReadsAny fuel p.2 ∧ p.2.depth < d)
    {steps : Nat} (hsteps : pre.length < steps)
    (h : At input pos (bytes (Json.compactFields (pre ++ (k, y) :: post)) ++ [125])) :
    ∃ e c, anyMembers fuel true [] steps ⟨input, pos, d⟩ = .error e c := by
  obtain ⟨s, rfl⟩ : ∃ s, steps = s + 1 := ⟨steps - 1, by omega⟩
  cases pre with
  | nil =>
    rw [List.nil_append, Json.bytes_compactFields, List.append_assoc] at h
    obtain ⟨hk, hcolon, hyat, -⟩ := at_member h
    obtain ⟨e, c, he⟩ := hfail hd hdeep hyat
    rw [anyMembers_first_step fuel hk hcolon]
    exact ⟨e, c, bind_error he⟩
  | cons p pre =>
    obtain ⟨k', x⟩ := p
    obtain ⟨hx, hxd⟩ := hpre (k', x) List.mem_cons_self
    rw [List.cons_append, Json.bytes_compactFields, List.append_assoc] at h
    obtain ⟨hk, hcolon, hxat, hrest⟩ := at_member h
    have hpos : pos + (Json.memberBytes (k', x)).length =
        pos + (bytes (Json.quote k')).length + 1 + (bytes x.compact).length := by
      simp [Json.memberBytes]
      omega
    rw [hpos] at hrest
    obtain ⟨e, erest, he, hend⟩ := restMembers_head (pre ++ (k, y) :: post)
    have hends : EndsValue input (pos + (bytes (Json.quote k')).length + 1 + (bytes x.compact).length) := by
      rw [he] at hrest
      exact EndsValue.of_getElem? (at_cons.1 hrest).1 hend
    rw [anyMembers_first_step fuel hk hcolon, bind_ok (hx hxd hxat hends)]
    exact anyMembers_rest_fail fuel hfail hd hdeep post pre _ s _
      (fun p hp => hpre p (List.mem_cons_of_mem _ hp)) (by simp at hsteps; omega) hrest

end Members

theorem any_array_deep {fuel : Nat} {items : List Json} (hread : ∀ x ∈ items, ReadsAny fuel x)
    (hfail : ∀ x ∈ items, FailsAny fuel x) (hcan : ∀ x ∈ items, x.Canonical) :
    FailsAny (fuel + 1) (.array items) := by
  intro input pos d hd hdeep h
  rw [Json.bytes_compact_array] at h
  obtain ⟨hopen, hinside⟩ := at_cons.1 h
  rw [any]
  apply placed_fails
  rw [bind_ok (skipBlank_at hopen (by decide))]
  simp +decide only [↓reduceIte]
  rw [bind_ok (remaining_eq _)]
  rcases Nat.lt_or_ge d 2 with hd1 | hd2
  · obtain ⟨e, c, hw⟩ := @within_enter_error _ input pos d (anyElements fuel true [] _) closeList (by omega)
    exact ⟨e, c, map_error hw⟩
  -- the first element too deep for what is left, the elements before it read in full
  have hsome : ∃ y ∈ items, d - 1 ≤ y.depth := by
    have : d - 2 < Json.depth.depthList items := by
      simp only [Json.depth] at hdeep
      omega
    obtain ⟨y, hy, hdy⟩ := Json.exists_deeper_element this
    exact ⟨y, hy, by omega⟩
  obtain ⟨pre, y, post, rfl, hdy, hpre⟩ := Json.exists_first_reaching Json.depth hsome
  have hsteps : pre.length < input.size - pos + 1 := by
    have := length_le_compactList hcan
    have := hinside.lt_size (show (bytes (Json.compactList (pre ++ y :: post))).length <
      (bytes (Json.compactList (pre ++ y :: post)) ++ [93]).length by simp)
    simp only [List.length_append, List.length_cons] at *
    omega
  obtain ⟨e, c, hbody⟩ : ∃ e c, anyElements fuel true [] (input.size - pos + 1)
      ⟨input, pos + 1, d - 1⟩ = .error e c :=
    anyElements_first_fail fuel (hcan y (by simp)) (hfail y (by simp)) (by omega) hdy
      (fun x hx => ⟨hread x (by simp [hx]), hcan x (by simp [hx]), hpre x hx⟩)
      hsteps hinside
  obtain ⟨e', c', hw⟩ : ∃ e' c', within (anyElements fuel true [] (input.size - pos + 1)) closeList
      ⟨input, pos, d⟩ = .error e' c' := within_error hd2 hbody
  exact ⟨e', c', map_error hw⟩

theorem any_object_deep {fuel : Nat} {fields : List (String × Json)} (hread : ∀ p ∈ fields, ReadsAny fuel p.2)
    (hfail : ∀ p ∈ fields, FailsAny fuel p.2) : FailsAny (fuel + 1) (.object fields) := by
  intro input pos d hd hdeep h
  rw [Json.bytes_compact_object] at h
  obtain ⟨hopen, hinside⟩ := at_cons.1 h
  rw [any]
  apply placed_fails
  rw [bind_ok (skipBlank_at hopen (by decide))]
  simp +decide only [↓reduceIte]
  rw [bind_ok (remaining_eq _)]
  rcases Nat.lt_or_ge d 2 with hd1 | hd2
  · obtain ⟨e, c, hw⟩ := @within_enter_error _ input pos d (anyMembers fuel true [] _) closeObject (by omega)
    exact ⟨e, c, map_error hw⟩
  -- the first member too deep for what is left, the members before it read in full
  have hsome : ∃ p ∈ fields, d - 1 ≤ p.2.depth := by
    have : d - 2 < Json.depth.depthFields fields := by
      simp only [Json.depth] at hdeep
      omega
    obtain ⟨p, hp, hdp⟩ := Json.exists_deeper_member this
    exact ⟨p, hp, by omega⟩
  obtain ⟨pre, ⟨k, y⟩, post, rfl, hdy, hpre⟩ := Json.exists_first_reaching (fun p : String × Json => p.2.depth) hsome
  have hsteps : pre.length < input.size - pos + 1 := by
    have := length_le_compactFields (pre ++ (k, y) :: post)
    have := hinside.lt_size (show (bytes (Json.compactFields (pre ++ (k, y) :: post))).length <
      (bytes (Json.compactFields (pre ++ (k, y) :: post)) ++ [125]).length by simp)
    simp only [List.length_append, List.length_cons] at *
    omega
  obtain ⟨e, c, hbody⟩ : ∃ e c, anyMembers fuel true [] (input.size - pos + 1)
      ⟨input, pos + 1, d - 1⟩ = .error e c :=
    anyMembers_first_fail fuel (hfail (k, y) (by simp)) (by omega) hdy
      (fun p hp => ⟨hread p (by simp [hp]), hpre p hp⟩) hsteps hinside
  obtain ⟨e', c', hw⟩ : ∃ e' c', within (anyMembers fuel true [] (input.size - pos + 1)) closeObject
      ⟨input, pos, d⟩ = .error e' c' := within_error hd2 hbody
  exact ⟨e', c', map_error hw⟩

/-- The compact text of a value whose numbers are integers in their kinds stops with an error
when the value nests more containers than the allowance. The induction is on the fuel, as for
`any_compact`; the elements before the first one too deep are read in full by it. -/
theorem any_deep : ∀ (fuel : Nat) {j : Json}, j.Canonical → j.depth < fuel → FailsAny fuel j
  | 0, _, _, hf => absurd hf (Nat.not_lt_zero _)
  | fuel + 1, j, hj, hf => by
    cases hj with
    | @array items hitems =>
      have hlt : ∀ x ∈ items, x.depth < fuel := fun x hx => by
        have := Json.depth_lt_of_mem_array hx
        omega
      exact any_array_deep (fun x hx => any_compact fuel (hitems x hx) (hlt x hx))
        (fun x hx => any_deep fuel (hitems x hx) (hlt x hx)) hitems
    | @object fields hfields =>
      have hlt : ∀ p ∈ fields, p.2.depth < fuel := fun p hp => by
        have := Json.depth_lt_of_mem_object hp
        omega
      exact any_object_deep (fun p hp => any_compact fuel (hfields p hp) (hlt p hp))
        (fun p hp => any_deep fuel (hfields p hp) (hlt p hp))
    | null | bool _ | number _ | string _ =>
      intro hd hdeep _
      simp [Json.depth] at hdeep
      omega

end ReadM

namespace Json

/-- The compact text of a value whose numbers are integers in their kinds and which nests more
than 127 containers does not parse: the reader refuses to go deeper. -/
theorem parse_deep {j : Json} (hj : j.Canonical) (hd : 128 ≤ j.depth) :
    ∃ e, parse j.compact.toUTF8 = .error e := by
  have hat : Text.At j.compact.toUTF8 0 (Text.bytes j.compact) := by
    rw [String.toUTF8_eq_toByteArray]
    exact Text.at_toByteArray _
  have hsize : j.compact.toUTF8.size = (Text.bytes j.compact).length := by
    rw [String.toUTF8_eq_toByteArray, Text.toByteArray_eq, List.size_toByteArray]
  have hfuel : j.depth < 8 * j.compact.toUTF8.size + 15 := by
    have := depth_le_length j
    omega
  obtain ⟨e, c, he⟩ := ReadM.any_deep _ hj hfuel (by decide : 1 ≤ 128) hd hat
  unfold parse Schema.readText
  simp only [EStateM.run, Cursor.start]
  rw [show 8 * j.compact.toUTF8.size + 16 = 8 * j.compact.toUTF8.size + 15 + 1 from rfl,
    ReadM.bySchema, ReadM.bind_error he]
  exact ⟨e, rfl⟩

end Json

end MergePatch
