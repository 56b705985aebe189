import MergePatch.Proofs.TextScalars
import MergePatch.Proofs.MergeAlgebra
/-!
# Values read back from their compact text

`Json.parse_compact`: the compact text of a value parses back to the value with its object
members in key order (`Json.normalize`), provided its numbers are integers held in their kinds
(`Json.Canonical`) and it nests at most 127 containers (`Json.depth`), the reader's limit.

The reader `ReadM.any` is run on text known to stand at the cursor (`Text.At`). `ReadM.ReadsAny`
states what one value's text reads to; `ReadM.any_compact` proves it for every value by
induction on the reader's fuel, one container level at a time. The loops over the elements of an
array and the members of an object are lemmas of their own, taking the reading of each element
as a hypothesis.
-/

namespace MergePatch

namespace Json

/-- How many containers nest in a value: none in a scalar, one more than in its deepest element
or member in an array or object. -/
def depth : Json → Nat
  | .array items => 1 + depthList items
  | .object fields => 1 + depthFields fields
  | _ => 0
where
  /-- The greatest depth of the elements. -/
  depthList : List Json → Nat
    | [] => 0
    | x :: xs => max (depth x) (depthList xs)
  /-- The greatest depth of the member values. -/
  depthFields : List (String × Json) → Nat
    | [] => 0
    | (_, x) :: xs => max (depth x) (depthFields xs)

/-- Every number in the value is an integer held in the kind that holds it. -/
inductive Canonical : Json → Prop
  | null : Canonical .null
  | bool (b : Bool) : Canonical (.bool b)
  | number {n : Number} : n.Canonical → Canonical (.number n)
  | string (s : String) : Canonical (.string s)
  | array {items : List Json} : (∀ x ∈ items, Canonical x) → Canonical (.array items)
  | object {fields : List (String × Json)} : (∀ p ∈ fields, Canonical p.2) →
      Canonical (.object fields)

theorem depth_lt_of_mem_array {items : List Json} {x : Json} (h : x ∈ items) :
    x.depth < (Json.array items).depth := by
  have key : ∀ items : List Json, x ∈ items → x.depth ≤ depth.depthList items := by
    intro items h
    induction items with
    | nil => cases h
    | cons y ys ih =>
      rcases List.mem_cons.1 h with rfl | h
      · simp [depth.depthList]
      · have := ih h
        simp only [depth.depthList]
        omega
  have := key items h
  simp only [depth]
  omega

theorem depth_lt_of_mem_object {fields : List (String × Json)} {p : String × Json}
    (h : p ∈ fields) : p.2.depth < (Json.object fields).depth := by
  have key : ∀ fields : List (String × Json), p ∈ fields → p.2.depth ≤ depth.depthFields fields := by
    intro fields h
    induction fields with
    | nil => cases h
    | cons q qs ih =>
      obtain ⟨k, y⟩ := q
      rcases List.mem_cons.1 h with rfl | h
      · simp [depth.depthFields]
      · have := ih h
        simp only [depth.depthFields]
        omega
  have := key fields h
  simp only [depth]
  omega

theorem normalizeList_eq_map (items : List Json) : normalizeList items = items.map normalize := by
  induction items with
  | nil => rfl
  | cons x xs ih => simp [normalizeList, ih]

/-! ## The bytes of compact text -/

/-- The text of the elements after the first, each after its comma. -/
def restBytes (xs : List Json) : List UInt8 := xs.flatMap fun y => 44 :: Text.bytes y.compact

/-- The text of one member: its key in quotes, a colon, its value. -/
def memberBytes (p : String × Json) : List UInt8 := Text.bytes (quote p.1) ++ 58 :: Text.bytes p.2.compact

/-- The text of the members after the first, each after its comma. -/
def restMembers (xs : List (String × Json)) : List UInt8 := xs.flatMap fun p => 44 :: memberBytes p

theorem bytes_compactList (x : Json) (xs : List Json) :
    Text.bytes (compactList (x :: xs)) = Text.bytes x.compact ++ restBytes xs := by
  induction xs generalizing x with
  | nil => simp [compactList, restBytes]
  | cons y ys ih =>
    rw [compactList, Text.bytes_append, Text.bytes_append, ih]
    · simp [restBytes]
      rfl
    · simp

theorem bytes_compactFields (p : String × Json) (xs : List (String × Json)) :
    Text.bytes (compactFields (p :: xs)) = memberBytes p ++ restMembers xs := by
  induction xs generalizing p with
  | nil =>
    obtain ⟨k, x⟩ := p
    simp [compactFields, restMembers, memberBytes]
    rfl
  | cons q qs ih =>
    obtain ⟨k, x⟩ := p
    rw [compactFields, Text.bytes_append, Text.bytes_append, ih]
    · simp [restMembers, memberBytes]
      rfl
    · simp

theorem bytes_compact_array (items : List Json) :
    Text.bytes (Json.array items).compact = 91 :: (Text.bytes (compactList items) ++ [93]) := by
  simp only [compact, Text.bytes_append]
  rfl

theorem bytes_compact_object (fields : List (String × Json)) :
    Text.bytes (Json.object fields).compact = 123 :: (Text.bytes (compactFields fields) ++ [125]) := by
  simp only [compact, Text.bytes_append]
  rfl

end Json

namespace ReadM

open Text

variable {α : Type} {input : ByteArray} {pos d : Nat}

theorem placed_ok {act : ReadM α} {c c' : Cursor} {a : α} (h : act c = .ok a c') :
    placed act c = .ok a c' := by
  show EStateM.tryCatch act _ c = _
  simp [EStateM.tryCatch, h]

theorem map_ok {β : Type} {x : ReadM α} {f : α → β} {c c' : Cursor} {a : α} (h : x c = .ok a c') :
    (f <$> x) c = .ok (f a) c' := by
  show EStateM.map f x c = _
  simp [EStateM.map, h]

theorem remaining_eq (c : Cursor) : remaining c = .ok (c.input.size - c.pos + 1) c := rfl

theorem enter_ok (hd : 2 ≤ d) : enter ⟨input, pos, d⟩ = .ok () ⟨input, pos, d - 1⟩ := by
  unfold enter
  rw [bind_ok (get_eq _), if_neg (by simp only; omega)]
  rfl

/-- A container whose contents read to `v` and which then closes reads to `v`: the contents are
read one level deeper, and the level is given back when they end. -/
theorem within_ok {body : ReadM α} {close : ReadM (Option ReadError)} {v : α} {p q : Nat}
    (hd : 2 ≤ d) (hbody : body ⟨input, pos + 1, d - 1⟩ = .ok v ⟨input, p, d - 1⟩)
    (hclose : close ⟨input, p, d⟩ = .ok none ⟨input, q, d⟩) :
    within body close ⟨input, pos, d⟩ = .ok v ⟨input, q, d⟩ := by
  have hattempt : attempt body ⟨input, pos + 1, d - 1⟩ = .ok (.ok v) ⟨input, p, d - 1⟩ := by
    show EStateM.tryCatch _ _ _ = _
    simp [EStateM.tryCatch, Functor.map, EStateM.map, hbody]
  unfold within
  rw [bind_ok (enter_ok hd), bind_ok (bump_eq _), bind_ok hattempt]
  simp only [leave, bind_ok (modify_eq _ _)]
  rw [show d - 1 + 1 = d by omega, bind_ok hclose]
  rfl

theorem colon_at (h : input[pos]? = some 58) : colon ⟨input, pos, d⟩ = .ok () ⟨input, pos + 1, d⟩ := by
  unfold colon
  rw [bind_ok (skipBlank_at h (by decide))]
  rfl

theorem closeList_at (h : input[pos]? = some 93) :
    closeList ⟨input, pos, d⟩ = .ok none ⟨input, pos + 1, d⟩ := by
  unfold closeList
  rw [bind_ok (skipBlank_at h (by decide))]
  rfl

theorem closeObject_at (h : input[pos]? = some 125) :
    closeObject ⟨input, pos, d⟩ = .ok none ⟨input, pos + 1, d⟩ := by
  unfold closeObject
  rw [bind_ok (skipBlank_at h (by decide))]
  rfl

theorem hasNext_close {first : Bool} (h : input[pos]? = some 93) :
    hasNext first ⟨input, pos, d⟩ = .ok false ⟨input, pos, d⟩ := by
  unfold hasNext
  rw [bind_ok (skipBlank_at h (by decide))]
  rfl

theorem hasNext_first {b : UInt8} (h : input[pos]? = some b) (hb : isBlank b = false) (h93 : b ≠ 93) :
    hasNext true ⟨input, pos, d⟩ = .ok true ⟨input, pos, d⟩ := by
  unfold hasNext
  rw [bind_ok (skipBlank_at h hb)]
  by_cases h44 : b = 44
  · subst h44
    rfl
  · simp
    rfl

theorem hasNext_comma {b : UInt8} (h : input[pos]? = some 44) (hb : input[pos + 1]? = some b)
    (hblank : isBlank b = false) (h93 : b ≠ 93) :
    hasNext false ⟨input, pos, d⟩ = .ok true ⟨input, pos + 1, d⟩ := by
  unfold hasNext
  rw [bind_ok (skipBlank_at h (by decide))]
  simp only [Bool.false_eq_true, if_false]
  rw [bind_ok (bump_eq _), bind_ok (skipBlank_at hb hblank)]
  simp
  rfl

/-- A quoted string read after its opening quote. -/
theorem string_quote {s : String} (h : At input pos (bytes (Json.quote s))) :
    string ⟨input, pos + 1, d⟩ = .ok s ⟨input, pos + (bytes (Json.quote s)).length, d⟩ := by
  rw [Json.bytes_quote] at h ⊢
  rw [Json.string_at (at_cons.1 h).2]
  simp [Nat.add_assoc, Nat.add_comm 1]

theorem nextKey_close {first : Bool} (h : input[pos]? = some 125) :
    nextKey first ⟨input, pos, d⟩ = .ok none ⟨input, pos, d⟩ := by
  unfold nextKey
  rw [bind_ok (skipBlank_at h (by decide))]
  rfl

theorem nextKey_first {s : String} (h : At input pos (bytes (Json.quote s))) :
    nextKey true ⟨input, pos, d⟩ = .ok (some s) ⟨input, pos + (bytes (Json.quote s)).length, d⟩ := by
  have hq : input[pos]? = some 34 := by
    rw [Json.bytes_quote] at h
    exact (at_cons.1 h).1
  unfold nextKey
  rw [bind_ok (skipBlank_at hq (by decide))]
  simp
  rw [bind_ok (bump_eq _), map_ok (string_quote h)]

theorem nextKey_comma {s : String} (h : At input pos (44 :: bytes (Json.quote s))) :
    nextKey false ⟨input, pos, d⟩ = .ok (some s) ⟨input, pos + 1 + (bytes (Json.quote s)).length, d⟩ := by
  obtain ⟨hc, hs⟩ := at_cons.1 h
  have hq : input[pos + 1]? = some 34 := by
    rw [Json.bytes_quote] at hs
    exact (at_cons.1 hs).1
  unfold nextKey
  rw [bind_ok (skipBlank_at hc (by decide))]
  simp only [Bool.false_eq_true, if_false]
  rw [bind_ok (bump_eq _), bind_ok (map_ok (skipBlank_at hq (by decide)))]
  simp only
  rw [bind_ok (bump_eq _), map_ok (string_quote hs)]

/-! ## Any value -/

theorem digit_not_delim {b : UInt8} (h : isDigit b = true) :
    isBlank b = false ∧ b ≠ 93 ∧ b ≠ 125 ∧ b ≠ 44 ∧ b ≠ 110 ∧ b ≠ 116 ∧ b ≠ 102 ∧ b ≠ 45 := by
  simp only [isDigit, Bool.and_eq_true, decide_eq_true_eq, UInt8.le_iff_toNat_le] at h
  have hne : ∀ k : UInt8, k.toNat < 48 ∨ 57 < k.toNat → b ≠ k := by
    rintro k hk rfl
    simp at h hk
    omega
  refine ⟨?_, hne 93 (by decide), hne 125 (by decide), hne 44 (by decide), hne 110 (by decide),
    hne 116 (by decide), hne 102 (by decide), hne 45 (by decide)⟩
  simp [isBlank, hne 32 (by decide), hne 10 (by decide), hne 9 (by decide), hne 13 (by decide)]

/-- The decimal text of a number starts with a digit. -/
theorem bytes_toString_head (k : Nat) : ∃ b rest, bytes (toString k) = b :: rest ∧ isDigit b = true := by
  rw [Json.bytes_toString]
  obtain ⟨c, cs, hcs⟩ := List.exists_cons_of_ne_nil (@Nat.toDigits_ne_nil k 10)
  have hmem : c ∈ Nat.toDigits 10 k := by
    rw [hcs]
    exact List.mem_cons_self
  have hc : c.isDigit = true := Nat.isDigit_of_mem_toDigits (by decide) (by decide) hmem
  exact ⟨_, _, by rw [hcs, List.map_cons], (Json.digit_byte hc).1⟩

theorem EndsValue.of_getElem? {b : UInt8} (h : input[pos]? = some b) (hb : b = 44 ∨ b = 93 ∨ b = 125) :
    EndsValue input pos := by
  intro b' hb'
  rw [h] at hb'
  cases hb'
  exact hb

/-- What reading the text of `j` by `any fuel` gives: the value with its members in key order,
the cursor just past the text, wherever the text stands, followed by what may end a value, with
room to nest it. -/
def ReadsAny (fuel : Nat) (j : Json) : Prop :=
  ∀ {input : ByteArray} {pos d : Nat}, j.depth < d → At input pos (bytes j.compact) →
    EndsValue input (pos + (bytes j.compact).length) →
    any fuel ⟨input, pos, d⟩ = .ok j.normalize ⟨input, pos + (bytes j.compact).length, d⟩

theorem any_null {fuel : Nat} : ReadsAny (fuel + 1) .null := by
  intro input pos d _ h _
  obtain ⟨hb, hrest⟩ := at_cons.1 (show At input pos [110, 117, 108, 108] from h)
  rw [any]
  apply placed_ok
  rw [bind_ok (skipBlank_at hb (by decide))]
  simp only [beq_self_eq_true, if_true]
  rw [bind_ok (bump_eq _), bind_ok (literal_at hrest)]
  rfl

theorem any_bool {fuel : Nat} (v : Bool) : ReadsAny (fuel + 1) (.bool v) := by
  intro input pos d _ h _
  cases v with
  | true =>
    obtain ⟨hb, hrest⟩ := at_cons.1 (show At input pos [116, 114, 117, 101] from h)
    rw [any]
    apply placed_ok
    rw [bind_ok (skipBlank_at hb (by decide))]
    simp +decide only [↓reduceIte]
    rw [bind_ok (bump_eq _), bind_ok (literal_at hrest)]
    rfl
  | false =>
    obtain ⟨hb, hrest⟩ := at_cons.1 (show At input pos [102, 97, 108, 115, 101] from h)
    rw [any]
    apply placed_ok
    rw [bind_ok (skipBlank_at hb (by decide))]
    simp +decide only [↓reduceIte]
    rw [bind_ok (bump_eq _), bind_ok (literal_at hrest)]
    rfl

theorem any_string {fuel : Nat} (s : String) : ReadsAny (fuel + 1) (.string s) := by
  intro input pos d _ h _
  have hq : input[pos]? = some 34 := by
    have h' : At input pos (bytes (Json.quote s)) := h
    rw [Json.bytes_quote] at h'
    exact (at_cons.1 h').1
  rw [any]
  apply placed_ok
  rw [bind_ok (skipBlank_at hq (by decide))]
  simp +decide only [↓reduceIte]
  rw [bind_ok (bump_eq _), map_ok (string_quote h)]
  rfl

theorem any_number {fuel : Nat} {n : Number} (hn : n.Canonical) : ReadsAny (fuel + 1) (.number n) := by
  intro input pos d _ h hend
  cases n with
  | nat n =>
    obtain ⟨b, rest, hbytes, hdigit⟩ := bytes_toString_head n.toNat
    obtain ⟨hblank, -, -, -, h110, h116, h102, h45⟩ := digit_not_delim hdigit
    have hb : input[pos]? = some b := by
      have h' : At input pos (bytes (toString n.toNat)) := h
      rw [hbytes] at h'
      exact (at_cons.1 h').1
    rw [any]
    apply placed_ok
    rw [bind_ok (skipBlank_at hb hblank)]
    simp only [beq_iff_eq, h110, h116, h102, h45, hdigit, ↓reduceIte]
    rw [map_ok (Json.number_nat h hend)]
    rfl
  | neg n =>
    have hb : input[pos]? = some 45 := by
      have h' : At input pos (bytes (Number.render (.neg n))) := h
      rw [Json.bytes_render_neg hn] at h'
      exact (at_cons.1 h').1
    rw [any]
    apply placed_ok
    rw [bind_ok (skipBlank_at hb (by decide))]
    simp +decide only [↓reduceIte]
    rw [bind_ok (bump_eq _), map_ok (Json.number_neg hn h hend)]
    rfl
  | float x => exact absurd hn id

/-- The text of a value starts with a byte that is no blank, comma or closing bracket. -/
theorem compact_head {j : Json} (hj : j.Canonical) :
    ∃ b rest, bytes j.compact = b :: rest ∧ isBlank b = false ∧ b ≠ 93 ∧ b ≠ 125 ∧ b ≠ 44 := by
  cases hj with
  | null => exact ⟨110, _, rfl, by decide, by decide, by decide, by decide⟩
  | bool v => cases v <;> exact ⟨_, _, rfl, by decide, by decide, by decide, by decide⟩
  | @number n hn =>
    cases n with
    | nat n =>
      obtain ⟨b, rest, hbytes, hdigit⟩ := bytes_toString_head n.toNat
      obtain ⟨hblank, h93, h125, h44, -⟩ := digit_not_delim hdigit
      exact ⟨b, rest, hbytes, hblank, h93, h125, h44⟩
    | neg n =>
      exact ⟨45, _, Json.bytes_render_neg hn, by decide, by decide, by decide, by decide⟩
    | float x => exact absurd hn id
  | string s => exact ⟨34, _, Json.bytes_quote s, by decide, by decide, by decide, by decide⟩
  | @array items _ =>
    exact ⟨91, _, Json.bytes_compact_array items, by decide, by decide, by decide, by decide⟩
  | @object fields _ =>
    exact ⟨123, _, Json.bytes_compact_object fields, by decide, by decide, by decide, by decide⟩

/-- Each element's text takes a byte at least. -/
theorem length_le_compactList {items : List Json} (hcan : ∀ x ∈ items, x.Canonical) :
    items.length ≤ (bytes (Json.compactList items)).length := by
  cases items with
  | nil => simp
  | cons x xs =>
    obtain ⟨b, rest, hx, -⟩ := compact_head (hcan x List.mem_cons_self)
    have hrest : xs.length ≤ (Json.restBytes xs).length := by
      induction xs with
      | nil => simp [Json.restBytes]
      | cons y ys ih => simp [Json.restBytes] at ih ⊢; omega
    rw [Json.bytes_compactList, hx]
    simp only [List.length_cons, List.length_append]
    omega

/-- What may follow an element: the comma before the next one, or the closing bracket. -/
theorem restBytes_head (xs : List Json) :
    ∃ b rest, Json.restBytes xs ++ [93] = b :: rest ∧ (b = 44 ∨ b = 93 ∨ b = 125) := by
  cases xs with
  | nil => exact ⟨93, [], rfl, by decide⟩
  | cons y ys =>
    exact ⟨44, bytes y.compact ++ (Json.restBytes ys ++ [93]), by simp [Json.restBytes], by decide⟩

section Elements

variable (fuel : Nat) {xs : List Json}

/-- Before the first element: the element is read, then the rest. -/
theorem anyElements_first_step {b : UInt8} (h : input[pos]? = some b) (hblank : isBlank b = false)
    (h93 : b ≠ 93) (acc : List Json) (steps : Nat) :
    anyElements fuel true acc (steps + 1) ⟨input, pos, d⟩ =
      (any fuel >>= fun v => anyElements fuel false (v :: acc) steps) ⟨input, pos, d⟩ := by
  rw [anyElements, bind_ok (hasNext_first h hblank h93)]
  rfl

/-- At a comma: the element after it is read, then the rest. -/
theorem anyElements_comma_step {b : UInt8} (hc : input[pos]? = some 44) (h : input[pos + 1]? = some b)
    (hblank : isBlank b = false) (h93 : b ≠ 93) (acc : List Json) (steps : Nat) :
    anyElements fuel false acc (steps + 1) ⟨input, pos, d⟩ =
      (any fuel >>= fun v => anyElements fuel false (v :: acc) steps) ⟨input, pos + 1, d⟩ := by
  rw [anyElements, bind_ok (hasNext_comma hc h hblank h93)]
  rfl

/-- One element after its comma, followed by what may end it, read onto `acc`. -/
theorem anyElements_comma {x : Json} (hread : ReadsAny fuel x) (hx : x.Canonical) (hdepth : x.depth < d)
    {tail : List UInt8} (htail : ∃ b rest, tail = b :: rest ∧ (b = 44 ∨ b = 93 ∨ b = 125))
    (acc : List Json) (steps : Nat) (h : At input pos (44 :: (bytes x.compact ++ tail))) :
    anyElements fuel false acc (steps + 1) ⟨input, pos, d⟩ =
      anyElements fuel false (x.normalize :: acc) steps ⟨input, pos + 1 + (bytes x.compact).length, d⟩ := by
  obtain ⟨b, rest, hbytes, hblank, h93, -⟩ := compact_head hx
  obtain ⟨hc, hafter⟩ := at_cons.1 h
  obtain ⟨hxat, htailat⟩ := at_append.1 hafter
  have hb : input[pos + 1]? = some b := by
    rw [hbytes] at hxat
    exact (at_cons.1 hxat).1
  obtain ⟨e, erest, rfl, hend⟩ := htail
  rw [anyElements_comma_step fuel hc hb hblank h93,
    bind_ok (hread hdepth hxat (EndsValue.of_getElem? (at_cons.1 htailat).1 hend))]

/-- The elements after the first, each after its comma, read onto `acc` up to the closing
bracket. The induction is on the elements left; each takes one step of the bound. -/
theorem anyElements_rest (hread : ∀ x ∈ xs, ReadsAny fuel x) (hcan : ∀ x ∈ xs, x.Canonical)
    (hdepth : ∀ x ∈ xs, x.depth < d) :
    ∀ (acc : List Json) (steps pos : Nat), xs.length < steps → At input pos (Json.restBytes xs ++ [93]) →
      anyElements fuel false acc steps ⟨input, pos, d⟩ =
        .ok (acc.reverse ++ xs.map Json.normalize) ⟨input, pos + (Json.restBytes xs).length, d⟩ := by
  induction xs with
  | nil =>
    intro acc steps pos hsteps h
    obtain ⟨s, rfl⟩ : ∃ s, steps = s + 1 := ⟨steps - 1, by simp at hsteps; omega⟩
    rw [anyElements, bind_ok (hasNext_close (at_cons.1 h).1)]
    simp [Json.restBytes]
    rfl
  | cons x xs ih =>
    intro acc steps pos hsteps h
    obtain ⟨s, rfl⟩ : ∃ s, steps = s + 1 := ⟨steps - 1, by simp at hsteps; omega⟩
    have h' : At input pos (44 :: (bytes x.compact ++ (Json.restBytes xs ++ [93]))) := by
      simpa [Json.restBytes] using h
    have hrest := (at_append.1 (at_cons.1 h').2).2
    rw [anyElements_comma fuel (hread x List.mem_cons_self) (hcan x List.mem_cons_self)
        (hdepth x List.mem_cons_self) (restBytes_head xs) acc s h',
      ih (fun y hy => hread y (List.mem_cons_of_mem _ hy)) (fun y hy => hcan y (List.mem_cons_of_mem _ hy))
        (fun y hy => hdepth y (List.mem_cons_of_mem _ hy)) _ s _ (by simp at hsteps; omega) hrest]
    simp [Json.restBytes]
    omega

/-- The elements of an array, read from after its opening bracket up to the closing one. -/
theorem anyElements_first (hread : ∀ x ∈ xs, ReadsAny fuel x) (hcan : ∀ x ∈ xs, x.Canonical)
    (hdepth : ∀ x ∈ xs, x.depth < d) {steps : Nat} (hsteps : xs.length < steps)
    (h : At input pos (bytes (Json.compactList xs) ++ [93])) :
    anyElements fuel true [] steps ⟨input, pos, d⟩ =
      .ok (xs.map Json.normalize) ⟨input, pos + (bytes (Json.compactList xs)).length, d⟩ := by
  obtain ⟨s, rfl⟩ : ∃ s, steps = s + 1 := ⟨steps - 1, by omega⟩
  cases xs with
  | nil =>
    rw [anyElements, bind_ok (hasNext_close (at_cons.1 h).1)]
    rfl
  | cons x xs =>
    obtain ⟨b, rest, hbytes, hblank, h93, -⟩ := compact_head (hcan x List.mem_cons_self)
    rw [Json.bytes_compactList, List.append_assoc] at h
    rw [Json.bytes_compactList]
    obtain ⟨hxat, hrest⟩ := at_append.1 h
    have hb : input[pos]? = some b := by
      rw [hbytes] at hxat
      exact (at_cons.1 hxat).1
    obtain ⟨e, erest, he, hend⟩ := restBytes_head xs
    have hends : EndsValue input (pos + (bytes x.compact).length) := by
      rw [he] at hrest
      exact EndsValue.of_getElem? (at_cons.1 hrest).1 hend
    rw [anyElements_first_step fuel hb hblank h93,
      bind_ok (hread x List.mem_cons_self (hdepth x List.mem_cons_self) hxat hends),
      anyElements_rest fuel (fun y hy => hread y (List.mem_cons_of_mem _ hy))
        (fun y hy => hcan y (List.mem_cons_of_mem _ hy)) (fun y hy => hdepth y (List.mem_cons_of_mem _ hy))
        _ s _ (by simp at hsteps; omega) hrest]
    simp [Nat.add_assoc]

end Elements

theorem any_array {fuel : Nat} {items : List Json} (hread : ∀ x ∈ items, ReadsAny fuel x)
    (hcan : ∀ x ∈ items, x.Canonical) : ReadsAny (fuel + 1) (.array items) := by
  intro input pos d hd h hend
  rw [Json.bytes_compact_array] at h ⊢
  obtain ⟨hopen, hinside⟩ := at_cons.1 h
  have hclose : input[pos + 1 + (bytes (Json.compactList items)).length]? = some 93 :=
    (at_cons.1 (at_append.1 hinside).2).1
  have hsize : pos + 1 + (bytes (Json.compactList items)).length < input.size := by
    have := hinside.lt_size (show (bytes (Json.compactList items)).length <
      (bytes (Json.compactList items) ++ [93]).length by simp)
    omega
  have hlen := length_le_compactList hcan
  have hdepth : ∀ x ∈ items, x.depth < d - 1 := fun x hx => by
    have := Json.depth_lt_of_mem_array hx
    omega
  have hd2 : 2 ≤ d := by
    simp only [Json.depth] at hd
    omega
  rw [any]
  apply placed_ok
  rw [bind_ok (skipBlank_at hopen (by decide))]
  simp +decide only [↓reduceIte]
  rw [bind_ok (remaining_eq _), map_ok (within_ok hd2
    (anyElements_first fuel hread hcan hdepth (by simp only; omega) hinside) (closeList_at hclose))]
  simp [Json.normalize, Json.normalizeList_eq_map]
  omega


/-- Each member's text takes a byte at least. -/
theorem length_le_compactFields (fields : List (String × Json)) :
    fields.length ≤ (bytes (Json.compactFields fields)).length := by
  cases fields with
  | nil => simp
  | cons p ps =>
    have hrest : ps.length ≤ (Json.restMembers ps).length := by
      induction ps with
      | nil => simp [Json.restMembers]
      | cons q qs ih => simp [Json.restMembers] at ih ⊢; omega
    have hp : 1 ≤ (Json.memberBytes p).length := by
      simp [Json.memberBytes]
      omega
    rw [Json.bytes_compactFields]
    simp only [List.length_cons, List.length_append]
    omega

/-- What may follow a member: the comma before the next one, or the closing brace. -/
theorem restMembers_head (xs : List (String × Json)) :
    ∃ b rest, Json.restMembers xs ++ [125] = b :: rest ∧ (b = 44 ∨ b = 93 ∨ b = 125) := by
  cases xs with
  | nil => exact ⟨125, [], rfl, by decide⟩
  | cons p ps =>
    exact ⟨44, Json.memberBytes p ++ (Json.restMembers ps ++ [125]), by simp [Json.restMembers],
      by decide⟩

/-- One member's text standing at the cursor, then what follows it, in its parts. -/
theorem at_member {k : String} {x : Json} {tail : List UInt8}
    (h : At input pos (Json.memberBytes (k, x) ++ tail)) :
    At input pos (bytes (Json.quote k)) ∧ input[pos + (bytes (Json.quote k)).length]? = some 58 ∧
      At input (pos + (bytes (Json.quote k)).length + 1) (bytes x.compact) ∧
      At input (pos + (Json.memberBytes (k, x)).length) tail := by
  obtain ⟨hm, htail⟩ := at_append.1 h
  obtain ⟨hk, hrest⟩ := at_append.1 hm
  obtain ⟨hc, hx⟩ := at_cons.1 hrest
  exact ⟨hk, hc, hx, htail⟩

section Members

variable (fuel : Nat) {xs : List (String × Json)}

/-- Before the first member: its key and colon are taken, its value read, then the rest. -/
theorem anyMembers_first_step {k : String} (hk : At input pos (bytes (Json.quote k)))
    (hcolon : input[pos + (bytes (Json.quote k)).length]? = some 58) (acc : Fields) (steps : Nat) :
    anyMembers fuel true acc (steps + 1) ⟨input, pos, d⟩ =
      (any fuel >>= fun v => anyMembers fuel false (Keyed.insert acc k v) steps)
        ⟨input, pos + (bytes (Json.quote k)).length + 1, d⟩ := by
  rw [anyMembers, bind_ok (nextKey_first hk)]
  simp only
  rw [bind_ok (colon_at hcolon)]

/-- At a comma: the next member's key and colon are taken, its value read, then the rest. -/
theorem anyMembers_comma_step {k : String} (hk : At input pos (44 :: bytes (Json.quote k)))
    (hcolon : input[pos + 1 + (bytes (Json.quote k)).length]? = some 58) (acc : Fields) (steps : Nat) :
    anyMembers fuel false acc (steps + 1) ⟨input, pos, d⟩ =
      (any fuel >>= fun v => anyMembers fuel false (Keyed.insert acc k v) steps)
        ⟨input, pos + 1 + (bytes (Json.quote k)).length + 1, d⟩ := by
  rw [anyMembers, bind_ok (nextKey_comma hk)]
  simp only
  rw [bind_ok (colon_at hcolon)]

/-- One member after its comma, followed by what may end it, inserted into `acc`. -/
theorem anyMembers_comma {k : String} {x : Json} (hread : ReadsAny fuel x) (hdepth : x.depth < d)
    {tail : List UInt8} (htail : ∃ b rest, tail = b :: rest ∧ (b = 44 ∨ b = 93 ∨ b = 125))
    (acc : Fields) (steps : Nat) (h : At input pos (44 :: (Json.memberBytes (k, x) ++ tail))) :
    anyMembers fuel false acc (steps + 1) ⟨input, pos, d⟩ =
      anyMembers fuel false (Keyed.insert acc k x.normalize) steps
        ⟨input, pos + 1 + (Json.memberBytes (k, x)).length, d⟩ := by
  obtain ⟨hc, hafter⟩ := at_cons.1 h
  obtain ⟨hk, hcolon, hxat, htailat⟩ := at_member hafter
  have hpos : pos + 1 + (Json.memberBytes (k, x)).length =
      pos + 1 + (bytes (Json.quote k)).length + 1 + (bytes x.compact).length := by
    simp [Json.memberBytes]
    omega
  rw [hpos] at htailat ⊢
  obtain ⟨e, erest, rfl, hend⟩ := htail
  rw [anyMembers_comma_step fuel (at_cons.2 ⟨hc, hk⟩) hcolon,
    bind_ok (hread hdepth hxat (EndsValue.of_getElem? (at_cons.1 htailat).1 hend))]

/-- The members after the first, each after its comma, inserted into `acc` up to the closing
brace. The induction is on the members left; each takes one step of the bound. -/
theorem anyMembers_rest (hread : ∀ p ∈ xs, ReadsAny fuel p.2) (hdepth : ∀ p ∈ xs, p.2.depth < d) :
    ∀ (acc : Fields) (steps pos : Nat), xs.length < steps →
      At input pos (Json.restMembers xs ++ [125]) →
      anyMembers fuel false acc steps ⟨input, pos, d⟩ =
        .ok (xs.foldl (fun acc p => Keyed.insert acc p.1 p.2.normalize) acc)
          ⟨input, pos + (Json.restMembers xs).length, d⟩ := by
  induction xs with
  | nil =>
    intro acc steps pos hsteps h
    obtain ⟨s, rfl⟩ : ∃ s, steps = s + 1 := ⟨steps - 1, by simp at hsteps; omega⟩
    rw [anyMembers, bind_ok (nextKey_close (at_cons.1 h).1)]
    simp [Json.restMembers]
    rfl
  | cons p xs ih =>
    intro acc steps pos hsteps h
    obtain ⟨s, rfl⟩ : ∃ s, steps = s + 1 := ⟨steps - 1, by simp at hsteps; omega⟩
    obtain ⟨k, x⟩ := p
    have h' : At input pos (44 :: (Json.memberBytes (k, x) ++ (Json.restMembers xs ++ [125]))) := by
      simpa [Json.restMembers] using h
    have hrest := (at_append.1 (at_cons.1 h').2).2
    rw [anyMembers_comma fuel (hread (k, x) List.mem_cons_self) (hdepth (k, x) List.mem_cons_self)
        (restMembers_head xs) acc s h',
      ih (fun q hq => hread q (List.mem_cons_of_mem _ hq)) (fun q hq => hdepth q (List.mem_cons_of_mem _ hq))
        _ s _ (by simp at hsteps; omega) (by simpa [Nat.add_assoc] using hrest)]
    simp [Json.restMembers]
    omega

/-- The members of an object, read from after its opening brace up to the closing one, each
inserted in key order. -/
theorem anyMembers_first (hread : ∀ p ∈ xs, ReadsAny fuel p.2) (hdepth : ∀ p ∈ xs, p.2.depth < d)
    {steps : Nat} (hsteps : xs.length < steps)
    (h : At input pos (bytes (Json.compactFields xs) ++ [125])) :
    anyMembers fuel true [] steps ⟨input, pos, d⟩ =
      .ok (xs.foldl (fun acc p => Keyed.insert acc p.1 p.2.normalize) [])
        ⟨input, pos + (bytes (Json.compactFields xs)).length, d⟩ := by
  obtain ⟨s, rfl⟩ : ∃ s, steps = s + 1 := ⟨steps - 1, by omega⟩
  cases xs with
  | nil =>
    rw [anyMembers, bind_ok (nextKey_close (at_cons.1 h).1)]
    rfl
  | cons p xs =>
    obtain ⟨k, x⟩ := p
    rw [Json.bytes_compactFields, List.append_assoc] at h
    rw [Json.bytes_compactFields]
    obtain ⟨hk, hcolon, hxat, hrest⟩ := at_member h
    have hpos : pos + (Json.memberBytes (k, x)).length =
        pos + (bytes (Json.quote k)).length + 1 + (bytes x.compact).length := by
      simp [Json.memberBytes]
      omega
    rw [hpos] at hrest
    obtain ⟨e, erest, he, hend⟩ := restMembers_head xs
    have hends : EndsValue input (pos + (bytes (Json.quote k)).length + 1 + (bytes x.compact).length) := by
      rw [he] at hrest
      exact EndsValue.of_getElem? (at_cons.1 hrest).1 hend
    rw [anyMembers_first_step fuel hk hcolon,
      bind_ok (hread (k, x) List.mem_cons_self (hdepth (k, x) List.mem_cons_self) hxat hends),
      anyMembers_rest fuel (fun q hq => hread q (List.mem_cons_of_mem _ hq))
        (fun q hq => hdepth q (List.mem_cons_of_mem _ hq)) _ s _ (by simp at hsteps; omega) hrest]
    simp [Json.memberBytes]
    omega

end Members

/-- An object read as any value has its members in key order, a repeated key keeping its last
value: what `Json.normalize` gives. -/
theorem foldl_insert_normalize (fields : List (String × Json)) :
    fields.foldl (fun acc p => Keyed.insert acc p.1 p.2.normalize) [] =
      Keyed.ofList (Json.normalizeFields fields) := by
  rw [Json.normalizeFields_eq_map, Keyed.ofList, List.foldl_map]

theorem any_object {fuel : Nat} {fields : List (String × Json)} (hread : ∀ p ∈ fields, ReadsAny fuel p.2) :
    ReadsAny (fuel + 1) (.object fields) := by
  intro input pos d hd h hend
  rw [Json.bytes_compact_object] at h ⊢
  obtain ⟨hopen, hinside⟩ := at_cons.1 h
  have hclose : input[pos + 1 + (bytes (Json.compactFields fields)).length]? = some 125 :=
    (at_cons.1 (at_append.1 hinside).2).1
  have hsize : pos + 1 + (bytes (Json.compactFields fields)).length < input.size := by
    have := hinside.lt_size (show (bytes (Json.compactFields fields)).length <
      (bytes (Json.compactFields fields) ++ [125]).length by simp)
    omega
  have hlen := length_le_compactFields fields
  have hdepth : ∀ p ∈ fields, p.2.depth < d - 1 := fun p hp => by
    have := Json.depth_lt_of_mem_object hp
    omega
  have hd2 : 2 ≤ d := by
    simp only [Json.depth] at hd
    omega
  rw [any]
  apply placed_ok
  rw [bind_ok (skipBlank_at hopen (by decide))]
  simp +decide only [↓reduceIte]
  rw [bind_ok (remaining_eq _), map_ok (within_ok hd2
    (anyMembers_first fuel hread hdepth (by simp only; omega) hinside) (closeObject_at hclose)),
    foldl_insert_normalize]
  simp [Json.normalize]
  omega

/-- The compact text of a value whose numbers are integers in their kinds reads back as the value
with its members in key order, when `fuel` and the nesting allowance exceed its depth. The
induction is on the fuel, one container level each; the elements and members of a container are
read by the loops above from the fuel below. -/
theorem any_compact : ∀ (fuel : Nat) {j : Json}, j.Canonical → j.depth < fuel → ReadsAny fuel j
  | 0, _, _, hf => absurd hf (Nat.not_lt_zero _)
  | fuel + 1, j, hj, hf => by
    cases hj with
    | null => exact any_null
    | bool v => exact any_bool v
    | number hn => exact any_number hn
    | string s => exact any_string s
    | @array items hitems =>
      refine any_array (fun x hx => any_compact fuel (hitems x hx) ?_) hitems
      have := Json.depth_lt_of_mem_array hx
      omega
    | @object fields hfields =>
      refine any_object (fun p hp => any_compact fuel (hfields p hp) ?_)
      have := Json.depth_lt_of_mem_object hp
      omega

/-! ## Whole texts -/

theorem skipBlank_end (h : input.size ≤ pos) : skipBlank ⟨input, pos, d⟩ = .ok none ⟨input, pos, d⟩ := by
  have hskip : skipWhile isBlank input pos = pos := by
    rw [skipWhile, dif_neg (by omega)]
  unfold skipBlank
  rw [bind_ok (modify_eq _ _)]
  simp only [hskip]
  rw [peek_eq]
  simp [getElem?_neg input pos (by omega)]

end ReadM

namespace Json

theorem depthList_le {items : List Json} {m : Nat} (h : ∀ x ∈ items, x.depth ≤ m) :
    depth.depthList items ≤ m := by
  induction items with
  | nil => simp [depth.depthList]
  | cons x xs ih =>
    simp only [depth.depthList]
    exact max_le (h x List.mem_cons_self) (ih fun y hy => h y (List.mem_cons_of_mem _ hy))

theorem depthFields_le {fields : List (String × Json)} {m : Nat} (h : ∀ p ∈ fields, p.2.depth ≤ m) :
    depth.depthFields fields ≤ m := by
  induction fields with
  | nil => simp [depth.depthFields]
  | cons p ps ih =>
    obtain ⟨k, x⟩ := p
    simp only [depth.depthFields]
    exact max_le (h (k, x) List.mem_cons_self) (ih fun q hq => h q (List.mem_cons_of_mem _ hq))

theorem length_le_restBytes {ys : List Json} {x : Json} (hx : x ∈ ys) :
    (Text.bytes x.compact).length ≤ (restBytes ys).length := by
  induction ys with
  | nil => cases hx
  | cons y ys ih =>
    simp only [restBytes, List.flatMap_cons, List.length_cons, List.length_append] at ih ⊢
    rcases List.mem_cons.1 hx with rfl | hx
    · omega
    · have := ih hx
      omega

theorem length_le_of_mem_compactList {items : List Json} {x : Json} (hx : x ∈ items) :
    (Text.bytes x.compact).length ≤ (Text.bytes (compactList items)).length := by
  cases items with
  | nil => cases hx
  | cons y ys =>
    rw [bytes_compactList, List.length_append]
    rcases List.mem_cons.1 hx with rfl | hx
    · omega
    · have := length_le_restBytes hx
      omega

theorem length_le_restMembers {ps : List (String × Json)} {p : String × Json} (hp : p ∈ ps) :
    (Text.bytes p.2.compact).length ≤ (restMembers ps).length := by
  induction ps with
  | nil => cases hp
  | cons q qs ih =>
    simp only [restMembers, memberBytes, List.flatMap_cons, List.length_cons, List.length_append] at ih ⊢
    rcases List.mem_cons.1 hp with rfl | hp
    · omega
    · have := ih hp
      omega

theorem length_le_of_mem_compactFields {fields : List (String × Json)} {p : String × Json}
    (hp : p ∈ fields) : (Text.bytes p.2.compact).length ≤ (Text.bytes (compactFields fields)).length := by
  cases fields with
  | nil => cases hp
  | cons q qs =>
    rw [bytes_compactFields, List.length_append]
    rcases List.mem_cons.1 hp with rfl | hp
    · simp [memberBytes]
      omega
    · have := length_le_restMembers hp
      omega

/-- A value nests no more containers than its text has bytes. The induction is on the depth;
a container's elements and members are less deep. -/
theorem depth_le_length (j : Json) : j.depth ≤ (Text.bytes j.compact).length := by
  induction h : j.depth using Nat.strong_induction_on generalizing j with
  | _ n ih =>
    subst h
    cases j with
    | array items =>
      have hle : depth.depthList items ≤ (Text.bytes (compactList items)).length :=
        depthList_le fun x hx => (ih _ (depth_lt_of_mem_array hx) x rfl).trans
          (length_le_of_mem_compactList hx)
      rw [bytes_compact_array]
      simp only [depth, List.length_cons, List.length_append]
      omega
    | object fields =>
      have hle : depth.depthFields fields ≤ (Text.bytes (compactFields fields)).length :=
        depthFields_le fun p hp => (ih _ (depth_lt_of_mem_object hp) p.2 rfl).trans
          (length_le_of_mem_compactFields hp)
      rw [bytes_compact_object]
      simp only [depth, List.length_cons, List.length_append]
      omega
    | _ => simp [depth]

/-- The compact text of a value whose numbers are integers in their kinds and which nests at
most 127 containers parses back to the value with its members in key order. -/
theorem parse_compact {j : Json} (hj : j.Canonical) (hd : j.depth < 128) :
    parse j.compact.toUTF8 = .ok j.normalize := by
  have hinput : j.compact.toUTF8 = (Text.bytes j.compact).toByteArray := by
    rw [String.toUTF8_eq_toByteArray, Text.toByteArray_eq]
  have hat : Text.At j.compact.toUTF8 0 (Text.bytes j.compact) := by
    rw [String.toUTF8_eq_toByteArray]
    exact Text.at_toByteArray _
  have hsize : j.compact.toUTF8.size = (Text.bytes j.compact).length := by
    rw [hinput, List.size_toByteArray]
  have hend : Text.EndsValue j.compact.toUTF8 (0 + (Text.bytes j.compact).length) := by
    intro b hb
    rw [getElem?_neg _ _ (by omega)] at hb
    cases hb
  have hfuel : j.depth < 8 * j.compact.toUTF8.size + 15 := by
    have := depth_le_length j
    omega
  have hread := ReadM.any_compact _ hj hfuel hd hat hend
  rw [Nat.zero_add] at hread
  unfold parse Schema.readText
  simp only [EStateM.run, Cursor.start]
  rw [show 8 * j.compact.toUTF8.size + 16 = 8 * j.compact.toUTF8.size + 15 + 1 from rfl,
    ReadM.bySchema]
  rw [ReadM.bind_ok hread, ReadM.bind_ok (ReadM.skipBlank_end (by omega))]
  rfl

end Json

end MergePatch

