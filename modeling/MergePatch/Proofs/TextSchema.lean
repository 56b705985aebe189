import Mathlib
import MergePatch.Proofs.TextValues
import MergePatch.Proofs.ValueSchema
/-!
# Values read back by a schema

`ReadM.bySchema` reads text by a schema as it goes. `ReadM.ReadsBy env fuel s j r` states that
the compact text of `j`, wherever it stands and followed by what may end a value, reads by `s` to
`r` with the cursor just past it. Each way a schema accepts a value is a lemma here that takes the
readings of the value's parts as hypotheses: a string, an integer, `null` or a value of an
optional schema, the elements of a sequence, the members of a map, the members of a record
object, a refinement, a reference, and a tagged value, which is read as any value and then again
in memory (`Schema.ofValue`).
-/

namespace MergePatch

namespace ReadM

open Text

variable {ν : Type} {env : ν → Schema ν} {input : ByteArray} {pos d : Nat}

/-- What reading the text of `j` by `bySchema env fuel s` gives: `r`, the cursor just past the
text, wherever the text stands, followed by what may end a value, with room to nest it. -/
def ReadsBy (env : ν → Schema ν) (fuel : Nat) (s : Schema ν) (j r : Json) : Prop :=
  ∀ {input : ByteArray} {pos d : Nat}, j.depth < d → At input pos (bytes j.compact) →
    EndsValue input (pos + (bytes j.compact).length) →
    bySchema env fuel s ⟨input, pos, d⟩ = .ok r ⟨input, pos + (bytes j.compact).length, d⟩

/-- The text of a value other than `null` does not start with the `n` of `null`. -/
theorem compact_head_ne_null {j : Json} (hj : j.Canonical) (hnull : j ≠ .null) :
    ∃ b rest, bytes j.compact = b :: rest ∧ isBlank b = false ∧ b ≠ 110 := by
  cases hj with
  | null => exact absurd rfl hnull
  | bool v => cases v <;> exact ⟨_, _, rfl, by decide, by decide⟩
  | @number n hn =>
    cases n with
    | nat n =>
      obtain ⟨b, rest, hbytes, hdigit⟩ := bytes_toString_head n.toNat
      obtain ⟨hblank, -, -, -, h110, -⟩ := digit_not_delim hdigit
      exact ⟨b, rest, hbytes, hblank, h110⟩
    | neg n => exact ⟨45, _, Json.bytes_render_neg hn, by decide, by decide⟩
    | float x => exact absurd hn id
  | string s => exact ⟨34, _, Json.bytes_quote s, by decide, by decide⟩
  | @array items _ => exact ⟨91, _, Json.bytes_compact_array items, by decide, by decide⟩
  | @object fields _ => exact ⟨123, _, Json.bytes_compact_object fields, by decide, by decide⟩

/-! ## Scalars -/

theorem readsBy_text {fuel : Nat} {e : String} {check : String → Except String Json} {str : String}
    {v : Json} (h : check str = .ok v) : ReadsBy env (fuel + 1) (.text e check) (.string str) v := by
  intro input pos d _ hat _
  have hq : input[pos]? = some 34 := by
    have h' : At input pos (bytes (Json.quote str)) := hat
    rw [Json.bytes_quote] at h'
    exact (at_cons.1 h').1
  rw [bySchema]
  apply placed_ok
  rw [bind_ok (skipBlank_at hq (by decide))]
  simp only
  rw [bind_ok (bump_eq _), bind_ok (string_quote hat), h]
  rfl

-- The linter misses `h45`, which decides the match on the first byte.
set_option linter.unusedSimpArgs false in
theorem readsBy_int {fuel : Nat} {range : IntRange} {n : Number} {v : Json} (hn : n.Canonical)
    (h : range.accept n = .ok v) : ReadsBy env (fuel + 1) (.int range) (.number n) v := by
  intro input pos d _ hat hend
  cases n with
  | nat n =>
    obtain ⟨b, rest, hbytes, hdigit⟩ := bytes_toString_head n.toNat
    obtain ⟨hblank, -, -, -, -, -, -, h45⟩ := digit_not_delim hdigit
    have hb : input[pos]? = some b := by
      have h' : At input pos (bytes (toString n.toNat)) := hat
      rw [hbytes] at h'
      exact (at_cons.1 h').1
    rw [bySchema]
    apply placed_ok
    rw [bind_ok (skipBlank_at hb hblank)]
    simp only [h45, hdigit, ↓reduceIte]
    rw [bind_ok (Json.number_nat hat hend), h]
    rfl
  | neg n =>
    have hb : input[pos]? = some 45 := by
      have h' : At input pos (bytes (Number.render (.neg n))) := hat
      rw [Json.bytes_render_neg hn] at h'
      exact (at_cons.1 h').1
    rw [bySchema]
    apply placed_ok
    rw [bind_ok (skipBlank_at hb (by decide))]
    simp only
    rw [bind_ok (bump_eq _), bind_ok (Json.number_neg hn hat hend), h]
    rfl
  | float x => exact absurd hn id

/-! ## Optional values, references and refinements -/

theorem readsBy_null {fuel : Nat} {inner : Schema ν} :
    ReadsBy env (fuel + 1) (.option inner) .null .null := by
  intro input pos d _ hat _
  obtain ⟨hb, hrest⟩ := at_cons.1 (show At input pos [110, 117, 108, 108] from hat)
  rw [bySchema, bind_ok (skipBlank_at hb (by decide))]
  simp only
  rw [bind_ok (bump_eq _), bind_ok (literal_at hrest)]
  rfl

/-- A value other than `null` is read by the inner schema of an optional one. -/
theorem readsBy_option {fuel : Nat} {inner : Schema ν} {j r : Json} (hj : j.Canonical)
    (hnull : j ≠ .null) (h : ReadsBy env fuel inner j r) :
    ReadsBy env (fuel + 1) (.option inner) j r := by
  intro input pos d hd hat hend
  obtain ⟨b, rest, hbytes, hblank, h110⟩ := compact_head_ne_null hj hnull
  have hb : input[pos]? = some b := by
    rw [hbytes] at hat
    exact (at_cons.1 hat).1
  rw [bySchema, bind_ok (skipBlank_at hb hblank)]
  simp only [Option.some.injEq, h110, imp_self]
  exact h hd hat hend

theorem readsBy_ref {fuel : Nat} {n : ν} {j r : Json} (h : ReadsBy env fuel (env n) j r) :
    ReadsBy env (fuel + 1) (.ref n) j r := by
  intro input pos d hd hat hend
  rw [bySchema]
  exact h hd hat hend

theorem readsBy_refine {fuel : Nat} {inner : Schema ν} {check : Json → Except String Json}
    {j v w : Json} (h : ReadsBy env fuel inner j v) (hc : check v = .ok w) :
    ReadsBy env (fuel + 1) (.refine inner check) j w := by
  intro input pos d hd hat hend
  rw [bySchema, bind_ok (h hd hat hend), hc]
  rfl

/-- A tagged value is read as any value, then by the schema in memory. -/
theorem readsBy_tagged {fuel : Nat} {tag : String} {pick : String → ν} {j r : Json}
    (hj : j.Canonical) (hf : j.depth < fuel)
    (h : Schema.ofValue env (8 * j.normalize.size + 16) (.tagged tag pick) j.normalize = .ok r) :
    ReadsBy env (fuel + 1) (.tagged tag pick) j r := by
  intro input pos d hd hat hend
  rw [bySchema, bind_ok (any_compact fuel hj hf hd hat hend), h]
  rfl


/-! ## Members passed over -/

/-- The text of `j`, wherever it stands, is passed over as a value, with any fuel. -/
def Skips (j : Json) : Prop :=
  ∀ {input : ByteArray} {pos d : Nat} (fuel : Nat), At input pos (bytes j.compact) →
    skipValue (fuel + 1) ⟨input, pos, d⟩ = .ok () ⟨input, pos + (bytes j.compact).length, d⟩

/-- A string of plain characters, which needs no escape, is passed over. -/
theorem skips_plain {s : String} (hs : ∀ c ∈ s.toList, Json.plainChar c = true) : Skips (.string s) := by
  intro input pos d fuel hat
  have hq : At input pos (34 :: (s.toList.flatMap String.utf8EncodeChar ++ [34])) := by
    have h' : At input pos (bytes (Json.quote s)) := hat
    rwa [Json.bytes_quote, Json.escapedBytes_plain hs] at h'
  have hlen : (bytes (Json.quote s)).length = (s.toList.flatMap String.utf8EncodeChar).length + 2 := by
    rw [Json.bytes_quote, Json.escapedBytes_plain hs]
    simp
  obtain ⟨h34, hrest⟩ := at_cons.1 hq
  have hplain := Json.plainEnd_at hs hrest (by decide)
  have hclose : input[pos + 1 + (s.toList.flatMap String.utf8EncodeChar).length]? = some 34 :=
    (at_cons.1 (at_append.1 hrest).2).1
  rw [skipValue, bind_ok (skipBlank_at h34 (by decide))]
  simp +decide only [↓reduceIte]
  rw [bind_ok (bump_eq _)]
  unfold skipString
  rw [bind_ok (get_eq _)]
  simp only
  unfold skipStringRest
  rw [bind_ok (get_eq _)]
  simp only [hplain]
  rw [bind_ok (set_eq _ _)]
  simp only [hclose, beq_self_eq_true, ↓reduceIte]
  rw [bump_eq]
  have hlen' : (bytes (Json.string s).compact).length =
      (s.toList.flatMap String.utf8EncodeChar).length + 2 := hlen
  simp only [hlen']
  congr 2
  omega

/-! ## Sequences -/

section Elements

variable {inner : Schema ν} {fuel : Nat}

/-- One element after its comma, followed by what may end it, read onto `acc`. -/
theorem seqElements_comma {x r : Json} (hread : ReadsBy env fuel inner x r) (hx : x.Canonical)
    (hdepth : x.depth < d) {tail : List UInt8}
    (htail : ∃ b rest, tail = b :: rest ∧ (b = 44 ∨ b = 93 ∨ b = 125)) (acc : List Json) (steps : Nat)
    (h : At input pos (44 :: (bytes x.compact ++ tail))) :
    seqElements env fuel inner false acc (steps + 1) ⟨input, pos, d⟩ =
      seqElements env fuel inner false (r :: acc) steps ⟨input, pos + 1 + (bytes x.compact).length, d⟩ := by
  obtain ⟨b, rest, hbytes, hblank, h93, -⟩ := compact_head hx
  obtain ⟨hc, hafter⟩ := at_cons.1 h
  obtain ⟨hxat, htailat⟩ := at_append.1 hafter
  have hb : input[pos + 1]? = some b := by
    rw [hbytes] at hxat
    exact (at_cons.1 hxat).1
  obtain ⟨e, erest, rfl, hend⟩ := htail
  rw [seqElements, bind_ok (hasNext_comma hc hb hblank h93)]
  simp only [↓reduceIte]
  rw [bind_ok (hread hdepth hxat (EndsValue.of_getElem? (at_cons.1 htailat).1 hend))]

/-- The elements after the first, each after its comma, read onto `acc` up to the closing
bracket. The induction is on the elements left; each takes one step of the bound. -/
theorem seqElements_rest {xs rs : List Json} (hread : List.Forall₂ (ReadsBy env fuel inner) xs rs)
    (hcan : ∀ x ∈ xs, x.Canonical) (hdepth : ∀ x ∈ xs, x.depth < d) :
    ∀ (acc : List Json) (steps pos : Nat), xs.length < steps → At input pos (Json.restBytes xs ++ [93]) →
      seqElements env fuel inner false acc steps ⟨input, pos, d⟩ =
        .ok (acc.reverse ++ rs) ⟨input, pos + (Json.restBytes xs).length, d⟩ := by
  induction hread with
  | nil =>
    intro acc steps pos hsteps h
    obtain ⟨s, rfl⟩ : ∃ s, steps = s + 1 := ⟨steps - 1, by simp at hsteps; omega⟩
    rw [seqElements, bind_ok (hasNext_close (at_cons.1 h).1)]
    simp [Json.restBytes]
    rfl
  | @cons x r xs rs hx _ ih =>
    intro acc steps pos hsteps h
    obtain ⟨s, rfl⟩ : ∃ s, steps = s + 1 := ⟨steps - 1, by simp at hsteps; omega⟩
    have h' : At input pos (44 :: (bytes x.compact ++ (Json.restBytes xs ++ [93]))) := by
      simpa [Json.restBytes] using h
    have hrest := (at_append.1 (at_cons.1 h').2).2
    rw [seqElements_comma hx (hcan x List.mem_cons_self) (hdepth x List.mem_cons_self)
        (restBytes_head xs) acc s h',
      ih (fun y hy => hcan y (List.mem_cons_of_mem _ hy)) (fun y hy => hdepth y (List.mem_cons_of_mem _ hy))
        _ s _ (by simp at hsteps; omega) hrest]
    simp [Json.restBytes]
    omega

/-- The elements of an array, read from after its opening bracket up to the closing one. -/
theorem seqElements_first {xs rs : List Json} (hread : List.Forall₂ (ReadsBy env fuel inner) xs rs)
    (hcan : ∀ x ∈ xs, x.Canonical) (hdepth : ∀ x ∈ xs, x.depth < d) {steps : Nat}
    (hsteps : xs.length < steps) (h : At input pos (bytes (Json.compactList xs) ++ [93])) :
    seqElements env fuel inner true [] steps ⟨input, pos, d⟩ =
      .ok rs ⟨input, pos + (bytes (Json.compactList xs)).length, d⟩ := by
  obtain ⟨s, rfl⟩ : ∃ s, steps = s + 1 := ⟨steps - 1, by omega⟩
  cases hread with
  | nil =>
    rw [seqElements, bind_ok (hasNext_close (at_cons.1 h).1)]
    rfl
  | @cons x r xs rs hx hrs =>
    obtain ⟨b, rest, hbytes, hblank, h93, -⟩ := compact_head (hcan x List.mem_cons_self)
    rw [Json.bytes_compactList, List.append_assoc] at h
    rw [Json.bytes_compactList]
    obtain ⟨hxat, hrest⟩ := at_append.1 h
    have hb : input[pos]? = some b := by
      rw [hbytes] at hxat
      exact (at_cons.1 hxat).1
    obtain ⟨e, erest, he, hend⟩ := restBytes_head xs
    have hends : EndsValue input (pos + (bytes x.compact).length) := by
      rw [he] at hrest
      exact EndsValue.of_getElem? (at_cons.1 hrest).1 hend
    rw [seqElements, bind_ok (hasNext_first hb hblank h93)]
    simp only [↓reduceIte]
    rw [bind_ok (hx (hdepth x List.mem_cons_self) hxat hends),
      seqElements_rest hrs (fun y hy => hcan y (List.mem_cons_of_mem _ hy))
        (fun y hy => hdepth y (List.mem_cons_of_mem _ hy)) _ s _ (by simp at hsteps; omega) hrest]
    simp [Nat.add_assoc]

end Elements

/-- An array whose elements read by `inner` reads as a sequence of their readings. -/
theorem readsBy_seq {fuel : Nat} {inner : Schema ν} {xs rs : List Json}
    (hread : List.Forall₂ (ReadsBy env fuel inner) xs rs) (hcan : ∀ x ∈ xs, x.Canonical) :
    ReadsBy env (fuel + 1) (.seq inner) (.array xs) (.array rs) := by
  intro input pos d hd h hend
  rw [Json.bytes_compact_array] at h ⊢
  obtain ⟨hopen, hinside⟩ := at_cons.1 h
  have hclose : input[pos + 1 + (bytes (Json.compactList xs)).length]? = some 93 :=
    (at_cons.1 (at_append.1 hinside).2).1
  have hsize : pos + 1 + (bytes (Json.compactList xs)).length < input.size := by
    have := hinside.lt_size (show (bytes (Json.compactList xs)).length <
      (bytes (Json.compactList xs) ++ [93]).length by simp)
    omega
  have hlen := length_le_compactList hcan
  have hdepth : ∀ x ∈ xs, x.depth < d - 1 := fun x hx => by
    have := Json.depth_lt_of_mem_array hx
    omega
  have hd2 : 2 ≤ d := by
    simp only [Json.depth] at hd
    omega
  rw [bySchema]
  apply placed_ok
  rw [bind_ok (skipBlank_at hopen (by decide))]
  simp only
  rw [bind_ok (remaining_eq _), map_ok (within_ok hd2
    (seqElements_first hread hcan hdepth (by simp only; omega) hinside) (closeList_at hclose))]
  simp only [List.length_cons, List.length_append, List.length_nil]
  congr 2
  omega

/-! ## Maps -/

section Members

variable {inner : Schema ν} {fuel : Nat}

/-- One member after its comma, followed by what may end it, inserted into `acc`. -/
theorem dictMembers_comma {k : String} {x r : Json} (hread : ReadsBy env fuel inner x r)
    (hdepth : x.depth < d) {tail : List UInt8}
    (htail : ∃ b rest, tail = b :: rest ∧ (b = 44 ∨ b = 93 ∨ b = 125)) (acc : Fields) (steps : Nat)
    (h : At input pos (44 :: (Json.memberBytes (k, x) ++ tail))) :
    dictMembers env fuel inner false acc (steps + 1) ⟨input, pos, d⟩ =
      dictMembers env fuel inner false (Keyed.insert acc k r) steps
        ⟨input, pos + 1 + (Json.memberBytes (k, x)).length, d⟩ := by
  obtain ⟨hc, hafter⟩ := at_cons.1 h
  obtain ⟨hk, hcolon, hxat, htailat⟩ := at_member hafter
  have hpos : pos + 1 + (Json.memberBytes (k, x)).length =
      pos + 1 + (bytes (Json.quote k)).length + 1 + (bytes x.compact).length := by
    simp [Json.memberBytes]
    omega
  rw [hpos] at htailat ⊢
  obtain ⟨e, erest, rfl, hend⟩ := htail
  rw [dictMembers, bind_ok (nextKey_comma (at_cons.2 ⟨hc, hk⟩))]
  simp only
  rw [bind_ok (colon_at hcolon),
    bind_ok (hread hdepth hxat (EndsValue.of_getElem? (at_cons.1 htailat).1 hend))]

/-- The members after the first, each after its comma, inserted into `acc` up to the closing
brace. The induction is on the members left; each takes one step of the bound. -/
theorem dictMembers_rest {xs rs : List (String × Json)}
    (hread : List.Forall₂ (fun p q => p.1 = q.1 ∧ ReadsBy env fuel inner p.2 q.2) xs rs)
    (hdepth : ∀ p ∈ xs, p.2.depth < d) :
    ∀ (acc : Fields) (steps pos : Nat), xs.length < steps →
      At input pos (Json.restMembers xs ++ [125]) →
      dictMembers env fuel inner false acc steps ⟨input, pos, d⟩ =
        .ok (rs.foldl (fun acc q => Keyed.insert acc q.1 q.2) acc)
          ⟨input, pos + (Json.restMembers xs).length, d⟩ := by
  induction hread with
  | nil =>
    intro acc steps pos hsteps h
    obtain ⟨s, rfl⟩ : ∃ s, steps = s + 1 := ⟨steps - 1, by simp at hsteps; omega⟩
    rw [dictMembers, bind_ok (nextKey_close (at_cons.1 h).1)]
    simp [Json.restMembers]
    rfl
  | @cons p q xs rs hpq _ ih =>
    intro acc steps pos hsteps h
    obtain ⟨s, rfl⟩ : ∃ s, steps = s + 1 := ⟨steps - 1, by simp at hsteps; omega⟩
    obtain ⟨k, x⟩ := p
    obtain ⟨k', r⟩ := q
    obtain ⟨rfl, hx⟩ := hpq
    have h' : At input pos (44 :: (Json.memberBytes (k, x) ++ (Json.restMembers xs ++ [125]))) := by
      simpa [Json.restMembers] using h
    have hrest := (at_append.1 (at_cons.1 h').2).2
    rw [dictMembers_comma hx (hdepth (k, x) List.mem_cons_self) (restMembers_head xs) acc s h',
      ih (fun q hq => hdepth q (List.mem_cons_of_mem _ hq)) _ s _ (by simp at hsteps; omega)
        (by simpa [Nat.add_assoc] using hrest)]
    simp [Json.restMembers]
    omega

/-- The members of an object, read from after its opening brace up to the closing one, each
inserted in key order. -/
theorem dictMembers_first {xs rs : List (String × Json)}
    (hread : List.Forall₂ (fun p q => p.1 = q.1 ∧ ReadsBy env fuel inner p.2 q.2) xs rs)
    (hdepth : ∀ p ∈ xs, p.2.depth < d) {steps : Nat} (hsteps : xs.length < steps)
    (h : At input pos (bytes (Json.compactFields xs) ++ [125])) :
    dictMembers env fuel inner true [] steps ⟨input, pos, d⟩ =
      .ok (Keyed.ofList rs) ⟨input, pos + (bytes (Json.compactFields xs)).length, d⟩ := by
  obtain ⟨s, rfl⟩ : ∃ s, steps = s + 1 := ⟨steps - 1, by omega⟩
  cases hread with
  | nil =>
    rw [dictMembers, bind_ok (nextKey_close (at_cons.1 h).1)]
    rfl
  | @cons p q xs rs hpq hrs =>
    obtain ⟨k, x⟩ := p
    obtain ⟨k', r⟩ := q
    obtain ⟨rfl, hx⟩ := hpq
    rw [Json.bytes_compactFields, List.append_assoc] at h
    rw [Json.bytes_compactFields]
    obtain ⟨hk, hcolon, hxat, hrest⟩ := at_member h
    have hpos : pos + (Json.memberBytes (k, x)).length =
        pos + (bytes (Json.quote k)).length + 1 + (bytes x.compact).length := by
      simp [Json.memberBytes]
      omega
    rw [hpos] at hrest
    obtain ⟨e, erest, he, hend⟩ := restMembers_head xs
    have hends : EndsValue input (pos + (bytes (Json.quote k)).length + 1 + (bytes x.compact).length) := by
      rw [he] at hrest
      exact EndsValue.of_getElem? (at_cons.1 hrest).1 hend
    rw [dictMembers, bind_ok (nextKey_first hk)]
    simp only
    rw [bind_ok (colon_at hcolon), bind_ok (hx (hdepth (k, x) List.mem_cons_self) hxat hends),
      dictMembers_rest hrs (fun q hq => hdepth q (List.mem_cons_of_mem _ hq)) _ s _
        (by simp at hsteps; omega) hrest]
    simp [Json.memberBytes, Keyed.ofList]
    omega

end Members

/-- An object whose member values read by `inner` reads as a map of their readings, a repeated
key keeping its last. -/
theorem readsBy_dict {fuel : Nat} {inner : Schema ν} {fs rs : List (String × Json)}
    (hread : List.Forall₂ (fun p q => p.1 = q.1 ∧ ReadsBy env fuel inner p.2 q.2) fs rs) :
    ReadsBy env (fuel + 1) (.dict inner) (.object fs) (.object (Keyed.ofList rs)) := by
  intro input pos d hd h hend
  rw [Json.bytes_compact_object] at h ⊢
  obtain ⟨hopen, hinside⟩ := at_cons.1 h
  have hclose : input[pos + 1 + (bytes (Json.compactFields fs)).length]? = some 125 :=
    (at_cons.1 (at_append.1 hinside).2).1
  have hsize : pos + 1 + (bytes (Json.compactFields fs)).length < input.size := by
    have := hinside.lt_size (show (bytes (Json.compactFields fs)).length <
      (bytes (Json.compactFields fs) ++ [125]).length by simp)
    omega
  have hlen := length_le_compactFields fs
  have hdepth : ∀ p ∈ fs, p.2.depth < d - 1 := fun p hp => by
    have := Json.depth_lt_of_mem_object hp
    omega
  have hd2 : 2 ≤ d := by
    simp only [Json.depth] at hd
    omega
  rw [bySchema]
  apply placed_ok
  rw [bind_ok (skipBlank_at hopen (by decide))]
  simp only
  rw [bind_ok (remaining_eq _), map_ok (within_ok hd2
    (dictMembers_first hread hdepth (by simp only; omega) hinside) (closeObject_at hclose))]
  simp only [List.length_cons, List.length_append, List.length_nil]
  congr 2
  omega

/-! ## Records -/

/-- How a record without `rest` fields takes the member `p`: a member that names a field is read
by the field's schema to `rd` of its name, any other is passed over. -/
def MemberReads (env : ν → Schema ν) (fuel : Nat) (fields : List (String × Absent × Schema ν))
    (rd : String → Json) (p : String × Json) : Prop :=
  (∀ f ∈ fields, f.1 = p.1 → ReadsBy env fuel f.2.2 p.2 (rd p.1)) ∧
    ((∀ f ∈ fields, f.1 ≠ p.1) → Skips p.2)

section Fields

variable {fields : List (String × Absent × Schema ν)} {rd : String → Json} {fuel : Nat}

/-- A member whose key has been read: the colon is taken and the value read by the record's rule,
kept under its name when it names a field. -/
theorem recordMembers_key {first : Bool} {k : String} {x : Json} {q : Nat}
    (hkey : nextKey first ⟨input, pos, d⟩ = .ok (some k) ⟨input, q, d⟩)
    (hcolon : input[q]? = some 58) (hxat : At input (q + 1) (bytes x.compact))
    (hend : EndsValue input (q + 1 + (bytes x.compact).length))
    (hm : MemberReads env fuel fields rd (k, x)) (hdepth : x.depth < d) {got : Fields}
    (hfresh : Keyed.get? got k = none) (steps : Nat) :
    recordMembers env fuel fields [] first got [] (steps + 1) ⟨input, pos, d⟩ =
      recordMembers env fuel fields [] false (Schema.readNamed fields rd got [(k, x)]) [] steps
        ⟨input, q + 1 + (bytes x.compact).length, d⟩ := by
  rw [recordMembers, bind_ok hkey]
  simp only
  cases hfind : fields.find? (·.1 == k) with
  | none =>
    have hnone : ∀ f ∈ fields, f.1 ≠ k := fun f hf hfk =>
      List.find?_eq_none.mp hfind f hf (by simpa using hfk)
    simp only [List.isEmpty_nil, ↓reduceIte]
    rw [bind_ok (colon_at hcolon), show 8 * steps + 16 = 8 * steps + 15 + 1 from rfl,
      bind_ok (hm.2 hnone _ hxat)]
    simp [Schema.readNamed, hfind]
  | some f =>
    obtain ⟨name, a, s⟩ := f
    have hname : name = k := by simpa using List.find?_some hfind
    have hv : ReadsBy env fuel s x (rd k) := hm.1 _ (List.mem_of_find?_eq_some hfind) hname
    simp only [hfresh, Option.isSome_none, Bool.false_eq_true, ↓reduceIte]
    rw [bind_ok (colon_at hcolon), bind_ok (hv hdepth hxat hend)]
    simp [Schema.readNamed, hfind]

/-- The members after the first, each after its comma, read by the record's rule up to the
closing brace, where the absent fields are filled. The induction is on the members left; each
takes one step of the bound. -/
theorem recordMembers_rest {xs : List (String × Json)} {G : Fields}
    (hread : ∀ p ∈ xs, MemberReads env fuel fields rd p) (hdepth : ∀ p ∈ xs, p.2.depth < d)
    (hnd : (xs.map Prod.fst).Nodup) :
    ∀ (got : Fields) (steps pos : Nat), xs.length < steps →
      At input pos (Json.restMembers xs ++ [125]) → (∀ p ∈ xs, Keyed.get? got p.1 = none) →
      Schema.fillAbsent fields (Schema.readNamed fields rd got xs) = .ok G →
      recordMembers env fuel fields [] false got [] steps ⟨input, pos, d⟩ =
        .ok G ⟨input, pos + (Json.restMembers xs).length, d⟩ := by
  induction xs with
  | nil =>
    intro got steps pos hsteps h _ hfill
    obtain ⟨s, rfl⟩ : ∃ s, steps = s + 1 := ⟨steps - 1, by simp at hsteps; omega⟩
    rw [recordMembers, bind_ok (nextKey_close (at_cons.1 h).1)]
    simp only [Schema.readNamed, List.foldl_nil] at hfill
    simp only [hfill, ofMismatch, List.isEmpty_nil, ↓reduceIte]
    simp [Json.restMembers]
    rfl
  | cons p xs ih =>
    intro got steps pos hsteps h hfresh hfill
    obtain ⟨s, rfl⟩ : ∃ s, steps = s + 1 := ⟨steps - 1, by simp at hsteps; omega⟩
    obtain ⟨k, x⟩ := p
    rw [List.map_cons, List.nodup_cons] at hnd
    have h' : At input pos (44 :: (Json.memberBytes (k, x) ++ (Json.restMembers xs ++ [125]))) := by
      simpa [Json.restMembers] using h
    obtain ⟨hc, hafter⟩ := at_cons.1 h'
    obtain ⟨hk, hcolon, hxat, hrest⟩ := at_member hafter
    have hpos : pos + 1 + (Json.memberBytes (k, x)).length =
        pos + 1 + (bytes (Json.quote k)).length + 1 + (bytes x.compact).length := by
      simp [Json.memberBytes]
      omega
    rw [hpos] at hrest
    obtain ⟨e, erest, he, hend⟩ := restMembers_head xs
    have hends : EndsValue input (pos + 1 + (bytes (Json.quote k)).length + 1 + (bytes x.compact).length) := by
      rw [he] at hrest
      exact EndsValue.of_getElem? (at_cons.1 hrest).1 hend
    have hfresh' : ∀ q ∈ xs, Keyed.get? (Schema.readNamed fields rd got [(k, x)]) q.1 = none := by
      intro q hq
      have hne : q.1 ≠ k := fun hqk => hnd.1 (List.mem_map.mpr ⟨q, hq, hqk⟩)
      rw [Schema.get?_readNamed, if_neg (by simp [hne]), hfresh q (List.mem_cons_of_mem _ hq)]
    rw [recordMembers_key (nextKey_comma (at_cons.2 ⟨hc, hk⟩)) hcolon hxat hends
        (hread (k, x) List.mem_cons_self) (hdepth (k, x) List.mem_cons_self)
        (hfresh (k, x) List.mem_cons_self) s,
      ih (fun q hq => hread q (List.mem_cons_of_mem _ hq)) (fun q hq => hdepth q (List.mem_cons_of_mem _ hq))
        hnd.2 _ s _ (by simp at hsteps; omega) hrest hfresh' hfill]
    simp [Json.restMembers, Json.memberBytes]
    omega

/-- The members of a record's object, read from after its opening brace up to the closing one,
the absent fields filled at the end. -/
theorem recordMembers_first {xs : List (String × Json)} {G : Fields}
    (hread : ∀ p ∈ xs, MemberReads env fuel fields rd p) (hdepth : ∀ p ∈ xs, p.2.depth < d)
    (hnd : (xs.map Prod.fst).Nodup) {steps : Nat} (hsteps : xs.length < steps)
    (h : At input pos (bytes (Json.compactFields xs) ++ [125]))
    (hfill : Schema.fillAbsent fields (Schema.readNamed fields rd [] xs) = .ok G) :
    recordMembers env fuel fields [] true [] [] steps ⟨input, pos, d⟩ =
      .ok G ⟨input, pos + (bytes (Json.compactFields xs)).length, d⟩ := by
  obtain ⟨s, rfl⟩ : ∃ s, steps = s + 1 := ⟨steps - 1, by omega⟩
  cases xs with
  | nil =>
    rw [recordMembers, bind_ok (nextKey_close (at_cons.1 h).1)]
    simp only [Schema.readNamed, List.foldl_nil] at hfill
    simp only [hfill, ofMismatch, List.isEmpty_nil, ↓reduceIte]
    rfl
  | cons p xs =>
    obtain ⟨k, x⟩ := p
    rw [List.map_cons, List.nodup_cons] at hnd
    rw [Json.bytes_compactFields, List.append_assoc] at h
    rw [Json.bytes_compactFields]
    obtain ⟨hk, hcolon, hxat, hrest⟩ := at_member h
    have hpos : pos + (Json.memberBytes (k, x)).length =
        pos + (bytes (Json.quote k)).length + 1 + (bytes x.compact).length := by
      simp [Json.memberBytes]
      omega
    rw [hpos] at hrest
    obtain ⟨e, erest, he, hend⟩ := restMembers_head xs
    have hends : EndsValue input (pos + (bytes (Json.quote k)).length + 1 + (bytes x.compact).length) := by
      rw [he] at hrest
      exact EndsValue.of_getElem? (at_cons.1 hrest).1 hend
    have hfresh' : ∀ q ∈ xs, Keyed.get? (Schema.readNamed fields rd [] [(k, x)]) q.1 = none := by
      intro q hq
      have hne : q.1 ≠ k := fun hqk => hnd.1 (List.mem_map.mpr ⟨q, hq, hqk⟩)
      rw [Schema.get?_readNamed, if_neg (by simp [hne])]
      rfl
    rw [recordMembers_key (nextKey_first hk) hcolon hxat hends (hread (k, x) List.mem_cons_self)
        (hdepth (k, x) List.mem_cons_self) rfl s,
      recordMembers_rest (fun q hq => hread q (List.mem_cons_of_mem _ hq))
        (fun q hq => hdepth q (List.mem_cons_of_mem _ hq)) hnd.2 _ s _ (by simp at hsteps; omega)
        hrest hfresh' hfill]
    simp [Json.memberBytes]
    omega

end Fields

/-- A record without `rest` fields reads an object whose keys are distinct to `G`, field by field,
when every member that names no field is passed over and `G` holds nothing but the fields. -/
theorem readsBy_record {fuel : Nat} {name : String} {fields : List (String × Absent × Schema ν)}
    {fs : List (String × Json)} {G : Fields} (hnd : (fs.map Prod.fst).Nodup) (hG : Keyed.Sorted G)
    (hfields : ∀ f ∈ fields, Schema.FieldReads (ReadsBy env fuel) G (Keyed.get? fs f.1) f)
    (hskip : ∀ p ∈ fs, (∀ f ∈ fields, f.1 ≠ p.1) → Skips p.2)
    (hother : ∀ k, (∀ f ∈ fields, f.1 ≠ k) → Keyed.get? G k = none) :
    ReadsBy env (fuel + 1) (.record name fields []) (.object fs) (.object G) := by
  obtain ⟨hread, habsent⟩ := Schema.FieldReads.members hnd hfields
  intro input pos d hd h hend
  have hmembers : ∀ p ∈ fs, MemberReads env fuel fields (fun k => (Keyed.get? G k).getD .null) p := by
    intro p hp
    refine ⟨fun f hf hfp => ?_, hskip p hp⟩
    obtain ⟨r, hr, hreads⟩ := hread p hp f hf hfp
    show ReadsBy env fuel f.2.2 p.2 ((Keyed.get? G p.1).getD .null)
    rw [hr]
    exact hreads
  have hfill := Schema.fillAbsent_readNamed hG
    (fun p hp f hf hfp => by
      obtain ⟨r, hr, -⟩ := hread p hp f hf hfp
      rw [hr]
      rfl)
    habsent hother
  rw [Json.bytes_compact_object] at h ⊢
  obtain ⟨hopen, hinside⟩ := at_cons.1 h
  have hclose : input[pos + 1 + (bytes (Json.compactFields fs)).length]? = some 125 :=
    (at_cons.1 (at_append.1 hinside).2).1
  have hsize : pos + 1 + (bytes (Json.compactFields fs)).length < input.size := by
    have := hinside.lt_size (show (bytes (Json.compactFields fs)).length <
      (bytes (Json.compactFields fs) ++ [125]).length by simp)
    omega
  have hlen := length_le_compactFields fs
  have hdepth : ∀ p ∈ fs, p.2.depth < d - 1 := fun p hp => by
    have := Json.depth_lt_of_mem_object hp
    omega
  have hd2 : 2 ≤ d := by
    simp only [Json.depth] at hd
    omega
  rw [bySchema]
  apply placed_ok
  rw [bind_ok (skipBlank_at hopen (by decide))]
  simp only
  rw [bind_ok (remaining_eq _), map_ok (within_ok hd2
    (recordMembers_first hmembers hdepth hnd (by simp only; omega) hinside hfill)
    (closeObject_at hclose))]
  simp only [List.length_cons, List.length_append, List.length_nil]
  congr 2
  omega

/-! ## Whole texts -/

/-- The compact text of a value that nests at most 127 containers and reads by `s`, with the fuel
the reader gives a text of its length, reads to what it reads to. -/
theorem readText_of_readsBy {s : Schema ν} {j r : Json} (hd : j.depth < 128)
    (h : ReadsBy env (8 * j.compact.toUTF8.size + 16) s j r) :
    Schema.readText env s j.compact.toUTF8 = .ok r := by
  have hat : At j.compact.toUTF8 0 (bytes j.compact) := by
    rw [String.toUTF8_eq_toByteArray]
    exact at_toByteArray _
  have hsize : j.compact.toUTF8.size = (bytes j.compact).length := by
    rw [String.toUTF8_eq_toByteArray, toByteArray_eq, List.size_toByteArray]
  have hend : EndsValue j.compact.toUTF8 (0 + (bytes j.compact).length) := by
    intro b hb
    rw [getElem?_neg _ _ (by omega)] at hb
    cases hb
  have hread := h hd hat hend
  rw [Nat.zero_add] at hread
  unfold Schema.readText
  simp only [EStateM.run, Cursor.start]
  rw [bind_ok hread, bind_ok (skipBlank_end (by omega))]
  rfl

end ReadM

end MergePatch
