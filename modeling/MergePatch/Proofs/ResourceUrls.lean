import Mathlib
import MergePatch.Client.Calls
import MergePatch.Proofs.TextScalars
import MergePatch.Proofs.Setters
import MergePatch.Service.Handler
/-!
# Resource URLs

A client addresses the resource `n` as `{base}/etag-headers/resources/{s}?api-version={q}`, where
`base` is its endpoint without trailing slashes, `s` the name percent-encoded as one path
segment and `q` the API version percent-encoded as a query value. This module shows that the
URL addresses exactly that resource (`resource_urls_address_names`):

* percent-encoding is undone by percent-decoding for every escape set that escapes `%`
  (`Text.percentDecode_percentEncode`), so the segment decodes to the name's UTF-8 bytes and
  distinct names have distinct URLs;
* encoded text is plain printable ASCII and escapes (`Text.Escaped`), so the segment holds no
  `/`, `?`, `#` or space, every `%` in it starts an escape, and the query value holds no `&`,
  `=`, `+` or `#`;
* an empty name addresses nothing: every call on it fails with `invalidName` before its
  transport is used, whatever the transport is.
-/

namespace MergePatch

namespace Text

/-! ## Percent-encoding, one byte at a time -/

variable {escapes : Nat → Bool}

/-- A character that percent-encoded text keeps as itself: printable ASCII that the escape set
does not name. -/
def IsPlain (escapes : Nat → Bool) (c : Char) : Prop :=
  0x20 ≤ c.toNat ∧ c.toNat < 0x7F ∧ escapes c.toNat = false

/-- The shape of percent-encoded text: plain characters, and escapes of `%` followed by the two
upper-case hex digits of a byte. -/
inductive Escaped (escapes : Nat → Bool) : List Char → Prop
  | nil : Escaped escapes []
  | plain {c : Char} {rest : List Char} :
      IsPlain escapes c → Escaped escapes rest → Escaped escapes (c :: rest)
  | escape {rest : List Char} (b : Nat) : b < 256 →
      Escaped escapes rest → Escaped escapes ('%' :: upperHex (b / 16) :: upperHex (b % 16) :: rest)

/-- The hex digits of the sixteen values: ASCII, not `%`, and read back by the decoder. -/
theorem upperHex_facts : ∀ n < 16,
    (upperHex n).toNat < 128 ∧ upperHex n ≠ '%' ∧ hexByteValue? (upperHex n).toNat = some n := by
  decide

theorem upperHex_div (b : Nat) (hb : b < 256) :
    (upperHex (b / 16)).toNat < 128 ∧ upperHex (b / 16) ≠ '%' ∧
      hexByteValue? (upperHex (b / 16)).toNat = some (b / 16) :=
  upperHex_facts _ (by omega)

theorem upperHex_mod (b : Nat) :
    (upperHex (b % 16)).toNat < 128 ∧ upperHex (b % 16) ≠ '%' ∧
      hexByteValue? (upperHex (b % 16)).toNat = some (b % 16) :=
  upperHex_facts _ (Nat.mod_lt _ (by omega))

/-- A byte kept as itself is a plain character, of the byte's own code. -/
theorem percentByte_of_plain {b : Nat} (hb : ¬(b < 0x20 ∨ b ≥ 0x7F ∨ escapes b = true)) :
    percentByte escapes b = [Char.ofNat b] ∧ (Char.ofNat b).toNat = b ∧ IsPlain escapes (Char.ofNat b) := by
  have hval : (Char.ofNat b).toNat = b := by
    simp [Char.ofNat, Char.ofNatAux, Nat.isValidChar, show b < 0xD800 by omega]
  refine ⟨if_neg hb, hval, ?_⟩
  simp only [IsPlain, hval]
  simp only [not_or, Bool.not_eq_true] at hb
  exact ⟨by omega, by omega, hb.2.2⟩

theorem percentByte_of_escaped {b : Nat} (hb : b < 0x20 ∨ b ≥ 0x7F ∨ escapes b = true) :
    percentByte escapes b = ['%', upperHex (b / 16), upperHex (b % 16)] :=
  if_pos hb

/-- Step: the characters of one byte keep the encoded shape. -/
theorem escaped_percentByte {b : Nat} (hb256 : b < 256) {rest : List Char}
    (h : Escaped escapes rest) : Escaped escapes (percentByte escapes b ++ rest) := by
  by_cases hb : b < 0x20 ∨ b ≥ 0x7F ∨ escapes b = true
  · rw [percentByte_of_escaped hb]
    exact .escape b hb256 h
  · rw [(percentByte_of_plain hb).1]
    exact .plain (percentByte_of_plain hb).2.2 h

/-- The characters of one byte are ASCII. -/
theorem percentByte_ascii {b : Nat} (hb256 : b < 256) :
    ∀ c ∈ percentByte escapes b, c.toNat < 128 := by
  by_cases hb : b < 0x20 ∨ b ≥ 0x7F ∨ escapes b = true
  · rw [percentByte_of_escaped hb]
    intro c hc
    simp only [List.mem_cons, List.not_mem_nil, or_false] at hc
    rcases hc with rfl | rfl | rfl
    · decide
    · exact (upperHex_div b hb256).1
    · exact (upperHex_mod b).1
  · obtain ⟨hbyte, hval, -⟩ := percentByte_of_plain hb
    rw [hbyte]
    simp only [List.mem_singleton]
    rintro c rfl
    simp only [not_or] at hb
    omega

/-- Step: decoding the codes of one encoded byte gives the byte back, and goes on after it. -/
theorem percentDecodeBytes_percentByte (h37 : escapes 37 = true) {b : Nat} (hb256 : b < 256)
    (rest : List Nat) :
    percentDecodeBytes ((percentByte escapes b).map Char.toNat ++ rest) =
      b :: percentDecodeBytes rest := by
  by_cases hb : b < 0x20 ∨ b ≥ 0x7F ∨ escapes b = true
  · rw [percentByte_of_escaped hb]
    have hhi := (upperHex_div b hb256).2.2
    have hlo := (upperHex_mod b).2.2
    simp only [List.map_cons, List.map_nil, List.cons_append, List.nil_append]
    rw [show ('%' : Char).toNat = 37 from rfl, percentDecodeBytes, hhi, hlo]
    simp only [List.cons.injEq, and_true]
    omega
  · obtain ⟨hbyte, hval, -⟩ := percentByte_of_plain hb
    -- a plain byte is never `%`, which the escape set names
    have h37b : b ≠ 37 := by
      rintro rfl
      simp [h37] at hb
    rw [hbyte, List.map_singleton, hval, List.singleton_append]
    cases rest with
    | nil => simp [percentDecodeBytes]
    | cons x xs =>
      cases xs with
      | nil => simp [percentDecodeBytes]
      | cons y ys => simp [percentDecodeBytes, h37b]

/-- Run: the encoded bytes keep the encoded shape, are ASCII, and decode back to the bytes. -/
theorem flatMap_percentByte (h37 : escapes 37 = true) (bs : List Nat) (hbs : ∀ b ∈ bs, b < 256) :
    Escaped escapes (bs.flatMap (percentByte escapes)) ∧
      (∀ c ∈ bs.flatMap (percentByte escapes), c.toNat < 128) ∧
      percentDecodeBytes ((bs.flatMap (percentByte escapes)).map Char.toNat) = bs := by
  induction bs with
  | nil => exact ⟨.nil, by simp, by simp [percentDecodeBytes]⟩
  | cons b bs ih =>
    obtain ⟨hesc, hascii, hdec⟩ := ih fun x hx => hbs x (List.mem_cons_of_mem _ hx)
    have hb := hbs b List.mem_cons_self
    refine ⟨?_, ?_, ?_⟩
    · rw [List.flatMap_cons]
      exact escaped_percentByte hb hesc
    · intro c hc
      rw [List.flatMap_cons, List.mem_append] at hc
      exact hc.elim (percentByte_ascii hb c) (hascii c)
    · rw [List.flatMap_cons, List.map_append, percentDecodeBytes_percentByte h37 hb, hdec]

/-- The UTF-8 bytes of a string, as numbers. -/
theorem utf8_codes_lt (s : String) : ∀ b ∈ s.toUTF8.data.toList.map UInt8.toNat, b < 256 := by
  intro b hb
  obtain ⟨x, -, rfl⟩ := List.mem_map.1 hb
  exact x.toNat_lt

/-- The UTF-8 bytes of ASCII text are its character codes. -/
theorem utf8_codes_ascii (cs : List Char) (h : ∀ c ∈ cs, c.toNat < 128) :
    (String.ofList cs).toUTF8.data.toList.map UInt8.toNat = cs.map Char.toNat := by
  rw [String.toUTF8_eq_toByteArray, Text.toByteArray_eq, List.data_toByteArray, List.toList_toArray,
    Text.bytes, String.toList_ofList, Json.flatMap_ascii cs h, List.map_map]
  apply List.map_congr_left
  intro c hc
  simp [Nat.mod_eq_of_lt (show c.toNat < 256 by have := h c hc; omega)]

/-- Percent-encoded text has the encoded shape. -/
theorem escaped_percentEncode (h37 : escapes 37 = true) (s : String) :
    Escaped escapes (percentEncode escapes s).toList := by
  rw [percentEncode, String.toList_ofList]
  exact (flatMap_percentByte h37 _ (utf8_codes_lt s)).1

/-- **Percent-decoding undoes percent-encoding**, for every escape set that escapes `%`: the
decoded bytes are the UTF-8 bytes of the encoded string. -/
theorem percentDecode_percentEncode (h37 : escapes 37 = true) (s : String) :
    percentDecode (percentEncode escapes s) = s.toUTF8 := by
  obtain ⟨-, hascii, hdec⟩ := flatMap_percentByte h37 _ (utf8_codes_lt s)
  rw [percentDecode, percentEncode, utf8_codes_ascii _ hascii, hdec, List.map_map]
  have hid : (Nat.toUInt8 ∘ UInt8.toNat) = id := by
    funext x
    simp
  rw [hid, List.map_id, Array.toArray_toList]

/-- A string's UTF-8 bytes decode to the string. -/
theorem fromUTF8?_toUTF8 (s : String) : String.fromUTF8? s.toUTF8 = some s := by
  rw [String.toUTF8_eq_toByteArray, String.fromUTF8?, dif_pos s.isValidUTF8]
  rfl

/-- Percent-encoding is injective: the encoded text decodes back to the string. -/
theorem percentEncode_injective (h37 : escapes 37 = true) {a b : String}
    (h : percentEncode escapes a = percentEncode escapes b) : a = b := by
  have hdec := congrArg percentDecode h
  rw [percentDecode_percentEncode h37, percentDecode_percentEncode h37] at hdec
  exact String.toByteArray_inj.1 hdec

theorem percentEncode_ne_empty (h37 : escapes 37 = true) {s : String} (hs : s ≠ "") :
    percentEncode escapes s ≠ "" := by
  have hempty : percentEncode escapes "" = "" := by simp [percentEncode]
  exact fun h => hs (percentEncode_injective h37 (h.trans hempty.symm))

/-! ## What the encoded shape rules out -/

/-- A character of encoded text is plain, `%`, or a hex digit of an escape. -/
theorem Escaped.mem {cs : List Char} (he : Escaped escapes cs) {c : Char} (hc : c ∈ cs) :
    IsPlain escapes c ∨ c = '%' ∨ ∃ n < 16, c = upperHex n := by
  induction he with
  | nil => cases hc
  | plain hp _ ih =>
    rcases List.mem_cons.1 hc with rfl | hc
    · exact .inl hp
    · exact ih hc
  | escape b hb _ ih =>
    simp only [List.mem_cons] at hc
    rcases hc with rfl | rfl | rfl | hc
    · exact .inr (.inl rfl)
    · exact .inr (.inr ⟨b / 16, Nat.div_lt_of_lt_mul (by omega), rfl⟩)
    · exact .inr (.inr ⟨b % 16, Nat.mod_lt _ (by omega), rfl⟩)
    · exact ih hc

/-- In encoded text every `%` starts an escape: two hex digits follow it. -/
theorem Escaped.percent_starts_escape (h37 : escapes 37 = true) {cs : List Char}
    (he : Escaped escapes cs) {pre post : List Char} (hcs : cs = pre ++ '%' :: post) :
    ∃ hi lo rest, post = hi :: lo :: rest ∧
      (hexByteValue? hi.toNat).isSome ∧ (hexByteValue? lo.toNat).isSome := by
  induction he generalizing pre with
  | nil => simp at hcs
  | @plain c rest hp _ ih =>
    cases pre with
    | nil =>
      -- the `%` would be plain, but the escape set names it
      simp only [List.nil_append, List.cons.injEq] at hcs
      obtain ⟨rfl, -⟩ := hcs
      have : escapes ('%' : Char).toNat = false := hp.2.2
      exact absurd h37 (by simpa using this)
    | cons x pre => exact ih (List.cons.inj hcs).2
  | @escape rest b hb _ ih =>
    have hhi := upperHex_facts (b / 16) (Nat.div_lt_of_lt_mul (by omega))
    have hlo := upperHex_facts (b % 16) (Nat.mod_lt _ (by omega))
    match pre, hcs with
    | [], hcs =>
      simp only [List.nil_append, List.cons.injEq, true_and] at hcs
      exact ⟨_, _, rest, hcs.symm, by simp [hhi.2.2], by simp [hlo.2.2]⟩
    | [_], hcs =>
      simp only [List.cons_append, List.nil_append, List.cons.injEq] at hcs
      exact absurd hcs.2.1 hhi.2.1
    | [_, _], hcs =>
      simp only [List.cons_append, List.nil_append, List.cons.injEq] at hcs
      exact absurd hcs.2.2.1 hlo.2.1
    | _ :: _ :: _ :: pre, hcs =>
      simp only [List.cons_append, List.cons.injEq] at hcs
      exact ih hcs.2.2.2

end Text

/-! ## The segment and the query value -/

/-- Text that stays one path segment and decodes without guessing: printable ASCII other than
space, `/`, `?` and `#`, in which every `%` starts an escape. -/
def IsSegmentText (s : String) : Prop :=
  (∀ c ∈ s.toList, 0x20 < c.toNat ∧ c.toNat < 0x7F ∧ c ≠ '/' ∧ c ≠ '?' ∧ c ≠ '#') ∧
    ∀ pre post, s.toList = pre ++ '%' :: post → ∃ hi lo rest, post = hi :: lo :: rest ∧
      (Text.hexByteValue? hi.toNat).isSome ∧ (Text.hexByteValue? lo.toNat).isSome

/-- Text that stays one query value: no `&`, `=`, `+` or `#`. -/
def IsQueryText (q : String) : Prop :=
  ∀ c ∈ q.toList, c ≠ '&' ∧ c ≠ '=' ∧ c ≠ '+' ∧ c ≠ '#'

/-- The hex digits are none of the characters a segment or a query value must avoid. -/
theorem upperHex_not_delimiter : ∀ n < 16,
    0x20 < (Text.upperHex n).toNat ∧ (Text.upperHex n).toNat < 0x7F ∧ Text.upperHex n ≠ '/' ∧
      Text.upperHex n ≠ '?' ∧ Text.upperHex n ≠ '#' ∧ Text.upperHex n ≠ '&' ∧
      Text.upperHex n ≠ '=' ∧ Text.upperHex n ≠ '+' := by
  decide

theorem isSegmentText_percentEncode (n : String) :
    IsSegmentText (Text.percentEncode Text.pathSegmentEscapes n) := by
  have h37 : Text.pathSegmentEscapes 37 = true := by decide
  have he := Text.escaped_percentEncode h37 n
  refine ⟨fun c hc => ?_, fun pre post h => he.percent_starts_escape h37 h⟩
  rcases he.mem hc with ⟨hlo, hhi, hesc⟩ | rfl | ⟨k, hk, rfl⟩
  · -- a plain character: the segment's escape set names space, `/`, `?` and `#`
    refine ⟨?_, hhi, ?_, ?_, ?_⟩
    · by_contra hle
      have : c.toNat = 32 := by omega
      simp [this, Text.pathSegmentEscapes] at hesc
    all_goals
      rintro rfl
      revert hesc
      decide
  · decide
  · have := upperHex_not_delimiter k hk
    exact ⟨this.1, this.2.1, this.2.2.1, this.2.2.2.1, this.2.2.2.2.1⟩

theorem isQueryText_percentEncode (v : String) :
    IsQueryText (Text.percentEncode Text.queryValueEscapes v) := by
  have h37 : Text.queryValueEscapes 37 = true := by decide
  intro c hc
  rcases (Text.escaped_percentEncode h37 v).mem hc with ⟨-, -, hesc⟩ | rfl | ⟨k, hk, rfl⟩
  · -- a plain character: the query's escape set names `&`, `=`, `+` and `#`
    refine ⟨?_, ?_, ?_, ?_⟩
    all_goals
      rintro rfl
      revert hesc
      decide
  · decide
  · have := upperHex_not_delimiter k hk
    exact ⟨this.2.2.2.2.2.1, this.2.2.2.2.2.2.1, this.2.2.2.2.2.2.2, this.2.2.2.2.1⟩

/-! ## The client's URLs -/

namespace Client

variable {σ : Type} (c : Client σ)

/-- The endpoint is its base followed by slashes only. -/
theorem endpoint_eq_base : ∃ k, c.options.endpoint = c.base ++ String.ofList (List.replicate k '/') := by
  let l := c.options.endpoint.toList.reverse
  refine ⟨(l.takeWhile (· = '/')).length, ?_⟩
  have hslashes : (l.takeWhile (· = '/')).reverse = List.replicate (l.takeWhile (· = '/')).length '/' := by
    rw [List.eq_replicate_iff]
    refine ⟨List.length_reverse, fun x hx => ?_⟩
    simpa using List.mem_takeWhile_imp (List.mem_reverse.1 hx)
  rw [base, ← String.toList_inj, String.toList_append, String.toList_ofList, String.toList_ofList,
    ← hslashes, ← List.reverse_append, List.takeWhile_append_dropWhile, List.reverse_reverse]

/-- The base does not end with a slash. -/
theorem base_getLast? : c.base.toList.getLast? ≠ some '/' := by
  rw [base, String.toList_ofList, List.getLast?_reverse]
  intro h
  have := List.head?_dropWhile_not (· = '/') c.options.endpoint.toList.reverse
  simp [h] at this

/-- The URL of a named resource. -/
theorem resourceUrl_ok {n : String} (hn : n ≠ "") :
    c.resourceUrl n = .ok (c.base ++ "/etag-headers/resources/" ++
      Text.percentEncode Text.pathSegmentEscapes n ++ "?api-version=" ++
      Text.percentEncode Text.queryValueEscapes c.options.apiVersion) := by
  have hne : n.isEmpty = false := by simpa using hn
  simp [resourceUrl, hne, versionQuery, resourcesPath, String.append_assoc]

/-- Only a named resource has a URL. -/
theorem resourceUrl_empty : c.resourceUrl "" = .error (.invalidName "") := rfl

/-- Distinct names have distinct URLs. -/
theorem resourceUrl_injective {n₁ n₂ u : String} (h₁ : c.resourceUrl n₁ = .ok u)
    (h₂ : c.resourceUrl n₂ = .ok u) : n₁ = n₂ := by
  have hne : ∀ {n}, c.resourceUrl n = .ok u → n ≠ "" := by
    rintro n h rfl
    rw [resourceUrl_empty] at h
    cases h
  rw [resourceUrl_ok c (hne h₁)] at h₁
  rw [resourceUrl_ok c (hne h₂), ← h₁] at h₂
  simp only [Except.ok.injEq, String.append_assoc, String.append_right_inj,
    String.append_left_inj] at h₂
  exact (Text.percentEncode_injective (by decide) h₂).symm

/-- A call on the empty name fails with `invalidName` and leaves the transport's state as it
was. -/
theorem putRaw_empty (body : ByteArray) (options : Headers) (st : σ) :
    (c.putRaw "" body options).run.run st = (.error (.invalidName ""), st) := by
  simp [putRaw, resourceUrl, putRaw.liftExcept]
  rfl

theorem patchRaw_empty (body : ByteArray) (options : Headers) (st : σ) :
    (c.patchRaw "" body options).run.run st = (.error (.invalidName ""), st) := by
  simp [patchRaw, resourceUrl, putRaw.liftExcept]
  rfl

theorem put_empty (r : Resource) (conditions : Option RequestConditions) (st : σ) :
    (c.put "" r conditions).run.run st = (.error (.invalidName ""), st) := by
  simp [put, putRaw, resourceUrl, putRaw.liftExcept]
  rfl

theorem patch_empty (r : Resource) (conditions : Option MatchConditions) (st : σ) :
    (c.patch "" r conditions).run.run st = (.error (.invalidName ""), st) := by
  simp [patch, patchRaw, resourceUrl, putRaw.liftExcept]
  rfl

/-- An endpoint that ends in no slash is its own base. -/
theorem base_eq_endpoint (h : c.options.endpoint.toList.getLast? ≠ some '/') :
    c.base = c.options.endpoint := by
  have hkeep : c.options.endpoint.toList.reverse.dropWhile (· = '/') =
      c.options.endpoint.toList.reverse := by
    cases hl : c.options.endpoint.toList.reverse with
    | nil => rfl
    | cons x xs =>
      have hx : x ≠ '/' := by
        intro hx
        apply h
        rw [← List.head?_reverse, hl, hx]
        rfl
      simp [hx]
  rw [base, hkeep, List.reverse_reverse, String.ofList_toList]

end Client

/-! ## Routing a resource URL -/

namespace Service

/-- An endpoint that is an origin: a scheme, `://`, and an authority that holds no `/`, `?`
or `#`. -/
structure IsOrigin (endpoint : String) : Prop where
  split : ∃ scheme authority, endpoint = scheme ++ "://" ++ authority ∧ scheme ≠ "" ∧
    (∀ ch ∈ scheme.toList, isSchemeChar ch = true) ∧ authority ≠ "" ∧
    ∀ ch ∈ authority.toList, ch ≠ '/' ∧ ch ≠ '?' ∧ ch ≠ '#'

/-- After a scheme of scheme characters and `://` comes the rest of the URI. -/
theorem afterScheme?_scheme {scheme : List Char} (hs : scheme ≠ [])
    (hsc : ∀ ch ∈ scheme, isSchemeChar ch = true) (rest : List Char) :
    afterScheme? (scheme ++ ':' :: '/' :: '/' :: rest) = some rest := by
  have hcolon : isSchemeChar ':' = false := by decide
  have htake : (scheme ++ ':' :: '/' :: '/' :: rest).takeWhile isSchemeChar = scheme := by
    rw [List.takeWhile_append_of_pos hsc]
    simp [hcolon]
  simp [afterScheme?, htake, hs]

/-- The path of a URL below an origin: what follows the authority, up to the query. -/
theorem pathOf_origin {scheme authority path query : String} (hs : scheme ≠ "")
    (hsc : ∀ ch ∈ scheme.toList, isSchemeChar ch = true)
    (ha : ∀ ch ∈ authority.toList, ch ≠ '/' ∧ ch ≠ '?' ∧ ch ≠ '#')
    (hp : ∀ ch ∈ path.toList, ch ≠ '?' ∧ ch ≠ '#') :
    pathOf (scheme ++ "://" ++ authority ++ "/" ++ path ++ "?" ++ query) = "/" ++ path := by
  have hlist : (scheme ++ "://" ++ authority ++ "/" ++ path ++ "?" ++ query).toList =
      scheme.toList ++ ':' :: '/' :: '/' :: (authority.toList ++ '/' :: (path.toList ++ '?' :: query.toList)) := by
    simp
  have hdrop : (authority.toList ++ '/' :: (path.toList ++ '?' :: query.toList)).dropWhile
      (fun c => c ≠ '/' ∧ c ≠ '?' ∧ c ≠ '#') = '/' :: (path.toList ++ '?' :: query.toList) := by
    rw [List.dropWhile_append_of_pos (fun ch h => by simpa using ha ch h)]
    simp
  have htake : ('/' :: (path.toList ++ '?' :: query.toList)).takeWhile (fun c => c ≠ '?' ∧ c ≠ '#') =
      '/' :: path.toList := by
    rw [List.takeWhile_cons_of_pos (by simp), List.takeWhile_append_of_pos (fun ch h => by simpa using hp ch h)]
    simp
  simp only [pathOf, hlist, afterScheme?_scheme (by simpa using hs) hsc, hdrop, htake]
  simp

/-- A path of the collection and one segment without `/` routes to that segment. -/
theorem route?_resource {seg : String} (hne : seg ≠ "") (hslash : '/' ∉ seg.toList) :
    route? (collectionPath ++ "/" ++ seg) = some (.resource seg) := by
  have hlen : (collectionPath ++ "/" ++ seg).length ≠ "/health".length ∧
      (collectionPath ++ "/" ++ seg).length ≠ collectionPath.length := by
    simp only [String.length_append]
    have : "/".length = 1 := rfl
    have : collectionPath.length = 23 := rfl
    have : "/health".length = 7 := rfl
    omega
  have hhealth : collectionPath ++ "/" ++ seg ≠ "/health" := fun h => hlen.1 (congrArg _ h)
  have hcoll : collectionPath ++ "/" ++ seg ≠ collectionPath := fun h => hlen.2 (congrArg _ h)
  have hempty : seg.isEmpty = false := by simpa using hne
  simp [route?, hhealth, hcoll, dropPrefix?_dotted, hempty, hslash]

/-- An origin ends in its authority, so not in a slash. -/
theorem IsOrigin.getLast?_ne {endpoint : String} (h : IsOrigin endpoint) :
    endpoint.toList.getLast? ≠ some '/' := by
  obtain ⟨scheme, authority, hend, -, -, ha, hauth⟩ := h.split
  obtain ⟨a, as, has⟩ := List.exists_cons_of_ne_nil (show authority.toList ≠ [] by simpa using ha)
  rw [hend, String.toList_append, List.getLast?_append_of_ne_nil _ (by simp [has])]
  intro hlast
  exact (hauth _ (List.mem_of_getLast? hlast)).1 rfl

end Service

/-- Below an origin, the path of a resource URL routes to its segment: the base is the endpoint
itself, and the path is the collection and the segment. -/
theorem Client.route?_resourceUrl {σ : Type} (c : Client σ)
    (horigin : Service.IsOrigin c.options.endpoint) {s : String} (hne : s ≠ "")
    (hseg : IsSegmentText s) (q : String) :
    Service.route? (Service.pathOf (c.base ++ "/etag-headers/resources/" ++ s ++ "?api-version=" ++ q)) =
      some (.resource s) := by
  obtain ⟨scheme, authority, hend, hs, hsc, -, hauth⟩ := horigin.split
  have hpathChars : ∀ ch ∈ ("etag-headers/resources/" ++ s).toList, ch ≠ '?' ∧ ch ≠ '#' := by
    intro ch hch
    rw [String.toList_append, List.mem_append] at hch
    rcases hch with hch | hch
    · constructor <;> rintro rfl <;> revert hch <;> decide
    · exact ⟨(hseg.1 ch hch).2.2.2.1, (hseg.1 ch hch).2.2.2.2⟩
  have hurl : c.base ++ "/etag-headers/resources/" ++ s ++ "?api-version=" ++ q =
      scheme ++ "://" ++ authority ++ "/" ++ ("etag-headers/resources/" ++ s) ++ "?" ++
        ("api-version=" ++ q) := by
    rw [c.base_eq_endpoint horigin.getLast?_ne, hend]
    simp only [String.append_assoc]
    rfl
  have hroute : collectionPath ++ "/" ++ s = "/" ++ ("etag-headers/resources/" ++ s) := by
    simp only [collectionPath, ← String.append_assoc]
    rfl
  rw [hurl, Service.pathOf_origin hs hsc hauth hpathChars, ← hroute]
  exact Service.route?_resource hne fun h => (hseg.1 '/' h).2.2.1 rfl

/-- **Resource URLs address exactly the named resource.** The base is the endpoint without its
trailing slashes. The URL of a non-empty name is the base, the collection path, the name encoded
as a segment and the version encoded as a query value; the segment stays one segment, every `%`
in it starts an escape, and it decodes to the name; the query value holds no separator and
decodes to the version. So distinct names have distinct URLs, and below an origin the service
routes the URL to the segment and decodes it to the name. The empty name has no URL, and every
call on it fails with `invalidName` without touching the transport. -/
theorem resource_urls_address_names {σ : Type} (c : Client σ) :
    ((∃ k, c.options.endpoint = c.base ++ String.ofList (List.replicate k '/')) ∧
      c.base.toList.getLast? ≠ some '/') ∧
    (∀ n, n ≠ "" → ∃ s q, c.resourceUrl n =
        .ok (c.base ++ "/etag-headers/resources/" ++ s ++ "?api-version=" ++ q) ∧
      IsSegmentText s ∧ Text.percentDecode s = n.toUTF8 ∧
      IsQueryText q ∧ Text.percentDecode q = c.options.apiVersion.toUTF8 ∧
      (Service.IsOrigin c.options.endpoint →
        Service.route? (Service.pathOf (c.base ++ "/etag-headers/resources/" ++ s ++ "?api-version=" ++ q)) =
          some (.resource s) ∧ String.fromUTF8? (Text.percentDecode s) = some n)) ∧
    (∀ n₁ n₂ u, c.resourceUrl n₁ = .ok u → c.resourceUrl n₂ = .ok u → n₁ = n₂) ∧
    c.resourceUrl "" = .error (.invalidName "") ∧
    ∀ st : σ, (∀ body options, (c.putRaw "" body options).run.run st = (.error (.invalidName ""), st) ∧
        (c.patchRaw "" body options).run.run st = (.error (.invalidName ""), st)) ∧
      (∀ r conditions, (c.put "" r conditions).run.run st = (.error (.invalidName ""), st)) ∧
      (∀ r conditions, (c.patch "" r conditions).run.run st = (.error (.invalidName ""), st)) := by
  have hpath : Text.pathSegmentEscapes 37 = true := by decide
  have hquery : Text.queryValueEscapes 37 = true := by decide
  refine ⟨⟨c.endpoint_eq_base, c.base_getLast?⟩, fun n hn => ?_, fun _ _ _ => c.resourceUrl_injective,
    c.resourceUrl_empty, fun st => ⟨fun body options => ⟨c.putRaw_empty body options st,
      c.patchRaw_empty body options st⟩, fun r cs => c.put_empty r cs st, fun r cs => c.patch_empty r cs st⟩⟩
  set s := Text.percentEncode Text.pathSegmentEscapes n
  have hdec : Text.percentDecode s = n.toUTF8 := Text.percentDecode_percentEncode hpath n
  refine ⟨s, _, c.resourceUrl_ok hn, isSegmentText_percentEncode n, hdec,
    isQueryText_percentEncode _, Text.percentDecode_percentEncode hquery _, fun horigin =>
      ⟨c.route?_resourceUrl horigin (Text.percentEncode_ne_empty hpath hn)
        (isSegmentText_percentEncode n) _, by rw [hdec]; exact Text.fromUTF8?_toUTF8 n⟩⟩

theorem resource_urls_address_names_local :
    Service.IsOrigin "http://127.0.0.1:17373" ∧
      ∃ s q, (⟨{}, fun _ => pure { status := 200 }⟩ : Client Unit).resourceUrl "a/b" =
          .ok ("http://127.0.0.1:17373/etag-headers/resources/" ++ s ++ "?api-version=" ++ q) ∧
        Service.route? (Service.pathOf
          ("http://127.0.0.1:17373/etag-headers/resources/" ++ s ++ "?api-version=" ++ q)) =
          some (.resource s) ∧ String.fromUTF8? (Text.percentDecode s) = some "a/b" := by
  have horigin : Service.IsOrigin "http://127.0.0.1:17373" :=
    ⟨⟨"http", "127.0.0.1:17373", by simp, by simp, by simp [Service.isSchemeChar], by simp,
      by simp⟩⟩
  obtain ⟨s, q, hurl, -, -, -, -, hroute⟩ :=
    (resource_urls_address_names (⟨{}, fun _ => pure { status := 200 }⟩ : Client Unit)).2.1 "a/b" (by simp)
  have hbase : (⟨{}, fun _ => pure { status := 200 }⟩ : Client Unit).base = "http://127.0.0.1:17373" :=
    Client.base_eq_endpoint _ (by simp)
  rw [hbase] at hurl hroute
  exact ⟨horigin, s, q, hurl, hroute horigin⟩

end MergePatch
