import MergePatch.Proofs.TextCursor
import MergePatch.Json.Write
/-!
# Scalars read back from their text

The JSON writer puts a string in quotes, escaping the quote, the backslash and the control
characters, and writes an integer in decimal. This module proves that the readers take that text
back: `Json.string_at` reads a quoted string to the same string, and `Json.number_nat` and
`Json.number_neg` read an integer written by `Number.render` to the same number, when what follows
it may end a value (`Text.EndsValue`).

A string is read in rounds, each a run of plain text and one escape; the proof follows the rounds,
one per escaped character (`Json.specials`). An integer is read digit by digit with a bound
(`Text.scanDigits`); the proof follows the digits. Integers read back only in the kind that holds
them (`Number.Canonical`): a non-negative one as `nat`, a negative one as `neg`.
-/

namespace MergePatch

namespace Number

/-- An integer held in the kind that holds it, the way integers are written and read back:
a negative one as `neg`, any other as `nat`. -/
def Canonical : Number → Prop
  | .nat _ => True
  | .neg n => n.toInt < 0
  | .float _ => False

end Number

namespace Json

/-! ## Strings -/

/-- A character written as it is inside a string: no quote, backslash or control character. -/
def plainChar (c : Char) : Bool := c != '"' && c != '\\' && 32 ≤ c.toNat

/-- A byte that a string's run of unescaped text may hold. -/
def plainByte (b : UInt8) : Bool := b != 34 && b != 92 && b ≥ 32

theorem escapeChar_plain {c : Char} (h : plainChar c = true) : escapeChar c = String.singleton c := by
  simp only [plainChar, Bool.and_eq_true, bne_iff_ne, ne_eq, decide_eq_true_eq] at h
  obtain ⟨⟨h1, h2⟩, h3⟩ := h
  have h8 : c.toNat ≠ 8 := by omega
  have h12 : c.toNat ≠ 12 := by omega
  have ht : c ≠ '\t' := fun e => by subst e; simp at h3
  have hn : c ≠ '\n' := fun e => by subst e; simp at h3
  have hr : c ≠ '\r' := fun e => by subst e; simp at h3
  simp [escapeChar, h1, h2, h8, h12, ht, hn, hr, show ¬ c.toNat < 32 by omega]

theorem plainByte_iff (b : UInt8) : plainByte b = true ↔ b.toNat ≠ 34 ∧ b.toNat ≠ 92 ∧ 32 ≤ b.toNat := by
  simp only [plainByte, Bool.and_eq_true, bne_iff_ne, ne_eq, decide_eq_true_eq]
  constructor
  · rintro ⟨⟨h1, h2⟩, h3⟩
    refine ⟨fun h => h1 (UInt8.toNat_inj.1 h), fun h => h2 (UInt8.toNat_inj.1 h), ?_⟩
    exact UInt8.le_iff_toNat_le.1 h3
  · rintro ⟨h1, h2, h3⟩
    refine ⟨⟨fun h => h1 (by rw [h]; rfl), fun h => h2 (by rw [h]; rfl)⟩, ?_⟩
    exact UInt8.le_iff_toNat_le.2 h3

theorem utf8EncodeChar_plain {c : Char} (h : plainChar c = true) :
    ∀ b ∈ String.utf8EncodeChar c, plainByte b = true := by
  simp only [plainChar, Bool.and_eq_true, bne_iff_ne, ne_eq, decide_eq_true_eq] at h
  obtain ⟨⟨h1, h2⟩, h3⟩ := h
  have h34 : c.toNat ≠ 34 := fun e => h1 (Char.toNat_inj.1 e)
  have h92 : c.toNat ≠ 92 := fun e => h2 (Char.toNat_inj.1 e)
  intro b hb
  rw [plainByte_iff]
  have hc : c.val.toNat = c.toNat := rfl
  simp only [String.utf8EncodeChar, hc] at hb
  split_ifs at hb with k1 k2 k3 <;> simp at hb
  · subst hb
    have hb : (UInt8.ofNat c.toNat).toNat = c.toNat := by
      simp [Nat.mod_eq_of_lt (show c.toNat < 256 by omega)]
    omega
  all_goals (rcases hb with rfl | rfl | rfl | rfl <;> simp [UInt8.toNat_add] <;> omega)

theorem bytes_join (l : List String) : Text.bytes (String.join l) = l.flatMap Text.bytes := by
  simp [Text.bytes, String.toList_join, List.flatMap_assoc]
  rfl

/-- The bytes a list of characters takes inside a string, each character escaped. -/
def escapedBytes (cs : List Char) : List UInt8 := cs.flatMap fun c => Text.bytes (escapeChar c)

theorem bytes_quote (s : String) : Text.bytes (quote s) = 34 :: escapedBytes s.toList ++ [34] := by
  simp only [quote, Text.bytes_append, bytes_join, escapedBytes, List.flatMap_map]
  rfl

/-- The ASCII byte of a lower-case hex digit, and its value read back. -/
theorem hexValue?_hexDigit : ∀ k, k < 16 →
    String.utf8EncodeChar (hexDigit k) = [UInt8.ofNat (hexDigit k).toNat] ∧
      Text.hexValue? (UInt8.ofNat (hexDigit k).toNat) = some k
  | 0, _ | 1, _ | 2, _ | 3, _ | 4, _ | 5, _ | 6, _ | 7, _ | 8, _ | 9, _ | 10, _ | 11, _ | 12, _
  | 13, _ | 14, _ | 15, _ => by decide
  | _ + 16, h => absurd h (by omega)

/-- The escapes named by a letter, with the byte each stands for. -/
theorem escape_named {input : ByteArray} {pos d : Nat} (acc : ByteArray) {e v : UInt8}
    (h : input[pos]? = some e)
    (hev : (e, v) ∈ [(34, 34), (92, 92), (98, 8), (102, 12), (110, 10), (114, 13), (116, 9)]) :
    ReadM.escape acc ⟨input, pos, d⟩ = .ok (acc ++ [v].toByteArray) ⟨input, pos + 1, d⟩ := by
  rw [ReadM.escape, ReadM.bind_ok (ReadM.next_at h)]
  simp only [List.mem_cons, Prod.mk.injEq, List.not_mem_nil, or_false] at hev
  rcases hev with ⟨rfl, rfl⟩ | ⟨rfl, rfl⟩ | ⟨rfl, rfl⟩ | ⟨rfl, rfl⟩ | ⟨rfl, rfl⟩ | ⟨rfl, rfl⟩ |
    ⟨rfl, rfl⟩ <;> simp [ByteArray.append_toByteArray_singleton] <;> rfl

/-- Four hex digits standing at the cursor read as their value. -/
theorem hexEscape_at {input : ByteArray} {pos d : Nat} {b₀ b₁ b₂ b₃ : UInt8} {a b e f : Nat}
    (h : Text.At input pos [b₀, b₁, b₂, b₃])
    (hv : [b₀, b₁, b₂, b₃].map Text.hexValue? = [some a, some b, some e, some f]) :
    ReadM.hexEscape ⟨input, pos, d⟩ = .ok (((a * 16 + b) * 16 + e) * 16 + f) ⟨input, pos + 4, d⟩ := by
  have hle : pos + 4 ≤ input.size := h.lt_size (show 3 < 4 by decide)
  have hext := h.extract
  simp only [List.length_cons, List.length_nil] at hext
  rw [ReadM.hexEscape, ReadM.bind_ok (ReadM.get_eq _)]
  simp only [if_pos hle]
  rw [ReadM.bind_ok (ReadM.set_eq _ _)]
  simp only [hext, ByteArray.toList_eq, List.toList_data_toByteArray, hv]
  rfl

theorem utf8_eq (n : Nat) : ReadM.utf8 n = (String.utf8EncodeChar (Char.ofNat n)).toByteArray := by
  rw [ReadM.utf8, String.toUTF8_eq_toByteArray, Text.toByteArray_eq]
  simp [Text.bytes]

/-- A control character written as a four-digit escape reads back as itself. -/
theorem escape_unicode {input : ByteArray} {pos d : Nat} (acc : ByteArray) {c : Char}
    (hc : c.toNat < 32)
    (h : Text.At input pos
      [117, 48, 48, UInt8.ofNat (hexDigit (c.toNat / 16)).toNat,
        UInt8.ofNat (hexDigit (c.toNat % 16)).toNat]) :
    ReadM.escape acc ⟨input, pos, d⟩ =
      .ok (acc ++ (String.utf8EncodeChar c).toByteArray) ⟨input, pos + 5, d⟩ := by
  obtain ⟨hu, hhex⟩ := Text.at_cons.1 h
  obtain ⟨-, hhi⟩ := hexValue?_hexDigit (c.toNat / 16) (by omega)
  obtain ⟨-, hlo⟩ := hexValue?_hexDigit (c.toNat % 16) (by omega)
  have hn : ((0 * 16 + 0) * 16 + c.toNat / 16) * 16 + c.toNat % 16 = c.toNat := by omega
  have hv : [(48 : UInt8), 48, UInt8.ofNat (hexDigit (c.toNat / 16)).toNat,
      UInt8.ofNat (hexDigit (c.toNat % 16)).toNat].map Text.hexValue? =
      [some 0, some 0, some (c.toNat / 16), some (c.toNat % 16)] := by
    simp only [List.map_cons, List.map_nil, hhi, hlo]
    rfl
  have hread : ReadM.hexEscape ⟨input, pos + 1, d⟩ = .ok c.toNat ⟨input, pos + 1 + 4, d⟩ := by
    rw [hexEscape_at hhex hv, hn]
  rw [ReadM.escape, ReadM.bind_ok (ReadM.next_at hu)]
  simp only [show ((117 : UInt8) == 34) = false by decide, show ((117 : UInt8) == 92) = false by decide,
    show ((117 : UInt8) == 47) = false by decide, show ((117 : UInt8) == 98) = false by decide,
    show ((117 : UInt8) == 102) = false by decide, show ((117 : UInt8) == 110) = false by decide,
    show ((117 : UInt8) == 114) = false by decide, show ((117 : UInt8) == 116) = false by decide,
    beq_self_eq_true, Bool.false_eq_true, if_false, if_true]
  rw [ReadM.unicodeEscape, ReadM.bind_ok hread, if_neg (by omega), if_pos (by omega), utf8_eq,
    Char.ofNat_toNat]
  rfl

/-- What reading a character's escape gives: after its backslash come bytes that
`ReadM.escape` reads back as the character. -/
def EscapeReads (c : Char) (tail : List UInt8) : Prop :=
  ∀ {input : ByteArray} {pos d : Nat} (acc : ByteArray), Text.At input pos tail →
    ReadM.escape acc ⟨input, pos, d⟩ =
      .ok (acc ++ (String.utf8EncodeChar c).toByteArray) ⟨input, pos + tail.length, d⟩

theorem escapeReads_named {c : Char} (e v : UInt8) (hv : String.utf8EncodeChar c = [v])
    (hev : (e, v) ∈ [(34, 34), (92, 92), (98, 8), (102, 12), (110, 10), (114, 13), (116, 9)]) :
    EscapeReads c [e] := by
  intro input pos d acc h
  rw [escape_named acc (Text.at_cons.1 h).1 hev, hv]
  rfl

/-- A character that is not plain is escaped by a backslash and bytes that read back as it. -/
theorem escape_special {c : Char} (hc : plainChar c = false) :
    ∃ tail, Text.bytes (escapeChar c) = 92 :: tail ∧ EscapeReads c tail := by
  have hof : ∀ n, c.toNat = n → c = Char.ofNat n := fun n h => by
    rw [← h, Char.ofNat_toNat]
  by_cases h1 : c = '"'
  · subst h1
    exact ⟨[34], by decide, escapeReads_named 34 34 (by decide) (by decide)⟩
  by_cases h2 : c = '\\'
  · subst h2
    exact ⟨[92], by decide, escapeReads_named 92 92 (by decide) (by decide)⟩
  by_cases h8 : c.toNat = 8
  · obtain rfl := hof 8 h8
    exact ⟨[98], by decide, escapeReads_named 98 8 (by decide) (by decide)⟩
  by_cases h9 : c = '\t'
  · subst h9
    exact ⟨[116], by decide, escapeReads_named 116 9 (by decide) (by decide)⟩
  by_cases h10 : c = '\n'
  · subst h10
    exact ⟨[110], by decide, escapeReads_named 110 10 (by decide) (by decide)⟩
  by_cases h12 : c.toNat = 12
  · obtain rfl := hof 12 h12
    exact ⟨[102], by decide, escapeReads_named 102 12 (by decide) (by decide)⟩
  by_cases h13 : c = '\r'
  · subst h13
    exact ⟨[114], by decide, escapeReads_named 114 13 (by decide) (by decide)⟩
  -- the other control characters take a four-digit escape
  have hlt : c.toNat < 32 := by
    simp only [plainChar, Bool.and_eq_false_iff, bne_eq_false_iff_eq,
      decide_eq_false_iff_not, not_le] at hc
    rcases hc with (h | h) | h
    · exact absurd h h1
    · exact absurd h h2
    · exact h
  refine ⟨[117, 48, 48, UInt8.ofNat (hexDigit (c.toNat / 16)).toNat,
      UInt8.ofNat (hexDigit (c.toNat % 16)).toNat], ?_, fun acc h => escape_unicode acc hlt h⟩
  obtain ⟨hhi, -⟩ := hexValue?_hexDigit (c.toNat / 16) (by omega)
  obtain ⟨hlo, -⟩ := hexValue?_hexDigit (c.toNat % 16) (by omega)
  simp [escapeChar, h1, h2, h8, h9, h10, h12, h13, hlt, Text.bytes, hhi, hlo]
  rfl

theorem escapedBytes_append (xs ys : List Char) :
    escapedBytes (xs ++ ys) = escapedBytes xs ++ escapedBytes ys := List.flatMap_append

theorem escapedBytes_plain {p : List Char} (hp : ∀ c ∈ p, plainChar c = true) :
    escapedBytes p = p.flatMap String.utf8EncodeChar := by
  induction p with
  | nil => rfl
  | cons c p ih =>
    simp only [escapedBytes, List.flatMap_cons] at ih ⊢
    rw [escapeChar_plain (hp c List.mem_cons_self),
      ih (fun c' hc' => hp c' (List.mem_cons_of_mem _ hc'))]
    simp [Text.bytes]

/-- The run of plain text ends where a byte that is not plain stands. -/
theorem plainEnd_at {input : ByteArray} {pos : Nat} {p : List Char} {rest : List UInt8} {b : UInt8}
    (hp : ∀ c ∈ p, plainChar c = true) (h : Text.At input pos (p.flatMap String.utf8EncodeChar ++ b :: rest))
    (hb : plainByte b = false) :
    Text.plainEnd input pos = pos + (p.flatMap String.utf8EncodeChar).length := by
  obtain ⟨hplain, hrest⟩ := Text.at_append.1 h
  refine Text.skipWhile_at hplain (fun b' hb' => ?_) (fun b' hb' => ?_)
  · obtain ⟨c, hc, hbc⟩ := List.mem_flatMap.1 hb'
    exact utf8EncodeChar_plain (hp c hc) b' hbc
  · rw [(Text.at_cons.1 hrest).1] at hb'
    cases hb'
    exact hb

theorem toByteArray_ofList_append (xs ys : List Char) :
    (String.ofList (xs ++ ys)).toByteArray =
      (String.ofList xs).toByteArray ++ (ys.flatMap String.utf8EncodeChar).toByteArray := by
  simp [String.toByteArray_ofList, List.utf8Encode]

theorem fromUTF8?_ofList (cs : List Char) :
    String.fromUTF8? (String.ofList cs).toByteArray = some (String.ofList cs) := by
  rw [String.fromUTF8?, dif_pos (String.ofList cs).isValidUTF8]
  rfl

/-- The characters of a string that take an escape. -/
def specials (cs : List Char) : Nat := (cs.filter fun c => !plainChar c).length

/-- Reading the rest of a string: each round takes a run of plain text and one escape, until
the closing quote. The induction is on the rounds left, one per escaped character. -/
theorem stringRest_at {input : ByteArray} {d : Nat} (fuel : Nat) :
    ∀ (cs pre : List Char) (pos : Nat), specials cs < fuel →
      Text.At input pos (escapedBytes cs ++ [34]) →
      ReadM.stringRest (String.ofList pre).toByteArray fuel ⟨input, pos, d⟩ =
        .ok (String.ofList (pre ++ cs)) ⟨input, pos + (escapedBytes cs).length + 1, d⟩ := by
  induction fuel with
  | zero => intro cs pre pos h; omega
  | succ fuel ih =>
    intro cs pre pos hfuel h
    -- the run of plain characters, then the rest
    have hsplit : cs.takeWhile plainChar ++ cs.dropWhile plainChar = cs :=
      List.takeWhile_append_dropWhile
    have hplain : ∀ c ∈ cs.takeWhile plainChar, plainChar c = true :=
      fun c hc => List.mem_takeWhile_imp hc
    have hhead : ∀ c rest', cs.dropWhile plainChar = c :: rest' → plainChar c = false := by
      intro c rest' hcr
      have := @List.head_dropWhile_not _ plainChar cs (by simp [hcr])
      simpa [hcr] using this
    generalize cs.takeWhile plainChar = p at hsplit hplain
    generalize cs.dropWhile plainChar = rest at hsplit hhead
    subst hsplit
    have hspecials : specials (p ++ rest) = specials rest := by
      have hp0 : p.filter (fun c => !plainChar c) = [] :=
        List.filter_eq_nil_iff.2 (fun c hc => by simp [hplain c hc])
      simp [specials, List.filter_append, hp0]
    rw [escapedBytes_append, escapedBytes_plain hplain, List.append_assoc] at h
    have hext := (Text.at_append.1 h).1.extract
    rw [ReadM.stringRest, ReadM.bind_ok (ReadM.get_eq _)]
    dsimp only
    cases rest with
    | nil =>
      -- the closing quote ends the run
      have hq : input[pos + (p.flatMap String.utf8EncodeChar).length]? = some 34 :=
        (Text.at_cons.1 (Text.at_append.1 h).2).1
      rw [plainEnd_at hplain h (by decide), ReadM.bind_ok (ReadM.set_eq _ _)]
      simp only [hq, ReadM.bind_ok (ReadM.bump_eq _)]
      rw [if_pos (by decide), hext, ← toByteArray_ofList_append, fromUTF8?_ofList, List.append_nil,
        escapedBytes_plain hplain]
      rfl
    | cons c rest' =>
      -- a run, then one escaped character, then the rounds left
      obtain ⟨tail, hbytes, hreads⟩ := escape_special (hhead c rest' rfl)
      have hesc : escapedBytes (c :: rest') = 92 :: (tail ++ escapedBytes rest') := by
        simp [escapedBytes, hbytes]
      rw [hesc, List.cons_append] at h
      have hback := Text.at_cons.1 (Text.at_append.1 h).2
      have htail := Text.at_append.1
        (show Text.At input _ (tail ++ (escapedBytes rest' ++ [34])) by
          simpa only [List.append_assoc] using hback.2)
      rw [plainEnd_at hplain h (by decide), ReadM.bind_ok (ReadM.set_eq _ _)]
      simp only [hback.1, ReadM.bind_ok (ReadM.bump_eq _)]
      rw [if_neg (by decide), if_pos (by decide), hext, ← toByteArray_ofList_append,
        ReadM.bind_ok (hreads _ htail.1)]
      have hacc : (String.ofList (pre ++ p)).toByteArray ++ (String.utf8EncodeChar c).toByteArray =
          (String.ofList (pre ++ p ++ [c])).toByteArray := by
        rw [toByteArray_ofList_append (pre ++ p) [c]]
        simp only [List.flatMap_cons, List.flatMap_nil, List.append_nil]
      have hcount : specials rest' < fuel := by
        have hc : specials (c :: rest') = specials rest' + 1 := by
          simp [specials, hhead c rest' rfl]
        omega
      rw [hacc, ih rest' _ _ hcount (by simpa [Nat.add_assoc] using htail.2)]
      rw [escapedBytes_append, escapedBytes_plain hplain, hesc]
      simp only [List.append_assoc, List.singleton_append, List.length_append, List.length_cons]
      congr 2
      omega

theorem length_le_escapedBytes (cs : List Char) : cs.length ≤ (escapedBytes cs).length := by
  induction cs with
  | nil => simp [escapedBytes]
  | cons c cs ih =>
    have hc : 1 ≤ (Text.bytes (escapeChar c)).length := by
      cases hp : plainChar c with
      | true =>
        have := c.utf8Size_pos
        simp [escapeChar_plain hp, Text.bytes]
        omega
      | false =>
        obtain ⟨tail, hb, -⟩ := escape_special hp
        simp [hb]
    simp only [escapedBytes, List.flatMap_cons, List.length_append, List.length_cons] at ih ⊢
    omega

/-- A string written by `quote` reads back, the cursor past its closing quote. -/
theorem string_at {input : ByteArray} {pos d : Nat} {s : String}
    (h : Text.At input pos (escapedBytes s.toList ++ [34])) :
    ReadM.string ⟨input, pos, d⟩ = .ok s ⟨input, pos + (escapedBytes s.toList).length + 1, d⟩ := by
  have hsize : pos + (escapedBytes s.toList).length < input.size :=
    h.lt_size (show (escapedBytes s.toList).length < (escapedBytes s.toList ++ [34]).length by simp)
  have hcount : specials s.toList < input.size + 1 := by
    have h₁ : specials s.toList ≤ s.toList.length := List.length_filter_le _ _
    have h₂ := length_le_escapedBytes s.toList
    omega
  rw [ReadM.string, ReadM.bind_ok (ReadM.get_eq _)]
  have key := @stringRest_at input d (input.size + 1) s.toList [] pos hcount h
  simpa using key

/-! ## Numbers -/

/-- The ASCII byte of a character below 128. -/
theorem utf8EncodeChar_ascii {c : Char} (h : c.toNat < 128) :
    String.utf8EncodeChar c = [UInt8.ofNat c.toNat] := by
  simp [String.utf8EncodeChar, show c.toNat ≤ 127 by omega]

theorem digit_toNat {c : Char} (h : c.isDigit = true) : 48 ≤ c.toNat ∧ c.toNat ≤ 57 := by
  simp only [Char.isDigit, Bool.and_eq_true, decide_eq_true_eq] at h
  exact ⟨h.1, h.2⟩

theorem flatMap_ascii (l : List Char) (h : ∀ c ∈ l, c.toNat < 128) :
    l.flatMap String.utf8EncodeChar = l.map fun c => UInt8.ofNat c.toNat := by
  induction l with
  | nil => rfl
  | cons c l ih =>
    rw [List.flatMap_cons, utf8EncodeChar_ascii (h c List.mem_cons_self),
      ih (fun c' hc' => h c' (List.mem_cons_of_mem _ hc'))]
    rfl

/-- The bytes of the decimal digits of a number. -/
theorem bytes_toString (k : Nat) :
    Text.bytes (toString k) = (Nat.toDigits 10 k).map fun c => UInt8.ofNat c.toNat := by
  simp only [Text.bytes, Nat.toString_eq_repr, Nat.toList_repr]
  exact flatMap_ascii _ fun c hc => by
    have := digit_toNat (Nat.isDigit_of_mem_toDigits (by decide) (by decide) hc)
    omega

/-- The byte of a decimal digit is a digit byte, of the digit's value. -/
theorem digit_byte {c : Char} (h : c.isDigit = true) :
    Text.isDigit (UInt8.ofNat c.toNat) = true ∧ (UInt8.ofNat c.toNat - 48).toNat = c.toNat - 48 := by
  obtain ⟨h₁, h₂⟩ := digit_toNat h
  have hb : (UInt8.ofNat c.toNat).toNat = c.toNat := by
    simp [Nat.mod_eq_of_lt (show c.toNat < 256 by omega)]
  have hlo : (48 : UInt8) ≤ UInt8.ofNat c.toNat := by
    rw [UInt8.le_iff_toNat_le, hb]
    exact h₁
  have hhi : UInt8.ofNat c.toNat ≤ 57 := by
    rw [UInt8.le_iff_toNat_le, hb]
    exact h₂
  refine ⟨by simp [Text.isDigit, hlo, hhi], ?_⟩
  rw [UInt8.toNat_sub_of_le _ _ hlo, hb]
  rfl

/-- Reading digits only makes the value grow. -/
theorem le_ofDigitChars (cs : List Char) (init : Nat) : init ≤ Nat.ofDigitChars 10 cs init := by
  rw [Nat.ofDigitChars_eq_ofDigitChars_zero]
  have : 1 ≤ 10 ^ cs.length := Nat.one_le_pow _ _ (by decide)
  nlinarith

/-- Digits followed by a byte that is not a digit are read onto `acc` in full while the value
stays within the limit. -/
theorem scanDigits_at {input : ByteArray} (limit : Nat) :
    ∀ (ds : List Char) (pos acc : Nat), (∀ c ∈ ds, c.isDigit = true) →
      Text.At input pos (ds.map fun c => UInt8.ofNat c.toNat) →
      (∀ b, input[pos + ds.length]? = some b → Text.isDigit b = false) →
      Nat.ofDigitChars 10 ds acc ≤ limit →
      Text.scanDigits input pos acc limit = (Nat.ofDigitChars 10 ds acc, pos + ds.length, false)
  | [], pos, acc, _, _, hstop, _ => by
    rw [Text.scanDigits]
    split
    · rename_i hlt
      simp [hstop input[pos] (by simp [hlt]), Nat.ofDigitChars_nil]
    · simp [Nat.ofDigitChars_nil]
  | c :: ds, pos, acc, hd, hat, hstop, hlim => by
    obtain ⟨hb, hrest⟩ := Text.at_cons.1 hat
    have hlt : pos < input.size := by
      simpa using hat.lt_size (show 0 < ((c :: ds).map fun c => UInt8.ofNat c.toNat).length by simp)
    have hget : input[pos] = UInt8.ofNat c.toNat := by
      rw [getElem?_pos input pos hlt] at hb
      exact Option.some.inj hb
    obtain ⟨hdigit, hval⟩ := digit_byte (hd c List.mem_cons_self)
    -- the value after this digit is where the rest of the digits start from
    have hstep : Nat.ofDigitChars 10 (c :: ds) acc = Nat.ofDigitChars 10 ds (acc * 10 + (c.toNat - 48)) := by
      rw [Nat.ofDigitChars_cons, Nat.mul_comm]
      rfl
    have hle := le_ofDigitChars ds (acc * 10 + (c.toNat - 48))
    rw [Text.scanDigits, dif_pos hlt]
    simp only [hget, hdigit, hval, if_true]
    rw [if_neg (by omega), scanDigits_at limit ds (pos + 1) _ (fun c' hc' => hd c' (List.mem_cons_of_mem _ hc'))
      hrest (fun b hb => hstop b (by simpa [Nat.add_assoc, Nat.add_comm 1] using hb)) (by omega), hstep]
    simp [Nat.add_assoc, Nat.add_comm 1]

/-- The decimal digits of a positive number start with a digit other than zero. -/
theorem toDigits_head {k : Nat} (hk : 0 < k) : ∃ c cs, Nat.toDigits 10 k = c :: cs ∧ c ≠ '0' := by
  induction k using Nat.strong_induction_on with
  | _ k ih =>
    rw [Nat.toDigits_eq_if (by decide)]
    split
    · exact ⟨_, [], rfl, by interval_cases k <;> decide⟩
    · obtain ⟨c, cs, h, hc⟩ := ih (k / 10) (by omega) (by omega)
      exact ⟨c, cs ++ [Nat.digitChar (k % 10)], by rw [h]; rfl, hc⟩

/-- At the end of a value, the integer read so far is the number. -/
theorem numberTail_end {c : Cursor} (hend : Text.EndsValue c.input c.pos) (positive : Bool) (sig : Nat) :
    ReadM.numberTail positive sig c =
      (if positive then pure (.nat (UInt64.ofNat sig))
       else if 1 ≤ sig ∧ sig ≤ Nat.pow 2 63 then pure (.neg (Int64.ofInt (-(sig : Int))))
       else pure (.float (Binary64.ofNat sig).neg) : ReadM Number) c := by
  unfold ReadM.numberTail
  rw [ReadM.bind_ok (ReadM.peek_eq c)]
  cases h : c.input[c.pos]? with
  | none => rfl
  | some b => rcases hend b h with rfl | rfl | rfl <;> rfl

/-- The digits of `k` up to the end of a value take the reader to the end of the integer. -/
theorem number_digits {input : ByteArray} {pos d : Nat} {k : Nat} (hk : k ≤ ReadM.u64Max)
    (h : Text.At input pos (Text.bytes (toString k)))
    (hend : Text.EndsValue input (pos + (Text.bytes (toString k)).length)) (positive : Bool) :
    ReadM.number positive ⟨input, pos, d⟩ =
      ReadM.numberTail positive k ⟨input, pos + (Text.bytes (toString k)).length, d⟩ := by
  rw [bytes_toString] at h hend ⊢
  rcases Nat.eq_zero_or_pos k with rfl | hpos
  · have hb : input[pos]? = some 48 := (Text.at_cons.1 h).1
    have hend' : Text.EndsValue input (pos + 1) := hend
    unfold ReadM.number
    rw [ReadM.bind_ok (ReadM.next_at hb)]
    simp only [beq_self_eq_true, if_true]
    rw [ReadM.bind_ok (ReadM.peek_eq _)]
    cases h' : input[pos + 1]? with
    | none => rfl
    | some b =>
      simp only [hend'.not_digit b h', Bool.false_eq_true, if_false]
      rfl
  · obtain ⟨c, cs, hcs, hc0⟩ := toDigits_head hpos
    rw [hcs] at h hend ⊢
    have hdig : ∀ c' ∈ c :: cs, c'.isDigit = true := fun c' hc' =>
      Nat.isDigit_of_mem_toDigits (by decide) (by decide) (hcs ▸ hc')
    obtain ⟨hb, hrest⟩ := Text.at_cons.1 h
    obtain ⟨hdigit, hval⟩ := digit_byte (hdig c List.mem_cons_self)
    have hc := digit_toNat (hdig c List.mem_cons_self)
    have hne : (UInt8.ofNat c.toNat == 48) = false := by
      rw [beq_eq_false_iff_ne]
      intro heq
      apply hc0
      have h48 : c.toNat = 48 := by
        have := congrArg UInt8.toNat heq
        simpa [Nat.mod_eq_of_lt (show c.toNat < 256 by omega)] using this
      rw [← Char.ofNat_toNat c, h48]
    -- the first digit starts the value that the others complete to `k`
    have hsum : Nat.ofDigitChars 10 cs (c.toNat - 48) = k := by
      have := @Nat.ofDigitChars_ten_toDigits k
      rw [hcs, Nat.ofDigitChars_cons] at this
      simpa using this
    have hend' : Text.EndsValue input (pos + 1 + cs.length) := by
      simpa [Nat.add_assoc, Nat.add_comm 1] using hend
    have hscan := scanDigits_at ReadM.u64Max cs (pos + 1) (c.toNat - 48)
      (fun c' hc' => hdig c' (List.mem_cons_of_mem _ hc')) hrest hend'.not_digit (by omega)
    unfold ReadM.number
    rw [ReadM.bind_ok (ReadM.next_at hb)]
    simp only [hne, hdigit, Bool.false_eq_true, if_false, if_true]
    rw [ReadM.bind_ok (ReadM.get_eq _)]
    simp only [hval, hscan, hsum]
    rw [ReadM.bind_ok (ReadM.set_eq _ _)]
    simp [Nat.add_assoc, Nat.add_comm 1]

theorem bytes_render_neg {n : Int64} (hn : n.toInt < 0) :
    Text.bytes (Number.render (.neg n)) = 45 :: Text.bytes (toString (-n.toInt).toNat) := by
  rw [Number.render, Int.toString_eq_repr, Int.repr_eq_if, if_neg (by omega), Text.bytes_append]
  rfl

/-- A non-negative integer is read back from its digits. -/
theorem number_nat {input : ByteArray} {pos d : Nat} {n : UInt64}
    (h : Text.At input pos (Text.bytes (Number.render (.nat n))))
    (hend : Text.EndsValue input (pos + (Text.bytes (Number.render (.nat n))).length)) :
    ReadM.number true ⟨input, pos, d⟩ =
      .ok (.nat n) ⟨input, pos + (Text.bytes (Number.render (.nat n))).length, d⟩ := by
  have hk : n.toNat ≤ ReadM.u64Max := by
    have := n.toNat_lt
    simp only [ReadM.u64Max, Nat.pow_eq]
    omega
  rw [number_digits hk h hend, numberTail_end hend, if_pos rfl, UInt64.ofNat_toNat]
  rfl

/-- A negative integer is read back from its digits after the sign. -/
theorem number_neg {input : ByteArray} {pos d : Nat} {n : Int64} (hn : n.toInt < 0)
    (h : Text.At input pos (Text.bytes (Number.render (.neg n))))
    (hend : Text.EndsValue input (pos + (Text.bytes (Number.render (.neg n))).length)) :
    ReadM.number false ⟨input, pos + 1, d⟩ =
      .ok (.neg n) ⟨input, pos + (Text.bytes (Number.render (.neg n))).length, d⟩ := by
  rw [bytes_render_neg hn] at h hend ⊢
  have hlo := n.le_toInt
  have hk : (-n.toInt).toNat ≤ ReadM.u64Max := by
    simp only [ReadM.u64Max, Nat.pow_eq]
    omega
  have hend' : Text.EndsValue input (pos + 1 + (Text.bytes (toString (-n.toInt).toNat)).length) := by
    simpa [Nat.add_assoc, Nat.add_comm 1] using hend
  rw [number_digits hk (Text.at_cons.1 h).2 hend', numberTail_end hend', if_neg (by decide),
    if_pos (by simp only [Nat.pow_eq]; omega)]
  have hval : Int64.ofInt (-((-n.toInt).toNat : Int)) = n := by
    rw [show (-((-n.toInt).toNat : Int)) = n.toInt by omega, Int64.ofInt_toInt]
  rw [hval]
  simp [Nat.add_assoc, Nat.add_comm 1]
  rfl

end Json

end MergePatch