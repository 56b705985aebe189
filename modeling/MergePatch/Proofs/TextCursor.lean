import Mathlib
import MergePatch.Json.Read
/-!
# Reading text, step by step

The readers of JSON text walk a byte array with a cursor. This module computes their small steps
on text known to stand at the cursor: `Text.At input pos bs` says that the bytes `bs` stand in
`input` from `pos` on, and `Text.bytes s` are the UTF-8 bytes of a text. A step of a reader is an
equation of its result at a cursor; `ReadM.bind_ok` and `ReadM.bind_error` chain the steps of a
`do` block.
-/

namespace MergePatch

/-- The loop of `ByteArray.toList` conses the bytes from `i` on onto the reversed prefix. -/
theorem ByteArray.toList_loop (bs : ByteArray) (i : Nat) (r : List UInt8) :
    ByteArray.toList.loop bs i r = r.reverse ++ bs.data.toList.drop i := by
  have hlen : bs.data.toList.length = bs.size := by simp
  induction h : bs.size - i generalizing i r with
  | zero =>
    rw [ByteArray.toList.loop, if_neg (by omega)]
    rw [List.drop_eq_nil_of_le (by omega), List.append_nil]
  | succ n ih =>
    rw [ByteArray.toList.loop, if_pos (by omega), ih (i + 1) _ (by omega)]
    have hi : i < bs.data.toList.length := by omega
    rw [List.drop_eq_getElem_cons hi]
    have hi' : i < bs.data.size := by simpa using hi
    have hget : bs.get! i = bs.data.toList[i] := by
      simp [ByteArray.get!, getElem!_def, Array.getElem?_eq_getElem hi']
    simp [hget]

theorem ByteArray.toList_eq (bs : ByteArray) : bs.toList = bs.data.toList := by
  simp [ByteArray.toList, ByteArray.toList_loop]

namespace Text

/-- The bytes `bs` stand in `input` from index `pos` on. -/
def At (input : ByteArray) (pos : Nat) (bs : List UInt8) : Prop :=
  ∀ j, j < bs.length → input[pos + j]? = bs[j]?

variable {input : ByteArray} {pos : Nat}

theorem at_append {xs ys : List UInt8} :
    At input pos (xs ++ ys) ↔ At input pos xs ∧ At input (pos + xs.length) ys := by
  constructor
  · intro h
    refine ⟨fun j hj => ?_, fun j hj => ?_⟩
    · rw [h j (by simp; omega), List.getElem?_append_left hj]
    · rw [Nat.add_assoc, h (xs.length + j) (by simp; omega),
        List.getElem?_append_right (by omega)]
      simp
  · rintro ⟨hx, hy⟩ j hj
    rcases Nat.lt_or_ge j xs.length with hlt | hge
    · rw [hx j hlt, List.getElem?_append_left hlt]
    · have := hy (j - xs.length) (by simp at hj; omega)
      rw [show pos + xs.length + (j - xs.length) = pos + j by omega] at this
      rw [this, List.getElem?_append_right hge]

theorem at_cons {b : UInt8} {bs : List UInt8} :
    At input pos (b :: bs) ↔ input[pos]? = some b ∧ At input (pos + 1) bs := by
  rw [← List.singleton_append, at_append]
  simp [At]

theorem At.getElem? {bs : List UInt8} (h : At input pos bs) {j : Nat} (hj : j < bs.length) :
    input[pos + j]? = some bs[j] := by
  rw [h j hj, List.getElem?_eq_getElem hj]

theorem At.lt_size {bs : List UInt8} (h : At input pos bs) {j : Nat} (hj : j < bs.length) :
    pos + j < input.size := by
  have := h.getElem? hj
  by_contra hn
  rw [getElem?_neg input (pos + j) hn] at this
  cases this

theorem At.extract {bs : List UInt8} (h : At input pos bs) :
    input.extract pos (pos + bs.length) = bs.toByteArray := by
  have hsize : (input.extract pos (pos + bs.length)).size = bs.length := by
    rw [ByteArray.size_extract]
    cases hl : bs.length with
    | zero => simp
    | succ n =>
      have := h.lt_size (show n < bs.length by omega)
      omega
  apply ByteArray.ext_getElem (by rw [hsize, List.size_toByteArray])
  intro j hj hj'
  rw [ByteArray.getElem_extract, List.getElem_toByteArray]
  have hj₀ : j < bs.length := by rw [hsize] at hj; exact hj
  have := h.getElem? hj₀
  rw [getElem?_pos input (pos + j) (h.lt_size hj₀)] at this
  exact Option.some.inj this

/-- The UTF-8 bytes of a text. -/
def bytes (s : String) : List UInt8 := s.toList.flatMap String.utf8EncodeChar

@[simp] theorem bytes_append (s t : String) : bytes (s ++ t) = bytes s ++ bytes t := by
  simp [bytes]

theorem toByteArray_eq (s : String) : s.toByteArray = (bytes s).toByteArray := by
  rw [← String.utf8Encode_toList]
  rfl

theorem getElem?_toByteArray (l : List UInt8) (j : Nat) : l.toByteArray[j]? = l[j]? := by
  by_cases hj : j < l.length
  · rw [getElem?_pos l.toByteArray j (by simpa using hj), List.getElem_toByteArray,
      List.getElem?_eq_getElem hj]
  · rw [getElem?_neg l.toByteArray j (by simpa using hj), List.getElem?_eq_none (by omega)]

theorem at_toByteArray (s : String) : At s.toByteArray 0 (bytes s) := by
  intro j _
  rw [toByteArray_eq, Nat.zero_add, getElem?_toByteArray]

theorem skipWhile_stop {p : UInt8 → Bool} {b : UInt8} (h : input[pos]? = some b)
    (hp : p b = false) : skipWhile p input pos = pos := by
  have hlt : pos < input.size := by
    by_contra hn
    rw [getElem?_neg input pos hn] at h
    cases h
  rw [skipWhile, dif_pos hlt]
  rw [getElem?_pos input pos hlt] at h
  rw [Option.some.inj h, hp]
  rfl

/-- Skipping stops at the first byte that fails the test, past bytes that pass it. -/
theorem skipWhile_at {p : UInt8 → Bool} {bs : List UInt8} (h : At input pos bs)
    (hpass : ∀ b ∈ bs, p b = true) (hstop : ∀ b, input[pos + bs.length]? = some b → p b = false) :
    skipWhile p input pos = pos + bs.length := by
  induction bs generalizing pos with
  | nil =>
    rw [skipWhile]
    split
    · rename_i hlt
      rw [hstop _ (by simp [getElem?_pos input pos hlt])]
      simp
    · rfl
  | cons b bs ih =>
    obtain ⟨hb, hrest⟩ := at_cons.1 h
    have hlt : pos < input.size := by simpa using h.lt_size (show 0 < (b :: bs).length by simp)
    rw [skipWhile, dif_pos hlt]
    have hget : input[pos] = b := by
      rw [getElem?_pos input pos hlt] at hb
      exact Option.some.inj hb
    rw [hget, hpass b List.mem_cons_self, if_pos rfl,
      ih hrest (fun b hb => hpass b (List.mem_cons_of_mem _ hb))
        (fun b' hb' => hstop b' (by simpa [Nat.add_assoc, Nat.add_comm 1] using hb'))]
    simp [Nat.add_assoc, Nat.add_comm 1]

/-- What may follow a value in compact text: a comma, a closing bracket or brace, or the end. -/
def EndsValue (input : ByteArray) (pos : Nat) : Prop :=
  ∀ b, input[pos]? = some b → b = 44 ∨ b = 93 ∨ b = 125

theorem EndsValue.not_digit (h : EndsValue input pos) :
    ∀ b, input[pos]? = some b → isDigit b = false := by
  intro b hb
  rcases h b hb with rfl | rfl | rfl <;> decide

end Text

namespace ReadM

variable {α β : Type} {input : ByteArray} {pos d : Nat}

theorem bind_ok {x : ReadM α} {f : α → ReadM β} {c c' : Cursor} {a : α}
    (h : x c = .ok a c') : (x >>= f) c = f a c' := by
  show EStateM.bind x f c = _
  simp [EStateM.bind, h]

theorem bind_error {x : ReadM α} {f : α → ReadM β} {c c' : Cursor} {e : ReadError}
    (h : x c = .error e c') : (x >>= f) c = .error e c' := by
  show EStateM.bind x f c = _
  simp [EStateM.bind, h]

theorem bump_eq (c : Cursor) : bump c = .ok () { c with pos := c.pos + 1 } := rfl

theorem get_eq (c : Cursor) : (get : ReadM Cursor) c = .ok c c := rfl

theorem set_eq (c c' : Cursor) : (set c' : ReadM PUnit) c = .ok ⟨⟩ c' := rfl

theorem next_at {b : UInt8} (h : input[pos]? = some b) :
    next ⟨input, pos, d⟩ = .ok (some b) ⟨input, pos + 1, d⟩ := by
  simp [next, bind, EStateM.bind, peek, bump, modify, modifyGet, MonadStateOf.modifyGet,
    EStateM.modifyGet, h, pure, EStateM.pure]

theorem modify_eq (f : Cursor → Cursor) (c : Cursor) : (modify f : ReadM Unit) c = .ok () (f c) :=
  rfl

theorem peek_eq (c : Cursor) : peek c = .ok c.input[c.pos]? c := rfl

theorem skipBlank_at {b : UInt8} (h : input[pos]? = some b) (hb : Text.isBlank b = false) :
    skipBlank ⟨input, pos, d⟩ = .ok (some b) ⟨input, pos, d⟩ := by
  have hskip : Text.skipWhile Text.isBlank input pos = pos := Text.skipWhile_stop h hb
  unfold skipBlank
  rw [bind_ok (modify_eq _ _)]
  simp only [hskip]
  rw [peek_eq]
  simp [h]

theorem literal_at {bs : List UInt8} (h : Text.At input pos bs) :
    literal bs ⟨input, pos, d⟩ = .ok () ⟨input, pos + bs.length, d⟩ := by
  induction bs generalizing pos with
  | nil => rfl
  | cons b bs ih =>
    obtain ⟨hb, hrest⟩ := Text.at_cons.1 h
    rw [literal, bind_ok (next_at hb)]
    simp only [beq_self_eq_true, if_true]
    rw [ih hrest]
    simp [Nat.add_assoc, Nat.add_comm 1]

end ReadM
end MergePatch
