import Mathlib
import MergePatch.Time.HttpDate
import MergePatch.Proofs.CivilDays
import MergePatch.Proofs.Concurrency
import MergePatch.Proofs.TextScalars
/-!
# HTTP dates read back

`Timestamp.httpDate` writes a moment in the form that `httpPattern` reads. Each piece of the
pattern is read by one lemma of `Piece`: `readOne_padded` for a number written to its width,
`readOne_year` for a year with or without its sign, `readOne_weekday` and `readOne_month` for
the names, `readOne_literal` and `readOne_blank` for the rest. `Timestamp.read_httpDate` chains
them over the whole text and gives the fields `httpFields`; `resolve_httpFields` makes the
moment again from them, to the whole second, with a leap second read as second 60 and kept.

Main statement: `httpDate_round_trip`, for every moment the calendar can show
(`IsRepresentable`), together with `Text.trim_blank_append`: white space around a date is
ignored.
-/

namespace MergePatch

/-! ## Text of numbers -/

theorem padded_toList (w n : Nat) :
    (padded w n).toList =
      List.replicate (w - (Nat.toDigits 10 n).length) '0' ++ Nat.toDigits 10 n := by
  simp [padded, Nat.toList_repr, ← String.length_toList]

theorem isDigit_padded {w n : Nat} : ∀ c ∈ (padded w n).toList, c.isDigit = true := by
  rw [padded_toList]
  intro c hc
  rcases List.mem_append.1 hc with hc | hc
  · rw [List.eq_of_mem_replicate hc]
    rfl
  · exact Nat.isDigit_of_mem_toDigits (by decide) (by decide) hc

theorem ofDigitChars_padded (w n : Nat) : Nat.ofDigitChars 10 (padded w n).toList 0 = n := by
  rw [padded_toList, Nat.ofDigitChars_append, Nat.ofDigitChars_replicate_zero, Nat.mul_zero,
    Nat.ofDigitChars_ten_toDigits]

theorem length_padded {w n : Nat} (hw : 0 < w) (hn : n < 10 ^ w) :
    (padded w n).toList.length = w := by
  have := (Nat.length_toDigits_le_iff (by decide) hw).2 hn
  rw [padded_toList, List.length_append, List.length_replicate]
  omega

theorem le_length_padded (w n : Nat) : w ≤ (padded w n).toList.length := by
  rw [padded_toList, List.length_append, List.length_replicate]
  omega

/-! ## Reading pieces -/

namespace Piece

theorem byteLength_eq_sum (cs : List Char) : byteLength cs = (cs.map Char.utf8Size).sum := by
  suffices h : ∀ a, cs.foldl (fun n c => n + c.utf8Size) a = a + (cs.map Char.utf8Size).sum by
    simpa [byteLength] using h 0
  induction cs with
  | nil => simp
  | cons c cs ih =>
    intro a
    simp only [List.foldl_cons, ih, List.map_cons, List.sum_cons]
    omega

theorem length_le_byteLength (cs : List Char) : cs.length ≤ byteLength cs := by
  rw [byteLength_eq_sum]
  induction cs with
  | nil => simp
  | cons c cs ih =>
    have := c.utf8Size_pos
    simp only [List.length_cons, List.map_cons, List.sum_cons]
    omega

/-- `digits` reads back a run of digits that stops at `hi` or before a character that is no
digit. -/
theorem digits_run {ds rest : List Char} {hi : Nat} (hd : ∀ c ∈ ds, c.isDigit = true)
    (hne : ds ≠ []) (hhi : ds.length ≤ hi)
    (hstop : ds.length < hi → ∀ c ∈ rest.head?, c.isDigit = false)
    (hval : Nat.ofDigitChars 10 ds 0 < Nat.pow 2 63) :
    digits (ds ++ rest) 1 hi = .ok ((Nat.ofDigitChars 10 ds 0 : Nat), rest) := by
  have hlen : 1 ≤ ds.length := List.length_pos_iff.2 hne
  have hbyte : 1 ≤ byteLength (ds ++ rest) := le_trans (by simp; omega) (length_le_byteLength _)
  have htake : ((ds ++ rest).take hi).takeWhile Char.isDigit = ds := by
    rw [List.take_append, List.take_of_length_le hhi, List.takeWhile_append_of_pos hd]
    rcases Nat.lt_or_ge ds.length hi with hlt | hge
    · cases rest with
      | nil => simp
      | cons c cs =>
        have hc := hstop hlt c rfl
        rw [List.take_cons (by omega), List.takeWhile_cons_of_neg (by simp [hc])]
        simp
    · simp [show hi - ds.length = 0 by omega]
  have hfold : ds.foldl (fun n c => 10 * n + (c.toNat - 48)) 0 = Nat.ofDigitChars 10 ds 0 := rfl
  unfold digits
  rw [if_neg (by omega), htake, if_neg (by omega), hfold, if_neg (by omega), List.drop_left]

variable {r r' : Reading} {rest : List Char}

theorem read_cons_of_ok {p : Piece} {ps : List Piece} {cs cs' : List Char}
    (h : p.readOne r cs = .ok (r', cs')) : read (p :: ps) r cs = read ps r' cs' := by
  simp only [read, h]
  rfl

theorem readOne_literal {s : String} (hs : s.utf8ByteSize ≤ s.length) (r : Reading)
    (rest : List Char) : (literal s).readOne r (s.toList ++ rest) = .ok (r, rest) := by
  have hbyte := length_le_byteLength (s.toList ++ rest)
  rw [List.length_append, String.length_toList] at hbyte
  simp only [readOne]
  rw [if_neg (by omega), if_pos (List.isPrefixOf_iff_prefix.2 (List.prefix_append _ _)),
    ← String.length_toList, List.drop_left]

theorem readOne_blank {ws : List Char} (hws : ∀ c ∈ ws, Text.isWhiteSpace c = true)
    (hrest : ∀ c ∈ rest.head?, Text.isWhiteSpace c = false) :
    blank.readOne r (ws ++ rest) = .ok (r, rest) := by
  have hkeep : rest.dropWhile Text.isWhiteSpace = rest := by
    cases rest with
    | nil => rfl
    | cons c cs => simp [hrest c rfl]
  simp only [readOne, List.dropWhile_append_of_pos hws, hkeep]

theorem readOne_space {cs : List Char} (h : ∀ c ∈ cs.head?, Text.isWhiteSpace c = false) :
    blank.readOne r (" ".toList ++ cs) = .ok (r, cs) :=
  readOne_blank (by simp; decide) h

/-- Text that starts with no white space keeps that start whatever follows it. -/
theorem not_blank_append {cs : List Char} (hne : cs ≠ [])
    (h : ∀ c ∈ cs.head?, Text.isWhiteSpace c = false) (rest : List Char) :
    ∀ c ∈ (cs ++ rest).head?, Text.isWhiteSpace c = false := by
  rwa [List.head?_append_of_ne_nil _ hne]

/-- A name of three letters is read as its index. -/
theorem name_getD {names : List String} {i : Nat} (hlen : (names.getD i "").toList.length = 3)
    (hfind : names.findIdx? (fun n => n.toList.map Char.toLower ==
      (names.getD i "").toList.map Char.toLower) = some i) (rest : List Char) :
    name names ((names.getD i "").toList ++ rest) = .ok (i, rest) := by
  have hbyte := length_le_byteLength ((names.getD i "").toList ++ rest)
  rw [List.length_append, hlen] at hbyte
  unfold name
  rw [if_neg (by omega), List.take_left' hlen]
  dsimp only
  rw [hfind, List.drop_left' hlen]

/-- Each weekday's name has three letters, is found at its own index, and starts with a
letter. -/
theorem weekdayName_facts : ∀ i < 7, (Date.weekdayNames.getD i "").toList.length = 3 ∧
    Date.weekdayNames.findIdx? (fun n => n.toList.map Char.toLower ==
      (Date.weekdayNames.getD i "").toList.map Char.toLower) = some i ∧
    ∀ c ∈ (Date.weekdayNames.getD i "").toList.head?, Text.isWhiteSpace c = false := by
  intro i hi
  interval_cases i <;> simp [Date.weekdayNames, List.findIdx?_cons] <;> decide

/-- Each month's name has three letters, is found at its own index, and starts with a
letter. -/
theorem monthName_facts : ∀ i < 12, (Date.monthNames.getD i "").toList.length = 3 ∧
    Date.monthNames.findIdx? (fun n => n.toList.map Char.toLower ==
      (Date.monthNames.getD i "").toList.map Char.toLower) = some i ∧
    ∀ c ∈ (Date.monthNames.getD i "").toList.head?, Text.isWhiteSpace c = false := by
  intro i hi
  interval_cases i <;> simp [Date.monthNames, List.findIdx?_cons] <;> decide

theorem readOne_weekday {i : Nat} (hi : i < 7) :
    weekdayName.readOne r ((Date.weekdayNames.getD i "").toList ++ rest) =
      .ok ({ r with weekday := some i }, rest) := by
  obtain ⟨hlen, hfind, -⟩ := weekdayName_facts i hi
  simp only [readOne, name_getD hlen hfind]
  rfl

theorem readOne_month {i : Nat} (hi : i < 12) :
    monthName.readOne r ((Date.monthNames.getD i "").toList ++ rest) =
      .ok ({ r with month := some (i + 1) }, rest) := by
  obtain ⟨hlen, hfind, -⟩ := monthName_facts i hi
  simp only [readOne, name_getD hlen hfind]
  rfl

theorem weekdayName_not_blank {i : Nat} (hi : i < 7) (rest : List Char) :
    ∀ c ∈ ((Date.weekdayNames.getD i "").toList ++ rest).head?, Text.isWhiteSpace c = false := by
  obtain ⟨hlen, -, hhead⟩ := weekdayName_facts i hi
  exact not_blank_append (List.ne_nil_of_length_pos (by omega)) hhead rest

theorem monthName_not_blank {i : Nat} (hi : i < 12) (rest : List Char) :
    ∀ c ∈ ((Date.monthNames.getD i "").toList ++ rest).head?, Text.isWhiteSpace c = false := by
  obtain ⟨hlen, -, hhead⟩ := monthName_facts i hi
  exact not_blank_append (List.ne_nil_of_length_pos (by omega)) hhead rest

theorem digit_not_blank {d : Char} (hd : d.isDigit = true) :
    Text.isWhiteSpace d = false ∧ d ≠ '-' ∧ d ≠ '+' := by
  have h := Json.digit_toNat hd
  refine ⟨?_, ?_, ?_⟩
  · unfold Text.isWhiteSpace
    simp only [Bool.or_eq_false_iff, Bool.and_eq_false_iff, decide_eq_false_iff_not,
      beq_eq_false_iff_ne, ne_eq]
    omega
  all_goals
    rintro rfl
    simp at h

theorem padded_not_blank {w n : Nat} (hw : 0 < w) (rest : List Char) :
    ∀ c ∈ ((padded w n).toList ++ rest).head?, Text.isWhiteSpace c = false := by
  refine not_blank_append (List.ne_nil_of_length_pos (lt_of_lt_of_le hw (le_length_padded w n)))
    ?_ rest
  intro c hc
  exact (digit_not_blank (isDigit_padded c (List.mem_of_mem_head? hc))).1

theorem yearText_not_blank (y : Int) (rest : List Char) :
    ∀ c ∈ ((yearText y).toList ++ rest).head?, Text.isWhiteSpace c = false := by
  unfold yearText
  split
  · exact padded_not_blank (by decide) rest
  · split <;> simp <;> decide

/-- A run of digits of the field's width is read as the field's value. -/
theorem readOne_digits {f : DateField} {ds : List Char} (hd : ∀ c ∈ ds, c.isDigit = true)
    (hne : ds ≠ []) (hval : Nat.ofDigitChars 10 ds 0 < Nat.pow 2 63)
    (hset : r.setField f (Nat.ofDigitChars 10 ds 0 : Nat) = .ok r') :
    (number f ds.length).readOne r (ds ++ rest) = .ok (r', rest) := by
  have hrun : digits (ds ++ rest) 1 ds.length = .ok ((Nat.ofDigitChars 10 ds 0 : Nat), rest) :=
    digits_run hd hne le_rfl (fun h => absurd h (lt_irrefl _)) hval
  obtain ⟨d, ds', rfl⟩ := List.exists_cons_of_ne_nil hne
  obtain ⟨hws, hminus, hplus⟩ := digit_not_blank (hd d List.mem_cons_self)
  have hkeep : (d :: (ds' ++ rest)).dropWhile Text.isWhiteSpace = d :: (ds' ++ rest) :=
    List.dropWhile_cons_of_neg (by simp [hws])
  simp only [readOne, List.cons_append, hkeep]
  rw [List.cons_append] at hrun
  -- a digit is no sign, so the width-bounded branch reads it
  split
  · rename_i h
    exact absurd (List.cons.inj h).1 hminus
  · rename_i h
    exact absurd (List.cons.inj h).1 hplus
  · simp only [hrun, bind, Except.bind, hset]
    rfl

/-- A number written with zeros to the field's width is read back. -/
theorem readOne_padded {f : DateField} {w n : Nat} (hw : 0 < w) (hn : n < 10 ^ w)
    (hbig : n < Nat.pow 2 63) (hset : r.setField f n = .ok r') :
    (number f w).readOne r ((padded w n).toList ++ rest) = .ok (r', rest) := by
  have hlen := length_padded hw hn
  have hne : (padded w n).toList ≠ [] := by
    intro h
    rw [h, List.length_nil] at hlen
    omega
  have hread : (number f (padded w n).toList.length).readOne r ((padded w n).toList ++ rest) =
      .ok (r', rest) :=
    readOne_digits isDigit_padded hne (by rw [ofDigitChars_padded]; exact hbig)
      (by rw [ofDigitChars_padded]; exact hset)
  rwa [hlen] at hread

theorem setField_year {y : Int} (hy : y.natAbs < 2147483648) :
    r.setField .year y = .ok { r with year := some y } := by
  have hpow : Int.pow 2 31 = 2147483648 := rfl
  simp only [Reading.setField, hpow]
  rw [if_pos (by simp only [decide_eq_true_eq, Bool.and_eq_true]; omega)]

theorem setField_day {n : Nat} (h1 : 1 ≤ n) (h31 : n ≤ 31) :
    r.setField .day n = .ok { r with day := some n } := by
  simp only [Reading.setField]
  rw [if_pos (by simp only [decide_eq_true_eq, Bool.and_eq_true]; omega), Int.toNat_natCast]

theorem setField_hour {n : Nat} (h : n ≤ 23) :
    r.setField .hour n = .ok { r with hour := some n } := by
  simp only [Reading.setField]
  rw [if_pos (by simp only [decide_eq_true_eq, Bool.and_eq_true]; omega), Int.toNat_natCast]

theorem setField_minute {n : Nat} (h : n ≤ 59) :
    r.setField .minute n = .ok { r with minute := some n } := by
  simp only [Reading.setField]
  rw [if_pos (by simp only [decide_eq_true_eq, Bool.and_eq_true]; omega), Int.toNat_natCast]

theorem setField_second {n : Nat} (h : n ≤ 60) :
    r.setField .second n = .ok { r with second := some n } := by
  simp only [Reading.setField]
  rw [if_pos (by simp only [decide_eq_true_eq, Bool.and_eq_true]; omega), Int.toNat_natCast]

/-- A sign is not white space, so reading a number starts at it. -/
theorem dropWhile_sign {c : Char} (hc : c = '-' ∨ c = '+') (cs : List Char) :
    (c :: cs).dropWhile Text.isWhiteSpace = c :: cs := by
  apply List.dropWhile_cons_of_neg
  rcases hc with rfl | rfl <;> decide

/-- A year is read back from its text, signed or not, when a character that is no digit
follows it. -/
theorem readOne_year {y : Int} (hy : y.natAbs < 2147483648)
    (hrest : ∀ c ∈ rest.head?, c.isDigit = false) :
    (number .year 4).readOne r ((yearText y).toList ++ rest) =
      .ok ({ r with year := some y }, rest) := by
  have hbig : (2147483648 : Nat) < Nat.pow 2 63 := by decide
  have hne : (padded 4 y.natAbs).toList ≠ [] := by
    intro h
    have := le_length_padded 4 y.natAbs
    rw [h, List.length_nil] at this
    omega
  -- after a sign the digits run to the first character that is not one
  have hrun : digits ((padded 4 y.natAbs).toList ++ rest) 1
      (byteLength ((padded 4 y.natAbs).toList ++ rest)) = .ok ((y.natAbs : Int), rest) := by
    have hhi : (padded 4 y.natAbs).toList.length ≤
        byteLength ((padded 4 y.natAbs).toList ++ rest) :=
      le_trans (by simp) (length_le_byteLength _)
    have hval : Nat.ofDigitChars 10 (padded 4 y.natAbs).toList 0 < Nat.pow 2 63 := by
      rw [ofDigitChars_padded]
      omega
    have h := digits_run isDigit_padded hne hhi (fun _ => hrest) hval
    rwa [ofDigitChars_padded] at h
  unfold yearText
  split
  · -- four digits without a sign
    rename_i h
    refine readOne_padded (by decide) (by have : (10 : Nat) ^ 4 = 10000 := rfl; omega)
      (by omega) ?_
    rw [Int.toNat_of_nonneg h.1]
    exact setField_year hy
  · -- a sign, then the digits of the magnitude
    rename_i h
    split
    · rename_i hneg
      have hy' : -(y.natAbs : Int) = y := by omega
      have hsign : "-".toList = ['-'] := by simp
      simp only [String.toList_append, hsign, List.cons_append, List.nil_append]
      simp only [readOne, dropWhile_sign, hrun, bind, Except.bind, pure, Except.pure, hy',
        setField_year hy, true_or]
    · rename_i hpos
      have hy' : (y.natAbs : Int) = y := by omega
      have hsign : "+".toList = ['+'] := by simp
      simp only [String.toList_append, hsign, List.cons_append, List.nil_append]
      simp only [readOne, dropWhile_sign, hrun, bind, Except.bind, pure, Except.pure, hy',
        setField_year hy, or_true]

end Piece

/-! ## White space around a date -/

namespace Text

/-- White space added at either end is trimmed away again. -/
theorem trim_blank_append {ws s ws' : String} (h : ∀ c ∈ ws.toList, isWhiteSpace c = true)
    (h' : ∀ c ∈ ws'.toList, isWhiteSpace c = true) : trim (ws ++ s ++ ws') = trim s := by
  have hback : ∀ cs : List Char,
      ((cs ++ ws'.toList).reverse.dropWhile isWhiteSpace) = cs.reverse.dropWhile isWhiteSpace := by
    intro cs
    rw [List.reverse_append, List.dropWhile_append_of_pos (by simpa using h')]
  unfold trim
  rw [String.toList_append, String.toList_append, List.append_assoc,
    List.dropWhile_append_of_pos h, List.dropWhile_append]
  -- either the text is all white space, or its trimmed front keeps the added back
  split
  · next hempty =>
    have hnil : s.toList.dropWhile isWhiteSpace = [] := List.isEmpty_iff.1 hempty
    rw [hnil, List.dropWhile_eq_nil_iff.2 h']
  · rw [hback]

end Text

/-! ## The date written and read -/

namespace Timestamp

open Piece

/-- The fields an HTTP date of the moment shows. -/
def httpFields (t : Timestamp) : Reading :=
  { year := some t.date.year, month := some t.date.month, day := some t.date.day,
    weekday := some t.date.weekday, hour := some t.hour, minute := some t.minute,
    second := some t.second }

theorem httpDate_toList (t : Timestamp) : (httpDate t).toList =
    (Date.weekdayNames.getD t.date.weekday "").toList ++ ",".toList ++ " ".toList ++
      (padded 2 t.date.day).toList ++ " ".toList ++
      (Date.monthNames.getD (t.date.month - 1) "").toList ++ " ".toList ++
      (yearText t.date.year).toList ++ " ".toList ++ (padded 2 t.hour).toList ++ ":".toList ++
      (padded 2 t.minute).toList ++ ":".toList ++ (padded 2 t.second).toList ++ " ".toList ++
      "GMT".toList := by
  have hcomma : ", ".toList = ",".toList ++ " ".toList := by simp
  have hgmt : " GMT".toList = " ".toList ++ "GMT".toList := by simp
  simp only [httpDate, String.toList_append, hcomma, hgmt, List.append_assoc]

example : httpDate ⟨784111799, 1500000000⟩ = "Sun, 06 Nov 1994 08:49:60 GMT" := by decide

example : httpDate ⟨253402300800, 0⟩ = "Sat, 01 Jan +10000 00:00:00 GMT" := by decide

/-- Every field of an HTTP date is read back by the pattern, and nothing is left over. -/
theorem read_httpDate {t : Timestamp} (ht : t.IsRepresentable) :
    read httpPattern {} (httpDate t).toList = .ok (httpFields t, []) := by
  obtain ⟨hy0, hy1, hm0, hm1, hd0, hd1⟩ := Date.bounds_of_isValid ht.isValid
  have hsec : t.second ≤ 60 := by
    have := ht.leap
    unfold second
    omega
  have hyear : t.date.year.natAbs < 2147483648 := by
    simp only [Date.minYear, Date.maxYear] at hy0 hy1
    omega
  have hbig : 100 < Nat.pow 2 63 := by decide
  have hh := hour_lt t
  have hmi := minute_lt t
  have hG : ∀ c ∈ "GMT".toList.head?, Text.isWhiteSpace c = false := by
    simp
    decide
  have hgmt (r : Reading) : (literal "GMT").readOne r "GMT".toList = .ok (r, []) := by
    have h := readOne_literal (s := "GMT") (by decide) r []
    rwa [List.append_nil] at h
  rw [httpDate_toList]
  simp only [httpPattern, List.append_assoc]
  -- each field read updates the reading; dsimp keeps it one flat record
  rw [read_cons_of_ok (readOne_weekday (Date.weekday_lt _))]
  rw [read_cons_of_ok (readOne_literal (by decide) _ _),
    read_cons_of_ok (readOne_space (padded_not_blank (by decide) _)),
    read_cons_of_ok (readOne_padded (by decide) (by omega) (by omega) (setField_day hd0 hd1))]
  dsimp only
  rw [read_cons_of_ok (readOne_space (monthName_not_blank (by omega) _)),
    read_cons_of_ok (readOne_month (by omega))]
  dsimp only
  rw [read_cons_of_ok (readOne_space (yearText_not_blank _ _)),
    read_cons_of_ok (readOne_year hyear (by simp))]
  dsimp only
  rw [read_cons_of_ok (readOne_space (padded_not_blank (by decide) _)),
    read_cons_of_ok (readOne_padded (by decide) (by omega) (by omega) (setField_hour (by omega)))]
  dsimp only
  rw [read_cons_of_ok (readOne_literal (by decide) _ _),
    read_cons_of_ok (readOne_padded (by decide) (by omega) (by omega)
      (setField_minute (by omega)))]
  dsimp only
  rw [read_cons_of_ok (readOne_literal (by decide) _ _),
    read_cons_of_ok (readOne_padded (by decide) (by omega) (by omega) (setField_second hsec))]
  dsimp only
  rw [read_cons_of_ok (readOne_space hG), read_cons_of_ok (hgmt _), Nat.sub_add_cancel hm0]
  rfl

theorem toDate_httpFields {t : Timestamp} (hv : t.date.isValid = true) :
    (httpFields t).toDate = .ok t.date := by
  have heta : (⟨t.date.year, t.date.month, t.date.day⟩ : Date) = t.date := rfl
  simp only [Reading.toDate, httpFields, heta, hv, Bool.not_true]
  rfl

/-- The fields of an HTTP date make the moment again, to the whole second; a leap second is
kept as one. -/
theorem resolve_httpFields {t : Timestamp} (ht : t.IsRepresentable) :
    (httpFields t).resolve = .ok t.truncSecs := by
  -- both kinds of second are rebuilt from the second of the day and the truncated nanoseconds
  have hpair (i : Decidable (t.second = 60)) :
      @ite _ (t.second = 60) i (59, 0 + 1000000000) (t.second, 0) =
        (t.secondOfDay % 60, t.truncSecs.nanos) := by
    have hleap := ht.leap
    have hsec : t.second = t.secondOfDay % 60 + t.nanos / 1000000000 := rfl
    have htrunc : t.truncSecs.nanos = t.nanos - t.nanos % 1000000000 := rfl
    split_ifs <;> simp only [Prod.mk.injEq] <;> omega
  simp only [Reading.resolve, toDate_httpFields ht.isValid, bind, Except.bind]
  -- the fields read also sit inside the decisions of the tests, so they are replaced everywhere
  generalize hs : (httpFields t).second.getD 0 = s
  generalize hn : (httpFields t).nanosecond.getD 0 = n
  generalize ho : (httpFields t).offset.getD 0 = o
  obtain rfl : s = t.second := hs.symm
  obtain rfl : n = 0 := hn.symm
  obtain rfl : o = 0 := ho.symm
  simp only [httpFields]
  rw [hpair, ofParts_date, Int.sub_zero]
  -- the moment rebuilt keeps the seconds, so its date is the valid date read
  split
  · rfl
  · next hbad => exact absurd ht.isValid hbad

theorem trim_httpDate (t : Timestamp) : Text.trim (httpDate t) = httpDate t := by
  apply Text.trim_eq_self
  · rw [httpDate_toList]
    simp only [List.append_assoc]
    exact weekdayName_not_blank (Date.weekday_lt _) _
  · rw [httpDate_toList, List.getLast?_append]
    simp
    decide

/-- Reading the HTTP date of a moment the calendar can show gives the moment to the whole
second. -/
theorem readHttpDate_httpDate {t : Timestamp} (ht : t.IsRepresentable) :
    readHttpDate (httpDate t) = .ok t.truncSecs := by
  simp only [readHttpDate, trim_httpDate, read_httpDate ht, bind, Except.bind]
  exact resolve_httpFields ht

/-- Dropping the fraction of a second does not change the HTTP date. -/
theorem httpDate_truncSecs (t : Timestamp) : httpDate t.truncSecs = httpDate t := by
  simp only [httpDate, second_truncSecs]
  rfl

theorem httpDate_round_trip :
    (∀ t : Timestamp, t.IsRepresentable →
      ofHttpDate? (httpDate t) = some t.truncSecs ∧ httpDate t.truncSecs = httpDate t) ∧
    ∀ s ws ws' : String, (∀ c ∈ ws.toList, Text.isWhiteSpace c = true) →
      (∀ c ∈ ws'.toList, Text.isWhiteSpace c = true) →
        ofHttpDate? (ws ++ s ++ ws') = ofHttpDate? s := by
  refine ⟨fun t ht => ⟨?_, httpDate_truncSecs t⟩, fun s ws ws' h h' => ?_⟩
  · simp only [ofHttpDate?, readHttpDate_httpDate ht]
  · simp only [ofHttpDate?, readHttpDate, Text.trim_blank_append h h']

theorem httpDate_round_trip_leap_second :
    IsRepresentable ⟨784111799, 1500000000⟩ ∧
      ofHttpDate? (httpDate ⟨784111799, 1500000000⟩) = some ⟨784111799, 1000000000⟩ :=
  have ht : IsRepresentable ⟨784111799, 1500000000⟩ := ⟨by decide, by decide, by decide⟩
  ⟨ht, (httpDate_round_trip.1 _ ht).1⟩

end Timestamp

end MergePatch
