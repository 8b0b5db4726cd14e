import LockAudit.Calendar.Iso
import LockAudit.Proofs.Number.Integer
import LockAudit.Proofs.Result

/-!
# Instants come back from their text

The text of an instant is a date in extended form, the letter T, a clock time with a
fraction where there is one, and the offset of UTC. Every number in it is padded to a fixed
width, so each is read by its width alone.
-/

namespace LockAudit

/-! ## Padded numbers -/

namespace Number

variable {width n : Nat} {c : Char}

theorem padded_eq : padded width n =
    List.replicate (width - (Nat.toDigits 10 n).length) '0' ++ Nat.toDigits 10 n := by
  unfold padded
  rw [show toString n = n.repr from rfl, Nat.toList_repr]

theorem length_padded (hwidth : 0 < width) (h : n < Nat.pow 10 width) :
    (padded width n).length = width := by
  have hlength := length_toDigits_le hwidth h
  rw [padded_eq, List.length_append, List.length_replicate]
  omega

theorem isAsciiDigit_of_mem_padded (h : c ∈ padded width n) : Text.isAsciiDigit c = true := by
  rw [padded_eq, List.mem_append] at h
  rcases h with h | h
  · rw [List.eq_of_mem_replicate h]
    decide
  · exact isAsciiDigit_of_mem h

/-- Zeros at the front do not count. -/
theorem digitsValue_zeros (k : Nat) (cs : List Char) :
    Text.digitsValue (List.replicate k '0' ++ cs) = Text.digitsValue cs := by
  induction k with
  | zero => rfl
  | succ k ih => exact ih

theorem digitsValue_padded : Text.digitsValue (padded width n) = n := by
  rw [padded_eq, digitsValue_zeros, digitsValue_toDigits]

end Number

namespace Calendar

/-! ## The numbers of an instant -/

theorem Date.of_self (d : Date) : Date.of d.year d.month d.day = .ok d := by
  unfold Date.of
  rw [dif_pos d.year_mem, dif_pos d.month_mem, dif_pos d.day_mem]

theorem Time.of_self (t : Time) : Time.of t.hour t.minute t.second t.micro = .ok t := by
  unfold Time.of
  rw [dif_pos t.hour_lt, dif_pos t.minute_lt, dif_pos t.second_lt, dif_pos t.micro_lt]

theorem Date.year_lt (d : Date) : d.year < Nat.pow 10 4 :=
  Nat.lt_of_le_of_lt d.year_mem.2 (by decide)

theorem Date.month_lt (d : Date) : d.month < Nat.pow 10 2 :=
  Nat.lt_of_le_of_lt d.month_mem.2 (by decide)

theorem Date.day_lt (d : Date) : d.day < Nat.pow 10 2 := by
  have hmonth : daysInMonth d.year d.month ≤ 31 := by
    unfold daysInMonth
    split
    · split <;> omega
    · split <;> omega
  exact Nat.lt_of_le_of_lt (Nat.le_trans d.day_mem.2 hmonth) (by decide)

namespace Iso

variable {width n : Nat} {cs rest : List Char} {extended : Bool}

theorem takeDigits_padded (hwidth : 0 < width) (h : n < Nat.pow 10 width) :
    takeDigits width (Number.padded width n ++ rest) = some (n, rest) := by
  have hlength := Number.length_padded hwidth h
  have hdigits : (Number.padded width n).all Text.isAsciiDigit = true :=
    List.all_eq_true.mpr fun _ hc => Number.isAsciiDigit_of_mem_padded hc
  unfold takeDigits
  rw [List.take_left' hlength, List.drop_left' hlength]
  simp [hlength, hdigits, Number.digitsValue_padded]

theorem takeDigits_padded_end (hwidth : 0 < width) (h : n < Nat.pow 10 width) :
    takeDigits width (Number.padded width n) = some (n, []) := by
  have htake : takeDigits width (Number.padded width n ++ []) = some (n, []) :=
    takeDigits_padded hwidth h
  rwa [List.append_nil] at htake

/-! ## Dates -/

/-- The characters of a date. -/
def dateChars (d : Date) : List Char :=
  Number.padded 4 d.year ++ '-' :: (Number.padded 2 d.month ++ '-' :: Number.padded 2 d.day)

theorem length_dateChars (d : Date) : (dateChars d).length = 10 := by
  unfold dateChars
  rw [List.length_append, List.length_cons, List.length_append, List.length_cons,
    Number.length_padded (by omega) d.year_lt, Number.length_padded (by omega) d.month_lt,
    Number.length_padded (by omega) d.day_lt]

/-- A padded number starts with a digit. -/
theorem padded_cons (hwidth : 0 < width) (h : n < Nat.pow 10 width) :
    ∃ c cs, Number.padded width n = c :: cs ∧ Text.isAsciiDigit c = true := by
  cases hcs : Number.padded width n with
  | nil =>
      have hlength := Number.length_padded hwidth h
      rw [hcs] at hlength
      exact absurd hlength (by simp; omega)
  | cons c cs =>
      have hmem : c ∈ Number.padded width n := by rw [hcs]; exact List.mem_cons_self
      exact ⟨c, cs, rfl, Number.isAsciiDigit_of_mem_padded hmem⟩

/-- A digit is none of the characters that stand between numbers. -/
theorem ne_of_isAsciiDigit {c mark : Char} (h : Text.isAsciiDigit c = true)
    (hmark : Text.isAsciiDigit mark = false) : c ≠ mark := by
  rintro rfl
  exact absurd (h.symm.trans hmark) (by simp)

/-- A month is not taken for a dash or for the week of a year. -/
theorem month_cons (d : Date) : ∃ c cs, Number.padded 2 d.month = c :: cs ∧ c ≠ '-' ∧ c ≠ 'W' := by
  obtain ⟨c, cs, hmonth, hdigit⟩ := padded_cons (by omega) d.month_lt
  have hne (mark : Char) (hmark : Text.isAsciiDigit mark = false) : c ≠ mark :=
    ne_of_isAsciiDigit hdigit hmark
  exact ⟨c, cs, hmonth, hne '-' (by decide), hne 'W' (by decide)⟩

/-- The dash of the forms that have one. -/
def dash (extended : Bool) : List Char := if extended then ['-'] else []

/-- The characters of a year, a month and a day of it. -/
def monthChars (extended : Bool) (year month day : Nat) : List Char :=
  Number.padded 4 year ++ (dash extended ++
    (Number.padded 2 month ++ (dash extended ++ Number.padded 2 day)))

theorem takeDash_eq_some : takeDash extended cs = some rest ↔ cs = dash extended ++ rest := by
  unfold takeDash dash
  cases extended with
  | false => simp
  | true => cases cs with
    | nil => simp
    | cons c cs => simp

/-- In front of anything else, the dash tells the form. -/
theorem dash_append {c : Char} (h : c ≠ '-') :
    decide ((dash extended ++ c :: cs).head? = some '-') = extended ∧
      (if (dash extended ++ c :: cs).head? = some '-' then (dash extended ++ c :: cs).tail
        else dash extended ++ c :: cs) = c :: cs := by
  cases extended with
  | false => simp [dash, h]
  | true => simp [dash]

theorem readDateForm_monthChars (extended : Bool) (d : Date) :
    readDateForm (monthChars extended d.year d.month d.day) = some (.ok d) := by
  obtain ⟨c, cs, hmonth, hdash, hweek⟩ := month_cons d
  have htake : takeDigits 2 (Number.padded 2 d.month ++ (dash extended ++ Number.padded 2 d.day)) =
      some (d.month, dash extended ++ Number.padded 2 d.day) :=
    takeDigits_padded (by omega) d.month_lt
  have hsep : takeDash extended (dash extended ++ Number.padded 2 d.day) =
      some (Number.padded 2 d.day) :=
    takeDash_eq_some.mpr rfl
  unfold readDateForm monthChars
  rw [takeDigits_padded (by omega) d.year_lt]
  rw [hmonth, List.cons_append] at htake ⊢
  simp only [Option.bind_eq_bind, Option.bind_some, dash_append hdash]
  simp [hweek, htake, hsep, takeDigits_padded_end (by omega) d.day_lt, Date.of_self]

theorem dateChars_eq (d : Date) : dateChars d = monthChars true d.year d.month d.day := by
  unfold dateChars monthChars dash
  simp only [if_true, List.singleton_append]

theorem readDateForm_dateChars (d : Date) : readDateForm (dateChars d) = some (.ok d) := by
  rw [dateChars_eq]
  exact readDateForm_monthChars true d

/-! ## Clock times -/

/-- The characters of a clock time. -/
def timeChars (t : Time) : List Char :=
  Number.padded 2 t.hour ++ ':' :: (Number.padded 2 t.minute ++ ':' ::
    (Number.padded 2 t.second ++ if t.micro = 0 then [] else '.' :: Number.padded 6 t.micro))

theorem padded_ne_nil (hwidth : 0 < width) (h : n < Nat.pow 10 width) :
    Number.padded width n ≠ [] := by
  obtain ⟨c, cs, hcs, _⟩ := padded_cons hwidth h
  rw [hcs]
  exact List.cons_ne_nil c cs

theorem readFraction_padded {fields : List Nat} (h : n < 1000000) :
    readFraction fields (Number.padded 6 n) = some (Clock.ofFields fields n false) := by
  have hlength : (Number.padded 6 n).length = 6 := Number.length_padded (by omega) h
  unfold readFraction
  rw [hlength, Nat.min_self]
  simp only [takeDigits_padded_end (show 0 < 6 by omega) h]
  simp

theorem readFields_padded {count : Nat} {colons : Bool} {fields : List Nat} {c : Char}
    (h : n < 100) (hrest : rest ≠ []) :
    readFields (count + 1) colons fields (Number.padded 2 n ++ c :: rest) =
      (let fields := fields ++ [n]
      let colons := if fields.length = 1 then c = ':' else colons
      if colons && c = ':' then readFields count colons fields rest
      else if c = '.' || c = ',' then readFraction fields rest
      else if !colons then readFields count colons fields (c :: rest)
      else none) := by
  rw [readFields, takeDigits_padded (by omega) h]
  cases rest with
  | nil => exact absurd rfl hrest
  | cons d rest => rfl

theorem readClock_timeChars (t : Time) :
    readClock (timeChars t) = some ⟨t.hour, t.minute, t.second, t.micro, false⟩ := by
  have hhour : t.hour < 100 := by have := t.hour_lt; omega
  have hminute : t.minute < 100 := by have := t.minute_lt; omega
  have hsecond : t.second < 100 := by have := t.second_lt; omega
  have hpadded : Number.padded 2 t.second ≠ [] := padded_ne_nil (by omega) hsecond
  unfold readClock timeChars
  -- the colon after the hours settles that the others have one as well
  rw [readFields_padded hhour (by simp)]
  simp only [List.nil_append, List.length_singleton, if_true, decide_true, Bool.and_self]
  rw [readFields_padded hminute (List.append_ne_nil_of_left_ne_nil hpadded _)]
  simp only [List.cons_append, List.nil_append, List.length_cons, List.length_nil, decide_true,
    Bool.and_self, if_true, Nat.reduceAdd, Nat.reduceEqDiff, if_false]
  by_cases hmicro : t.micro = 0
  · rw [if_pos hmicro, List.append_nil, readFields, takeDigits_padded_end (by omega) hsecond, hmicro]
    rfl
  · rw [if_neg hmicro, readFields_padded hsecond (padded_ne_nil (by omega) t.micro_lt)]
    simp only [List.cons_append, List.nil_append, List.length_cons, List.length_nil]
    exact readFraction_padded t.micro_lt

theorem startsOffset_of_mem {t : Time} {c : Char} (h : c ∈ timeChars t) :
    (!startsOffset c) = true := by
  have hdigit : ∀ {width n : Nat}, c ∈ Number.padded width n → (!startsOffset c) = true := by
    intro width n hmem
    have hascii := Number.isAsciiDigit_of_mem_padded hmem
    have hne (mark : Char) (hmark : Text.isAsciiDigit mark = false) : c ≠ mark :=
      ne_of_isAsciiDigit hascii hmark
    simp [startsOffset, hne '+' (by decide), hne '-' (by decide), hne 'Z' (by decide)]
  unfold timeChars at h
  simp only [List.mem_append, List.mem_cons] at h
  rcases h with h | rfl | h | rfl | h | h
  · exact hdigit h
  · decide
  · exact hdigit h
  · decide
  · exact hdigit h
  · split at h
    · exact absurd h List.not_mem_nil
    · rcases List.mem_cons.mp h with rfl | h
      · decide
      · exact hdigit h

/-- The offset of UTC. -/
def utcChars : List Char := ['+', '0', '0', ':', '0', '0']

theorem readTimeForm_timeChars (t : Time) :
    readTimeForm (timeChars t ++ utcChars) =
      some (⟨t.hour, t.minute, t.second, t.micro, false⟩, some 0) := by
  have hspan : (timeChars t ++ utcChars).takeWhile (!startsOffset ·) = timeChars t ∧
      (timeChars t ++ utcChars).dropWhile (!startsOffset ·) = utcChars :=
    Text.span_run (fun _ hc => startsOffset_of_mem hc) fun c hc => by
      obtain rfl : '+' = c := Option.some.inj hc
      decide
  have hoffset : readOffset utcChars = some 0 := by decide
  unfold readTimeForm
  rw [hspan.1, hspan.2, readClock_timeChars]
  simp only [utcChars] at hoffset ⊢
  simp [hoffset]

/-! ## Instants -/

theorem text_toList (t : Instant) :
    t.text.toList = dateChars t.date ++ 'T' :: (timeChars t.time ++ utcChars) := by
  unfold Instant.text Date.text Time.text
  simp only [String.toList_append, String.toList_ofList, List.append_assoc, dateChars, timeChars,
    List.cons_append]
  rfl

theorem dateLength_text (d : Date) (rest : List Char) :
    dateLength (dateChars d ++ 'T' :: rest) = some 10 := by
  obtain ⟨c, cs, hmonth, _, hweek⟩ := month_cons d
  have hyear : (Number.padded 4 d.year).length = 4 := Number.length_padded (by omega) d.year_lt
  have hlength : (dateChars d ++ 'T' :: rest).length = 11 + rest.length := by
    rw [List.length_append, length_dateChars, List.length_cons]
    omega
  -- the fifth and the sixth character tell the form
  have hafter : ∀ i, (dateChars d ++ 'T' :: rest)[4 + i]? =
      ('-' :: c :: (cs ++ '-' :: Number.padded 2 d.day) ++ 'T' :: rest)[i]? := by
    intro i
    rw [dateChars, hmonth, List.append_assoc, List.getElem?_append_right (by omega), hyear,
      Nat.add_sub_cancel_left]
    rfl
  have hdash := hafter 0
  have hletter := hafter 1
  unfold dateLength
  rw [hlength, hdash, hletter]
  simp [hweek, show ¬ 11 + rest.length < 7 by omega, show ¬ 11 + rest.length = 7 by omega]

/-- **The text of an instant is read as the instant, in UTC.** -/
theorem readDateTime_text (t : Instant) :
    readDateTime t.text = .ok ⟨t.date, t.time, some 0⟩ := by
  have hform : readForm t.text.toList = some (.ok t.date,
      ⟨t.time.hour, t.time.minute, t.time.second, t.time.micro, false⟩, some 0) := by
    rw [text_toList]
    unfold readForm
    rw [dateLength_text]
    simp only [Option.bind_eq_bind, Option.bind_some, List.take_left' (length_dateChars t.date),
      List.drop_left' (length_dateChars t.date), readDateForm_dateChars, readTimeForm_timeChars]
  unfold readDateTime
  rw [hform]
  simp only [Result.mapError_ok_eq, Time.of_self]
  rfl

end Iso

end Calendar

end LockAudit
