import LockAudit.Proofs.Calendar.Iso
import LockAudit.Proofs.Calendar.Ordinal

/-!
# Texts that are a date alone

A day is written by its month or by its week, in each case with dashes or without, and a
week may stand for its Monday. `Iso.Spells` lists these ways to write a day.

`Iso.IsAlone` says the same by the readers: the text is a date from its first character to
its last. The two agree. Numbers are read by their width, so a text that a number was read
from is that number, padded; and the length of the text tells whether anything follows.

A week belongs to the year that its Thursday lies in, and is the first of that year if the
Thursday is. `Date.IsWeekDay` says this with the number of the day, and does not mention
where the first week of a year begins.
-/

namespace LockAudit

/-! ## Padded numbers -/

namespace Text

variable {as bs : List Char} {a b : Char}

theorem digitValue?_injective (ha : isAsciiDigit a = true) (hb : isAsciiDigit b = true)
    (h : (digitValue? a).getD 0 = (digitValue? b).getD 0) : a = b := by
  have hamem := isAsciiDigit_iff.mp ha
  have hbmem := isAsciiDigit_iff.mp hb
  rw [digitValue?_of_isAsciiDigit ha, digitValue?_of_isAsciiDigit hb, Option.getD_some,
    Option.getD_some] at h
  exact Char.toNat_inj.mp (by omega)

/-- As many plain digits spell the same number only if they are the same. -/
theorem digitsValue_injective (ha : ∀ c ∈ as, isAsciiDigit c = true)
    (hb : ∀ c ∈ bs, isAsciiDigit c = true) (hlength : as.length = bs.length)
    (h : digitsValue as = digitsValue bs) : as = bs := by
  induction as using List.reverseRecOn generalizing bs with
  | nil => exact (List.eq_nil_of_length_eq_zero hlength.symm).symm
  | append_singleton as a ih =>
      rcases bs.eq_nil_or_concat' with rfl | ⟨bs, b, rfl⟩
      · simp at hlength
      · have halast := digitValue_lt a
        have hblast := digitValue_lt b
        rw [digitsValue_concat, digitsValue_concat] at h
        have hlast : a = b := digitValue?_injective (ha a (by simp)) (hb b (by simp)) (by omega)
        have hinit : as = bs := ih (fun c hc => ha c (by simp [hc]))
          (fun c hc => hb c (by simp [hc])) (by simpa using hlength) (by omega)
        rw [hlast, hinit]

end Text

namespace Number

/-- Digits are the number that they spell, padded to their width. -/
theorem padded_digitsValue {cs : List Char} (hdigits : ∀ c ∈ cs, Text.isAsciiDigit c = true)
    (hpos : 0 < cs.length) : padded cs.length (Text.digitsValue cs) = cs :=
  Text.digitsValue_injective (fun _ hc => isAsciiDigit_of_mem_padded hc) hdigits
    (length_padded hpos (Text.digitsValue_lt cs)) digitsValue_padded

end Number

namespace Calendar

variable {year week day month n k : Nat} {d : Date} {cs rest : List Char} {extended : Bool}

/-! ## Weeks -/

/-- The day is one of a week of a year: its place among the days from Monday on, and the
week by the day of the year on which the week's Thursday falls. -/
structure Date.IsWeekDay (d : Date) (year week day : Nat) : Prop where
  year_mem : 1 ≤ year ∧ year ≤ 9999
  weekday : (d.ordinal + 6) % 7 + 1 = day
  thursday : ∃ r, (1 ≤ r ∧ r ≤ yearLength year) ∧ d.ordinal + 4 = daysBeforeYear year + r + day ∧
    (r + 6) / 7 = week

/-- The numbers of a week are as wide as they are written. -/
theorem Date.IsWeekDay.lt (h : d.IsWeekDay year week day) :
    year < Nat.pow 10 4 ∧ week < Nat.pow 10 2 ∧ day < Nat.pow 10 1 := by
  obtain ⟨hyear, hday, r, hr, _, hweek⟩ := h
  have hlength : yearLength year ≤ 366 := by
    rcases yearLength_cases year with ⟨_, h⟩ | ⟨_, h⟩ <;> omega
  have hpow : Nat.pow 10 4 = 10000 ∧ Nat.pow 10 2 = 100 ∧ Nat.pow 10 1 = 10 := by decide
  omega

/-- A year has 53 weeks if one more week after the 52nd has its Thursday in it. -/
theorem hasLongYear_iff : hasLongYear year = true ↔
    daysBeforeYear year % 7 = 3 ∨ daysBeforeYear year % 7 = 2 ∧ yearLength year = 366 := by
  rcases yearLength_cases year with ⟨hleap, hlength⟩ | ⟨hleap, hlength⟩
  · simp [hasLongYear, hleap, hlength]
  · simp [hasLongYear, hleap, hlength]

/-- The first week of a year starts on a Monday and has its Thursday in the first seven days. -/
theorem firstMonday_spec (year : Nat) : (firstMonday year + 6) % 7 = 0 ∧
    daysBeforeYear year < firstMonday year + 3 ∧ firstMonday year + 3 ≤ daysBeforeYear year + 7 := by
  unfold firstMonday
  dsimp only
  split <;> omega

/-- A week is read as a day exactly if the year has it, and it has the day. -/
theorem weekDate_eq_some {result : Except Defect Date} (hyear : 1 ≤ year) :
    Iso.weekDate year week day = some result ↔
      (1 ≤ week ∧ (week ≤ 52 ∨ week = 53 ∧ hasLongYear year = true)) ∧ (1 ≤ day ∧ day ≤ 7) ∧
        Date.ofOrdinal (firstMonday year + (week - 1) * 7 + (day - 1)).toNat = result := by
  unfold Iso.weekDate
  cases hasLongYear year <;> grind

/-- There are no weeks before the first year. -/
theorem year_pos_of_weekDate (h : Iso.weekDate year week day = some (.ok d)) : 1 ≤ year := by
  unfold Iso.weekDate at h
  split at h
  · exact absurd h (by simp)
  split at h
  · exact absurd h (by simp)
  · omega

/-- **A day is read from its week exactly if it is a day of it.** -/
theorem weekDate_eq_ok (hyear : year < Nat.pow 10 4) :
    Iso.weekDate year week day = some (.ok d) ↔ d.IsWeekDay year week day := by
  have hlast : Nat.pow 10 4 = 10000 := by decide
  rcases Nat.eq_zero_or_pos year with rfl | hpos
  · exact ⟨fun h => absurd (year_pos_of_weekDate h) (by omega),
      fun h => absurd h.year_mem (by omega)⟩
  obtain ⟨hmonday, hafter, hbefore⟩ := firstMonday_spec year
  have hlength : yearLength year = 366 ∨ yearLength year = 365 :=
    (yearLength_cases year).imp And.right And.right
  have hordinal := d.ordinal_mem.1
  rw [weekDate_eq_some hpos, Date.ofOrdinal_eq_ok, hasLongYear_iff]
  generalize firstMonday year = monday at *
  refine ⟨?_, ?_⟩
  · intro h
    obtain ⟨hweek, hday, hnumber⟩ := h
    -- the Thursday of the week, as a day of the year
    refine ⟨by omega, by omega, (monday + 3 + (week - 1) * 7 - daysBeforeYear year).toNat,
      ?_, ?_, ?_⟩
    · omega
    · omega
    · omega
  · intro h
    obtain ⟨_, hweekday, r, hr, hthursday, hweek⟩ := h
    refine ⟨?_, ?_, ?_⟩
    · omega
    · omega
    · omega

namespace Iso

/-! ## The ways to write a day -/

/-- The characters of a week, with what follows them. -/
def weekChars (extended : Bool) (year week : Nat) (rest : List Char) : List Char :=
  Number.padded 4 year ++ (dash extended ++ 'W' :: (Number.padded 2 week ++ rest))

/-- The characters are those of a day and no more. -/
inductive Spells : List Char → Date → Prop
  | month (extended : Bool) {d : Date} : Spells (monthChars extended d.year d.month d.day) d
  | weekDay (extended : Bool) {year week day : Nat} {d : Date} (isDay : d.IsWeekDay year week day) :
      Spells (weekChars extended year week (dash extended ++ Number.padded 1 day)) d
  | week (extended : Bool) {year week : Nat} {d : Date} (isMonday : d.IsWeekDay year week 1) :
      Spells (weekChars extended year week []) d

/-- The readers take the characters for a date up to the last one. -/
structure IsAlone (cs : List Char) (d : Date) : Prop where
  length : dateLength cs = some cs.length
  reads : readDateForm cs = some (.ok d)

/-! ## What is read by its width -/

theorem takeDigits_eq_some (hpos : 0 < n) :
    takeDigits n cs = some (k, rest) ↔ k < Nat.pow 10 n ∧ cs = Number.padded n k ++ rest := by
  refine ⟨?_, ?_⟩
  · intro h
    unfold takeDigits at h
    dsimp only at h
    split at h
    · rename_i hdigits
      obtain ⟨hlength, hall⟩ := hdigits
      obtain ⟨hvalue, hrest⟩ := Prod.mk.inj (Option.some.inj h)
      have hpadded := Number.padded_digitsValue (List.all_eq_true.mp hall) (by omega)
      have hlt := Text.digitsValue_lt (cs.take n)
      rw [hlength, hvalue] at hpadded hlt
      rw [hpadded, ← hrest, List.take_append_drop]
      exact ⟨hlt, rfl⟩
    · exact absurd h (by simp)
  · rintro ⟨hlt, rfl⟩
    exact takeDigits_padded hpos hlt

theorem bind_takeDigits {α : Type} {f : Nat × List Char → Option α} {a : α} (hpos : 0 < n) :
    (takeDigits n cs >>= f) = some a ↔
      ∃ k rest, k < Nat.pow 10 n ∧ cs = Number.padded n k ++ rest ∧ f (k, rest) = some a := by
  refine Option.bind_eq_some_iff.trans ⟨?_, ?_⟩
  · intro h
    obtain ⟨⟨k, rest⟩, htake, hf⟩ := h
    obtain ⟨hk, hcs⟩ := (takeDigits_eq_some hpos).mp htake
    exact ⟨k, rest, hk, hcs, hf⟩
  · intro h
    obtain ⟨k, rest, hk, hcs, hf⟩ := h
    exact ⟨(k, rest), (takeDigits_eq_some hpos).mpr ⟨hk, hcs⟩, hf⟩

theorem bind_takeDash {α : Type} {f : List Char → Option α} {a : α} :
    (takeDash extended cs >>= f) = some a ↔
      ∃ rest, cs = dash extended ++ rest ∧ f rest = some a := by
  refine Option.bind_eq_some_iff.trans (exists_congr fun rest => ?_)
  rw [takeDash_eq_some]

/-- A text has a dash in front or has none. -/
theorem exists_dash (cs : List Char) : ∃ extended rest, cs = dash extended ++ rest ∧
    decide (cs.head? = some '-') = extended ∧
    (if cs.head? = some '-' then cs.tail else cs) = rest := by
  by_cases h : cs.head? = some '-'
  · refine ⟨true, cs.tail, ?_, by simp [h], if_pos h⟩
    exact (List.cons_head?_tail h).symm
  · exact ⟨false, cs, rfl, by simp [h], if_neg h⟩

/-! ## How long the forms are -/

theorem length_dash : (dash extended).length = if extended then 1 else 0 := by
  cases extended <;> rfl

theorem length_monthChars (d : Date) :
    (monthChars extended d.year d.month d.day).length = if extended then 10 else 8 := by
  unfold monthChars
  simp only [List.length_append, length_dash, Number.length_padded (show 0 < 4 by omega) d.year_lt,
    Number.length_padded (show 0 < 2 by omega) d.month_lt,
    Number.length_padded (show 0 < 2 by omega) d.day_lt]
  cases extended <;> rfl

theorem length_weekChars (hyear : year < Nat.pow 10 4) (hweek : week < Nat.pow 10 2) :
    (weekChars extended year week rest).length = (if extended then 8 else 7) + rest.length := by
  unfold weekChars
  simp only [List.length_append, List.length_cons, length_dash,
    Number.length_padded (show 0 < 4 by omega) hyear,
    Number.length_padded (show 0 < 2 by omega) hweek]
  cases extended with
  | false =>
      simp only [Bool.false_eq_true, if_false]
      omega
  | true =>
      simp only [if_true]
      omega

/-- The character after the year, and after the dash if there is one, is that of the week. -/
theorem getElem?_weekChars (hyear : year < Nat.pow 10 4) :
    (weekChars extended year week rest)[if extended then 5 else 4]? = some 'W' := by
  obtain ⟨a, b, c, e, hyear⟩ := List.length_eq_four.mp (Number.length_padded (by omega) hyear)
  unfold weekChars
  rw [hyear]
  cases extended <;> rfl

/-- The lengths of texts that are no more than a date. -/
theorem length_of_dateLength (h : dateLength cs = some cs.length) :
    cs.length = 7 ∨ cs.length = 8 ∨ cs.length = 10 ∧ cs[4]? = some '-' := by
  unfold dateLength at h
  split at h
  · exact absurd h (by simp)
  split at h
  · exact Or.inl ‹_›
  split at h
  · rename_i hdash
    have heq : cs.length = 8 ∨ cs.length = 10 := by grind
    exact Or.inr (heq.imp_right fun hten => ⟨hten, hdash⟩)
  · have heq : cs.length = 7 ∨ cs.length = 8 := by grind
    exact heq.imp_right Or.inl

/-! ## Nothing else is read -/

/-- The length of a text tells that nothing follows the day of a week. -/
theorem eq_nil_of_weekDay
    (h : dateLength (weekChars extended year week (dash extended ++ (Number.padded 1 day ++ rest))) =
      some (weekChars extended year week (dash extended ++ (Number.padded 1 day ++ rest))).length)
    (hyear : year < Nat.pow 10 4) (hweek : week < Nat.pow 10 2) (hday : day < Nat.pow 10 1) :
    rest = [] := by
  have hlengths := length_of_dateLength h
  have hletter : (weekChars extended year week
      (dash extended ++ (Number.padded 1 day ++ rest)))[if extended then 5 else 4]? = some 'W' :=
    getElem?_weekChars hyear
  simp only [length_weekChars hyear hweek, List.length_append, length_dash,
    Number.length_padded (show 0 < 1 by omega) hday] at hlengths
  refine List.eq_nil_of_length_eq_zero ?_
  cases extended with
  | false =>
      simp only [Bool.false_eq_true, if_false] at hlengths hletter
      rw [hletter] at hlengths
      simp at hlengths
      omega
  | true =>
      simp only [if_true] at hlengths
      omega

theorem IsAlone.spells (h : IsAlone cs d) : Spells cs d := by
  obtain ⟨hlength, hreads⟩ := h
  unfold readDateForm at hreads
  obtain ⟨year, rest, hyear, rfl, hdate⟩ := (bind_takeDigits (by omega)).mp hreads
  obtain ⟨extended, rest, rfl, hextended, hrest⟩ := exists_dash rest
  clear hreads
  dsimp only at hdate
  rw [hrest, hextended] at hdate
  clear hrest hextended
  -- after the year and its dash, a letter announces a week, and anything else is a month
  split at hdate
  · obtain ⟨week, rest, _, rfl, hweek⟩ := (bind_takeDigits (by omega)).mp hdate
    clear hdate
    dsimp only at hweek
    split at hweek
    · rename_i hend
      rw [List.isEmpty_iff.mp hend]
      exact .week extended ((weekDate_eq_ok hyear).mp hweek)
    · obtain ⟨after, hdash, hafter⟩ := bind_takeDash.mp hweek
      obtain ⟨day, more, _, rfl, hday⟩ := (bind_takeDigits (by omega)).mp hafter
      subst hdash
      rw [eq_nil_of_weekDay hlength hyear ‹_› ‹_›, List.append_nil]
      exact .weekDay extended ((weekDate_eq_ok hyear).mp hday)
  · obtain ⟨month, rest, _, rfl, hmonth⟩ := (bind_takeDigits (by omega)).mp hdate
    obtain ⟨after, hdash, hafter⟩ := bind_takeDash.mp hmonth
    obtain ⟨day, rest, _, rfl, hday⟩ := (bind_takeDigits (by omega)).mp hafter
    clear hdate hmonth hafter
    dsimp only at hday hdash
    split at hday
    · rename_i hend
      have hof : Date.of year month day = .ok d := Option.some.inj hday
      obtain ⟨hyear, hmonth, hday⟩ := Date.of_ok hof
      rw [hdash, List.isEmpty_iff.mp hend, List.append_nil, ← hyear, ← hmonth, ← hday]
      exact .month extended
    · exact absurd hday (by simp)

/-! ## What is written is read -/

theorem readDateForm_weekChars (hyear : year < Nat.pow 10 4) (hweek : week < Nat.pow 10 2) :
    readDateForm (weekChars extended year week rest) =
      if rest.isEmpty then weekDate year week 1
      else (takeDash extended rest).bind fun rest =>
        (takeDigits 1 rest).bind fun day => weekDate year week day.1 := by
  have htake : takeDigits 2 (Number.padded 2 week ++ rest) = some (week, rest) :=
    takeDigits_padded (by omega) hweek
  unfold readDateForm weekChars
  rw [takeDigits_padded (by omega) hyear]
  simp only [Option.bind_eq_bind, Option.bind_some, dash_append (show 'W' ≠ '-' by decide), htake]

theorem dateLength_monthChars (extended : Bool) (d : Date) :
    dateLength (monthChars extended d.year d.month d.day) =
      some (monthChars extended d.year d.month d.day).length := by
  obtain ⟨a, b, c, e, hyear⟩ := List.length_eq_four.mp (Number.length_padded (by omega) d.year_lt)
  obtain ⟨f, cs, hmonth, hdash, hweek⟩ := month_cons d
  have hlength := Number.length_padded (by omega) d.month_lt
  rw [hmonth] at hlength
  obtain ⟨g, rfl⟩ := List.length_eq_one_iff.mp (Nat.succ.inj hlength)
  obtain ⟨x, y, hday⟩ := List.length_eq_two.mp (Number.length_padded (by omega) d.day_lt)
  unfold dateLength monthChars
  rw [hyear, hmonth, hday]
  cases extended with
  | false => simp [dash, hdash, hweek]
  | true => simp [dash, hweek]

theorem dateLength_weekChars (hyear : year < Nat.pow 10 4) (hweek : week < Nat.pow 10 2) :
    dateLength (weekChars extended year week []) =
      some (weekChars extended year week []).length := by
  obtain ⟨a, b, c, e, hyear⟩ := List.length_eq_four.mp (Number.length_padded (by omega) hyear)
  obtain ⟨f, g, hweek⟩ := List.length_eq_two.mp (Number.length_padded (by omega) hweek)
  unfold dateLength weekChars
  rw [hyear, hweek]
  cases extended with
  | false => simp [dash]
  | true => simp [dash]

theorem dateLength_weekDay (hyear : year < Nat.pow 10 4) (hweek : week < Nat.pow 10 2)
    (hday : day < Nat.pow 10 1) :
    dateLength (weekChars extended year week (dash extended ++ Number.padded 1 day)) =
      some (weekChars extended year week (dash extended ++ Number.padded 1 day)).length := by
  obtain ⟨a, b, c, e, hyear⟩ := List.length_eq_four.mp (Number.length_padded (by omega) hyear)
  obtain ⟨f, g, hweek⟩ := List.length_eq_two.mp (Number.length_padded (by omega) hweek)
  obtain ⟨x, hday⟩ := List.length_eq_one_iff.mp (Number.length_padded (by omega) hday)
  have hmem : x ∈ Number.padded 1 day := by
    rw [hday]
    exact List.mem_singleton_self x
  have hdigit := Number.isAsciiDigit_of_mem_padded hmem
  unfold dateLength weekChars
  rw [hyear, hweek, hday]
  cases extended with
  | false => simp [dash, hdigit]
  | true => simp [dash]

theorem Spells.isAlone (h : Spells cs d) : IsAlone cs d := by
  cases h with
  | month extended => exact ⟨dateLength_monthChars extended d, readDateForm_monthChars extended d⟩
  | @weekDay extended year week day _ isDay =>
      obtain ⟨hyear, hweek, hday⟩ := isDay.lt
      refine ⟨dateLength_weekDay hyear hweek hday, ?_⟩
      obtain ⟨c, cs, hcons, _⟩ := padded_cons (by omega) hday
      have hmore : (dash extended ++ Number.padded 1 day).isEmpty = false := by
        rw [hcons]
        cases extended <;> rfl
      have hdash : takeDash extended (dash extended ++ Number.padded 1 day) =
          some (Number.padded 1 day) :=
        takeDash_eq_some.mpr rfl
      rw [readDateForm_weekChars hyear hweek, hmore, if_neg (by simp), hdash, Option.bind_some,
        takeDigits_padded_end (by omega) hday, Option.bind_some]
      exact (weekDate_eq_ok hyear).mpr isDay
  | @week extended year week _ isMonday =>
      obtain ⟨hyear, hweek, _⟩ := isMonday.lt
      refine ⟨dateLength_weekChars hyear hweek, ?_⟩
      rw [readDateForm_weekChars hyear hweek]
      exact (weekDate_eq_ok hyear).mpr isMonday

/-- **The readers take exactly the listed texts for a day and no more.** -/
theorem isAlone_iff : IsAlone cs d ↔ Spells cs d :=
  ⟨IsAlone.spells, Spells.isAlone⟩

theorem Spells.ne_nil (h : Spells cs d) : cs ≠ [] := by
  rintro rfl
  exact absurd h.isAlone.length (by simp [dateLength])

/-! ## What is read from a day alone -/

/-- As a timestamp, a day alone is its midnight, without an offset. -/
theorem IsAlone.readDateTime (h : IsAlone cs d) :
    readDateTime (String.ofList cs) = .ok ⟨d, Time.midnight, none⟩ := by
  have hform : readForm cs = some (.ok d, ⟨0, 0, 0, 0, false⟩, none) := by
    unfold readForm
    rw [h.length]
    simp [List.take_length, List.drop_length, h.reads]
  have hmidnight : Time.of 0 0 0 0 = .ok Time.midnight := rfl
  unfold Iso.readDateTime
  rw [String.toList_ofList, hform]
  simp [Result.mapError_ok_eq, hmidnight]

theorem IsAlone.readDate (h : IsAlone cs d) : readDate (String.ofList cs) = .ok d := by
  have hlength := length_of_dateLength h.length
  unfold Iso.readDate
  dsimp only
  rw [String.toList_ofList, if_pos (by omega), h.reads]
  rfl

/-- A day alone is written with digits, dashes and the letter of the week. -/
def IsDateChar (c : Char) : Prop := Text.isAsciiDigit c = true ∨ c = '-' ∨ c = 'W'

theorem isDateChar_of_mem_padded {width : Nat} {c : Char} (h : c ∈ Number.padded width n) :
    IsDateChar c :=
  Or.inl (Number.isAsciiDigit_of_mem_padded h)

theorem isDateChar_of_mem_dash {c : Char} (h : c ∈ dash extended) : IsDateChar c := by
  cases extended with
  | false => exact absurd h List.not_mem_nil
  | true => exact Or.inr (Or.inl (List.mem_singleton.mp h))

theorem isDateChar_of_mem_weekChars {c : Char} (h : c ∈ weekChars extended year week rest) :
    IsDateChar c ∨ c ∈ rest := by
  simp only [weekChars, List.mem_append, List.mem_cons] at h
  rcases h with h | h | h | h | h
  · exact Or.inl (isDateChar_of_mem_padded h)
  · exact Or.inl (isDateChar_of_mem_dash h)
  · exact Or.inl (Or.inr (Or.inr h))
  · exact Or.inl (isDateChar_of_mem_padded h)
  · exact Or.inr h

theorem Spells.isDateChar {c : Char} (h : Spells cs d) (hc : c ∈ cs) : IsDateChar c := by
  cases h with
  | month extended =>
      simp only [monthChars, List.mem_append] at hc
      rcases hc with hc | hc | hc | hc | hc
      · exact isDateChar_of_mem_padded hc
      · exact isDateChar_of_mem_dash hc
      · exact isDateChar_of_mem_padded hc
      · exact isDateChar_of_mem_dash hc
      · exact isDateChar_of_mem_padded hc
  | weekDay extended isDay =>
      rcases isDateChar_of_mem_weekChars hc with hc | hc
      · exact hc
      · exact (List.mem_append.mp hc).elim isDateChar_of_mem_dash isDateChar_of_mem_padded
  | week extended isMonday =>
      exact (isDateChar_of_mem_weekChars hc).resolve_right List.not_mem_nil

end Iso

end Calendar

end LockAudit
