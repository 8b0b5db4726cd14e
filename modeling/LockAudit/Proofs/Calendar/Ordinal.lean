import LockAudit.Calendar.Instant
import LockAudit.Proofs.Result

/-!
# Days and their numbers

The days of the calendar are numbered without a gap, from the first of January of the
year 1 on. A number is split into a year and a day of it, and that into a month and a day
of the month; putting the parts together again gives the number. No two days share a
number, so the numbers say which day follows on which.

`Date.IsNext` says the same without numbers: the next day of the month, the first of the
next month, or the first day of the next year.
-/

namespace LockAudit.Calendar

variable {year month day fuel n r a b c k : Nat} {d e : Date}

/-! ## Years -/

/-- How many days a year has. -/
def yearLength (year : Nat) : Nat := if isLeap year then 366 else 365

theorem yearLength_cases (year : Nat) :
    isLeap year = true ∧ yearLength year = 366 ∨ isLeap year = false ∧ yearLength year = 365 := by
  unfold yearLength
  cases isLeap year <;> simp

theorem isLeap_iff : isLeap year = true ↔ year % 4 = 0 ∧ (year % 100 ≠ 0 ∨ year % 400 = 0) := by
  simp [isLeap]

theorem daysBeforeYear_succ (h : 1 ≤ year) :
    daysBeforeYear (year + 1) = daysBeforeYear year + yearLength year := by
  obtain ⟨y, rfl⟩ : ∃ y, year = y + 1 := ⟨year - 1, by omega⟩
  have hleap : isLeap (y + 1) = true ↔ (y + 1) % 4 = 0 ∧ ((y + 1) % 100 ≠ 0 ∨ (y + 1) % 400 = 0) :=
    isLeap_iff
  have hdays : daysBeforeYear (y + 1) = y * 365 + y / 4 - y / 100 + y / 400 := rfl
  have hnext : daysBeforeYear (y + 1 + 1) =
      (y + 1) * 365 + (y + 1) / 4 - (y + 1) / 100 + (y + 1) / 400 := rfl
  rw [hdays, hnext]
  rcases yearLength_cases (y + 1) with ⟨hyes, hlength⟩ | ⟨hno, hlength⟩
  · rw [hleap] at hyes
    rw [hlength]
    omega
  · rw [← Bool.not_eq_true, hleap] at hno
    rw [hlength]
    omega

theorem daysBeforeYear_mono (h : 1 ≤ n) (hle : n ≤ year) :
    daysBeforeYear n ≤ daysBeforeYear year := by
  induction hle with
  | refl => exact Nat.le_refl _
  | @step year hle ih =>
      rw [Nat.succ_eq_add_one, daysBeforeYear_succ (Nat.le_trans h hle)]
      omega

/-- A day of a year comes before every later year. -/
theorem daysBeforeYear_lt (h : 1 ≤ n) (hlt : n < year) (hr : r < yearLength n) :
    daysBeforeYear n + r < daysBeforeYear year := by
  have hnext := daysBeforeYear_succ h
  have hmono := daysBeforeYear_mono (by omega) (Nat.succ_le_of_lt hlt)
  rw [Nat.succ_eq_add_one] at hmono
  omega

/-- The years gone by are cycles of 400, centuries, groups of four and single years. -/
theorem daysBeforeYear_parts (hb : b ≤ 3) (hc : c ≤ 24) (hk : k ≤ 3) :
    daysBeforeYear (a * 400 + b * 100 + c * 4 + k + 1) =
      a * 146097 + b * 36524 + c * 1461 + k * 365 := by
  have hfours : (a * 400 + b * 100 + c * 4 + k) / 4 = a * 100 + b * 25 + c := by omega
  have hcenturies : (a * 400 + b * 100 + c * 4 + k) / 100 = a * 4 + b := by omega
  have hcycles : (a * 400 + b * 100 + c * 4 + k) / 400 = a := by omega
  unfold daysBeforeYear
  rw [Nat.add_sub_cancel, hfours, hcenturies, hcycles]
  omega

/-- The last year of a group of four is a leap year, and of a century only in the last of
the four centuries. -/
theorem isLeap_parts (hb : b ≤ 3) (hc : c ≤ 24) (hk : k ≤ 3) :
    isLeap (a * 400 + b * 100 + c * 4 + k + 1) = true ↔ k = 3 ∧ (c ≠ 24 ∨ b = 3) := by
  rw [isLeap_iff]
  omega

/-- **A day counted from zero is split into its year and its day of it.** -/
theorem yearOf_spec (day : Nat) :
    1 ≤ (yearOf day).1 ∧ (yearOf day).2 < yearLength (yearOf day).1 ∧
      daysBeforeYear (yearOf day).1 + (yearOf day).2 = day := by
  unfold yearOf
  dsimp only
  -- what is left over after the cycles, after the centuries, after the groups of four
  have hcycle : day = day / 146097 * 146097 + day % 146097 := (Nat.div_add_mod' day 146097).symm
  have hrest : day % 146097 < 146097 := Nat.mod_lt _ (by decide)
  generalize day / 146097 = a, day % 146097 = left at *
  obtain ⟨b, hb⟩ : ∃ b, b = min 3 (left / 36524) := ⟨_, rfl⟩
  rw [← hb]
  have hcentury : left = b * 36524 + (left - b * 36524) ∧ b ≤ 3 ∧
      left - b * 36524 ≤ 36524 ∧ (left - b * 36524 = 36524 → b = 3) := by omega
  generalize left - b * 36524 = left at *
  have hgroup : left = left / 1461 * 1461 + left % 1461 ∧ left / 1461 ≤ 24 ∧ left % 1461 < 1461 := by
    omega
  generalize left / 1461 = c, left % 1461 = left at *
  obtain ⟨k, hk⟩ : ∃ k, k = min 3 (left / 365) := ⟨_, rfl⟩
  rw [← hk]
  have hsingle : left = k * 365 + (left - k * 365) ∧ k ≤ 3 ∧
      left - k * 365 ≤ 365 ∧ (left - k * 365 = 365 → k = 3) := by omega
  generalize left - k * 365 = r at *
  clear hb hk
  have hleap := isLeap_parts (a := a) hcentury.2.1 hgroup.2.1 hsingle.2.1
  refine ⟨by omega, ?_, ?_⟩
  · -- the 366th day is that of a leap year
    rcases yearLength_cases (a * 400 + b * 100 + c * 4 + k + 1) with ⟨_, hlength⟩ | ⟨hno, hlength⟩
    · omega
    · rw [← Bool.not_eq_true, hleap] at hno
      omega
  · rw [daysBeforeYear_parts hcentury.2.1 hgroup.2.1 hsingle.2.1]
    omega

/-! ## Months -/

theorem daysBeforeMonth_succ (year : Nat) (h : 1 ≤ month) :
    daysBeforeMonth year (month + 1) = daysBeforeMonth year month + daysInMonth year month := by
  obtain ⟨m, rfl⟩ : ∃ m, month = m + 1 := ⟨month - 1, by omega⟩
  rfl

theorem daysBeforeMonth_mono (year : Nat) (h : 1 ≤ n) (hle : n ≤ month) :
    daysBeforeMonth year n ≤ daysBeforeMonth year month := by
  induction hle with
  | refl => exact Nat.le_refl _
  | @step month hle ih =>
      rw [Nat.succ_eq_add_one, daysBeforeMonth_succ year (Nat.le_trans h hle)]
      omega

/-- The days of a month come before every later month. -/
theorem daysBeforeMonth_lt (year : Nat) (h : 1 ≤ n) (hlt : n < month) :
    daysBeforeMonth year n + daysInMonth year n ≤ daysBeforeMonth year month := by
  rw [← daysBeforeMonth_succ year h]
  exact daysBeforeMonth_mono year (by omega) hlt

theorem daysInMonth_pos (year month : Nat) : 1 ≤ daysInMonth year month := by
  unfold daysInMonth
  split
  · split <;> omega
  · split <;> omega

/-- The months make up the year. -/
theorem daysBeforeMonth_end (year : Nat) : daysBeforeMonth year 13 = yearLength year := by
  unfold yearLength
  cases h : isLeap year <;> simp [daysBeforeMonth, daysInMonth, h]

/-- December makes the year whole. -/
theorem daysBeforeMonth_december (year : Nat) : daysBeforeMonth year 12 + 31 = yearLength year :=
  daysBeforeMonth_end year

/-- **A day of the year is split into its month and its day of it.** -/
theorem monthFrom_spec (year fuel month day : Nat) (hmonth : 1 ≤ month ∧ month + fuel = 12)
    (hday : daysBeforeMonth year month + day < yearLength year) :
    (1 ≤ (monthFrom year fuel month day).1 ∧ (monthFrom year fuel month day).1 ≤ 12) ∧
      (1 ≤ (monthFrom year fuel month day).2 ∧
        (monthFrom year fuel month day).2 ≤ daysInMonth year (monthFrom year fuel month day).1) ∧
      daysBeforeMonth year (monthFrom year fuel month day).1 + (monthFrom year fuel month day).2 =
        daysBeforeMonth year month + day + 1 := by
  induction fuel generalizing month day with
  | zero =>
      obtain rfl : month = 12 := hmonth.2
      have hend := daysBeforeMonth_december year
      have hlength : daysInMonth year 12 = 31 := rfl
      unfold monthFrom
      dsimp only
      omega
  | succ fuel ih =>
      -- a month's days are passed over, and those before the next month grow by as many
      have hnext := daysBeforeMonth_succ year hmonth.1
      unfold monthFrom
      split
      · dsimp only
        omega
      · have hlater := ih (month + 1) (day - daysInMonth year month) (by omega) (by omega)
        omega

/-! ## Days -/

/-- The number of the last day of the calendar. -/
def lastOrdinal : Nat := 3652059

namespace Date

theorem of_ok (h : Date.of year month day = .ok d) :
    d.year = year ∧ d.month = month ∧ d.day = day := by
  unfold Date.of at h
  split at h
  · split at h
    · split at h
      · cases h
        exact ⟨rfl, rfl, rfl⟩
      · exact absurd h (by simp)
    · exact absurd h (by simp)
  · exact absurd h (by simp)

theorem eq_of_parts (hyear : d.year = e.year) (hmonth : d.month = e.month) (hday : d.day = e.day) :
    d = e := by
  cases d
  cases e
  cases hyear
  cases hmonth
  cases hday
  rfl

/-- The day of the year lies in the year. -/
theorem dayOfYear_le (d : Date) : daysBeforeMonth d.year d.month + d.day ≤ yearLength d.year := by
  have hlater := daysBeforeMonth_lt d.year d.month_mem.1 (Nat.lt_succ_of_le d.month_mem.2)
  rw [show Nat.succ 12 = 13 from rfl, daysBeforeMonth_end] at hlater
  have hday := d.day_mem.2
  omega

theorem ordinal_lt (h : d.year < year) : d.ordinal ≤ daysBeforeYear year := by
  have hday := d.day_mem.1
  have hin := d.dayOfYear_le
  have hlater := daysBeforeYear_lt (r := daysBeforeMonth d.year d.month + d.day - 1) d.year_mem.1 h
    (by omega)
  unfold ordinal
  omega

theorem ordinal_mem (d : Date) : 1 ≤ d.ordinal ∧ d.ordinal ≤ lastOrdinal := by
  have hlast : d.ordinal ≤ daysBeforeYear 10000 := ordinal_lt (Nat.lt_succ_of_le d.year_mem.2)
  refine ⟨?_, hlast⟩
  have hday := d.day_mem.1
  unfold ordinal
  omega

/-- **No two days have one number.** -/
theorem ordinal_injective (h : d.ordinal = e.ordinal) : d = e := by
  have hd := d.day_mem
  have he := e.day_mem
  -- the years first: a later year has a greater ordinal whatever the month and day
  have hyear : d.year = e.year := by
    rcases Nat.lt_trichotomy d.year e.year with hlt | heq | hlt
    · have hbefore := ordinal_lt hlt
      rw [h] at hbefore
      unfold ordinal at hbefore
      omega
    · exact heq
    · have hbefore := ordinal_lt hlt
      rw [← h] at hbefore
      unfold ordinal at hbefore
      omega
  unfold ordinal at h
  rw [hyear] at h hd
  have hmonth : d.month = e.month := by
    rcases Nat.lt_trichotomy d.month e.month with hlt | heq | hlt
    · have hbefore := daysBeforeMonth_lt e.year d.month_mem.1 hlt
      omega
    · exact heq
    · have hbefore := daysBeforeMonth_lt e.year e.month_mem.1 hlt
      omega
  rw [hmonth] at h
  exact eq_of_parts hyear hmonth (by omega)

/-- The parts of a number make up a day with that number, if its year is in the calendar. -/
theorem ofOrdinal_parts (hn : n ≠ 0) : ∃ year month day,
    Date.ofOrdinal n = Date.of year month day ∧ (1 ≤ month ∧ month ≤ 12) ∧
      (1 ≤ day ∧ day ≤ daysInMonth year month) ∧ 1 ≤ year ∧
      daysBeforeYear year + daysBeforeMonth year month + day = n := by
  obtain ⟨hyear, hrest, hsum⟩ := yearOf_spec (n - 1)
  have hstart : daysBeforeMonth (yearOf (n - 1)).1 1 = 0 := rfl
  obtain ⟨hmonth, hday, hmonths⟩ :=
    monthFrom_spec (yearOf (n - 1)).1 11 1 (yearOf (n - 1)).2 (by omega) (by omega)
  refine ⟨_, _, _, ?_, hmonth, hday, hyear, by omega⟩
  unfold Date.ofOrdinal
  rw [if_neg hn]

/-- **A number is split into the day that has it.** -/
theorem ofOrdinal_eq_ok : Date.ofOrdinal n = .ok d ↔ d.ordinal = n := by
  have hsound {n : Nat} {d : Date} (h : Date.ofOrdinal n = .ok d) : d.ordinal = n := by
    have hn : n ≠ 0 := by
      rintro rfl
      exact absurd h (by simp [Date.ofOrdinal])
    obtain ⟨year, month, day, heq, _, _, _, hsum⟩ := ofOrdinal_parts hn
    rw [heq] at h
    obtain ⟨rfl, rfl, rfl⟩ := of_ok h
    exact hsum
  refine ⟨hsound, ?_⟩
  rintro rfl
  have hmem := d.ordinal_mem
  obtain ⟨year, month, day, heq, hmonth, hday, hyear, hsum⟩ :=
    ofOrdinal_parts (n := d.ordinal) (by omega)
  -- a year past the last one would count more days than the calendar has
  have hin : year ≤ 9999 := by
    by_contra hout
    have hmono : daysBeforeYear 10000 ≤ daysBeforeYear year :=
      daysBeforeYear_mono (by omega) (by omega)
    have hend : daysBeforeYear 10000 = lastOrdinal := rfl
    omega
  have hok : Date.ofOrdinal d.ordinal = .ok ⟨year, month, day, ⟨hyear, hin⟩, hmonth, hday⟩ := by
    rw [heq]
    unfold Date.of
    rw [dif_pos ⟨hyear, hin⟩, dif_pos hmonth, dif_pos hday]
  rw [hok, ordinal_injective (hsound hok)]

/-- A day follows on another: in the month, in the year, or as the first of a year. -/
inductive IsNext (d e : Date) : Prop
  | day (year : e.year = d.year) (month : e.month = d.month) (day : e.day = d.day + 1) : IsNext d e
  | month (year : e.year = d.year) (last : d.day = daysInMonth d.year d.month)
      (month : e.month = d.month + 1) (first : e.day = 1) : IsNext d e
  | year (last : d.month = 12 ∧ d.day = 31) (year : e.year = d.year + 1)
      (first : e.month = 1 ∧ e.day = 1) : IsNext d e

theorem IsNext.ordinal (h : IsNext d e) : e.ordinal = d.ordinal + 1 := by
  unfold Date.ordinal
  cases h with
  | day year month day =>
      rw [year, month, day]
      omega
  | month year last month first =>
      rw [year, month, first, last, daysBeforeMonth_succ d.year d.month_mem.1]
      omega
  | year last year first =>
      have hend := daysBeforeMonth_december d.year
      have hstart : daysBeforeMonth (d.year + 1) 1 = 0 := rfl
      rw [first.1, first.2, year, last.1, last.2, daysBeforeYear_succ d.year_mem.1, hstart]
      omega

/-- The last day of the calendar. -/
def last : Date := ⟨9999, 12, 31, by decide, by decide, by decide⟩

/-- Every day but the last has a next one. -/
theorem exists_isNext (h : d ≠ last) : ∃ e, IsNext d e := by
  have hyear := d.year_mem
  have hmonth := d.month_mem
  have hday := d.day_mem
  by_cases hend : d.day = daysInMonth d.year d.month
  · have hfirst (year month : Nat) : 1 ≤ 1 ∧ 1 ≤ daysInMonth year month :=
      ⟨Nat.le_refl 1, daysInMonth_pos year month⟩
    by_cases hdecember : d.month = 12
    · rw [hdecember] at hend
      have hbefore : d.year ≠ 9999 := fun hlast => h (eq_of_parts hlast hdecember hend)
      exact ⟨⟨d.year + 1, 1, 1, by omega, by omega, hfirst _ _⟩, .year ⟨hdecember, hend⟩ rfl ⟨rfl, rfl⟩⟩
    · exact ⟨⟨d.year, d.month + 1, 1, hyear, by omega, hfirst _ _⟩, .month rfl hend rfl rfl⟩
  · exact ⟨⟨d.year, d.month, d.day + 1, hyear, hmonth, by omega⟩, .day rfl rfl rfl⟩

theorem ordinal_last : last.ordinal = lastOrdinal := rfl

/-- **The day after a day is the next one.** -/
theorem tomorrow?_eq_some : d.tomorrow? = some e ↔ IsNext d e := by
  have hordinal : d.tomorrow? = some e ↔ e.ordinal = d.ordinal + 1 := by
    rw [← ofOrdinal_eq_ok]
    exact ⟨Result.ok_of_toOption, Result.toOption_of_ok⟩
  rw [hordinal]
  refine ⟨?_, IsNext.ordinal⟩
  intro h
  have hnot : d ≠ last := by
    rintro rfl
    have hmem := e.ordinal_mem.2
    rw [ordinal_last] at h
    omega
  obtain ⟨next, hnext⟩ := exists_isNext hnot
  rwa [ordinal_injective (h.trans hnext.ordinal.symm)]

end Date

/-! ## Midnights -/

theorem Time.micros_lt (t : Time) : t.micros < 86400000000 := by
  have hhour := t.hour_lt
  have hminute := t.minute_lt
  have hsecond := t.second_lt
  have hmicro := t.micro_lt
  unfold micros
  omega

/-- A day has begun on that day and on all days after it. -/
theorem Instant.startOf_le {now : Instant} : startOf d ≤ now ↔ d.ordinal ≤ now.date.ordinal := by
  have hle : startOf d ≤ now ↔ (startOf d).micros ≤ now.micros := Iff.rfl
  have hzero : Time.midnight.micros = 0 := by decide
  have hstart : (startOf d).micros = d.ordinal * 86400000000 := by
    unfold micros startOf
    rw [hzero, Nat.add_zero]
  have htime := now.time.micros_lt
  rw [hle, hstart]
  unfold micros
  omega

end LockAudit.Calendar
