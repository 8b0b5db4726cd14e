import LockAudit.Proofs.Calendar.DateForm
import LockAudit.Suppression.Entry

/-!
# Days as expiries

An expiry that is a day alone is meant to last through that day. Two readers share the
texts between them: one that takes a day in the form with dashes, and that gives the
midnight at its end; and the reader of timestamps, which takes every other text. The second
reads a day alone as well, in all forms, and gives the midnight at its beginning.

So a day without dashes, or by its week, is over before it begins. `dateAlone_exact` says
for every way to write a day which of the two it is, and that there is no third.
-/

namespace LockAudit

namespace Text

/-- Where a character does not occur, nothing is put in its place. -/
theorem replaceChar_of_not_mem {old : Char} {new cs : List Char} (h : old ∉ cs) :
    replaceChar old new cs = cs := by
  have hkeep : ∀ c ∈ cs, (if c = old then new else [c]) = [c] := by
    intro c hc
    refine if_neg ?_
    rintro rfl
    exact h hc
  unfold replaceChar
  rw [List.flatMap_congr hkeep, List.flatMap_singleton']

end Text

namespace Suppression

open Calendar

variable {v : Value} {s : String} {cs : List Char} {d next : Date} {extended : Bool}

/-! ## Ways to name a day -/

/-- The value is a day and no more, by itself or as a text. -/
inductive NamesDay : Value → Date → Prop
  | date (d : Date) : NamesDay (.date d) d
  | text {s : String} {d : Date} (spells : Iso.Spells (Text.stripList s.toList) d) :
      NamesDay (.text s) d

/-- The readers take the value for a day and no more. -/
inductive ReadsAsDay : Value → Date → Prop
  | date (d : Date) : ReadsAsDay (.date d) d
  | text {s : String} {d : Date} (alone : Iso.IsAlone (Text.stripList s.toList) d) :
      ReadsAsDay (.text s) d

theorem readsAsDay_iff : ReadsAsDay v d ↔ NamesDay v d := by
  refine ⟨?_, ?_⟩
  · intro h
    cases h with
    | date => exact .date d
    | text alone => exact .text (Iso.isAlone_iff.mp alone)
  · intro h
    cases h with
    | date => exact .date d
    | text spells => exact .text (Iso.isAlone_iff.mpr spells)

/-- The day is a date by itself, or a text in the form with dashes. -/
inductive IsDashed : Value → Date → Prop
  | date (d : Date) : IsDashed (.date d) d
  | text {s : String} {d : Date} (form : Text.stripList s.toList = Iso.dateChars d) :
      IsDashed (.text s) d

theorem all_isDigit_padded {width n : Nat} : (Number.padded width n).all Text.isDigit = true :=
  List.all_eq_true.mpr fun _ hc =>
    Text.isDigit_of_isAsciiDigit (Number.isAsciiDigit_of_mem_padded hc)

theorem isDateForm_dateChars (d : Date) : isDateForm (Iso.dateChars d) = true := by
  have hyear : (Number.padded 4 d.year).all Text.isDigit = true := all_isDigit_padded
  have hmonth : (Number.padded 2 d.month).all Text.isDigit = true := all_isDigit_padded
  have hday : (Number.padded 2 d.day).all Text.isDigit = true := all_isDigit_padded
  obtain ⟨a, b, c, e, heq⟩ := List.length_eq_four.mp (Number.length_padded (by omega) d.year_lt)
  obtain ⟨f, g, heq'⟩ := List.length_eq_two.mp (Number.length_padded (by omega) d.month_lt)
  obtain ⟨x, y, heq''⟩ := List.length_eq_two.mp (Number.length_padded (by omega) d.day_lt)
  rw [heq] at hyear
  rw [heq'] at hmonth
  rw [heq''] at hday
  unfold isDateForm Iso.dateChars
  rw [heq, heq', heq'']
  simp_all

theorem isDateForm_of_length (h : cs.length ≠ 10) : isDateForm cs = false := by
  simp [isDateForm, h]

/-- The letter of the week is not taken for the digit of a month. -/
theorem isDateForm_of_week (h : cs[5]? = some 'W') : isDateForm cs = false := by
  have hfirst : ((cs.drop 5).take 2)[0]? = some 'W' := by
    rw [List.getElem?_take_of_lt (by omega), List.getElem?_drop, h]
  have hall : ((cs.drop 5).take 2).all Text.isDigit = false :=
    List.all_eq_false.mpr ⟨'W', List.mem_of_getElem? hfirst, by decide⟩
  simp [isDateForm, hall]

theorem isDateForm_of_spells (h : Iso.Spells cs d) (hform : cs ≠ Iso.dateChars d) :
    isDateForm cs = false := by
  cases h with
  | month extended =>
      cases extended with
      | true => exact absurd (Iso.dateChars_eq d).symm hform
      | false => exact isDateForm_of_length (by rw [Iso.length_monthChars]; simp)
  | weekDay extended isDay =>
      obtain ⟨hyear, hweek, hday⟩ := isDay.lt
      cases extended with
      | true => exact isDateForm_of_week (Iso.getElem?_weekChars hyear)
      | false =>
          refine isDateForm_of_length ?_
          simp [Iso.length_weekChars hyear hweek, Iso.length_dash,
            Number.length_padded (show 0 < 1 by omega) hday]
  | week extended isMonday =>
      obtain ⟨hyear, hweek, _⟩ := isMonday.lt
      refine isDateForm_of_length ?_
      rw [Iso.length_weekChars hyear hweek]
      cases extended <;> simp

theorem endOfDay_next (h : d.IsNext next) : endOfDay d = .ok (.startOf next) := by
  unfold endOfDay
  rw [Date.tomorrow?_eq_some.mpr h]

/-- A date, and a text in the form with dashes, last through the day. -/
theorem IsDashed.readExpiry (h : IsDashed v d) (hnext : d.IsNext next) :
    readExpiry v = .ok (.startOf next) := by
  cases h with
  | date => exact endOfDay_next hnext
  | @text s d form =>
      have halone : Iso.IsAlone (Iso.dateChars d) d := by
        rw [Iso.dateChars_eq]
        exact Iso.Spells.isAlone (.month true)
      have hreads : Iso.readDate (Text.strip s) = .ok d := by
        unfold Text.strip
        rw [form]
        exact halone.readDate
      simp [Suppression.readExpiry, form, isDateForm_dateChars, hreads, endOfDay_next hnext]

/-- A day in any other form is read as a timestamp, and is over when it begins. -/
theorem NamesDay.readExpiry (h : NamesDay v d) (hform : ¬ IsDashed v d) :
    readExpiry v = .ok (.startOf d) := by
  cases h with
  | date => exact absurd (.date d) hform
  | @text s d spells =>
      have hcs : Text.stripList s.toList ≠ Iso.dateChars d := fun h => hform (.text h)
      have hblank : Text.isBlankText s = false := by
        unfold Text.isBlankText
        rw [List.isEmpty_eq_false_iff]
        exact spells.ne_nil
      have hplain : Advisory.plainTimestamp s = String.ofList (Text.stripList s.toList) := by
        unfold Advisory.plainTimestamp
        rw [Text.replaceChar_of_not_mem]
        intro hmem
        exact absurd (spells.isDateChar hmem) (by simp [Iso.IsDateChar]; decide)
      simp [Suppression.readExpiry, isDateForm_of_spells spells hcs, Advisory.readTimestamp, hblank,
        Advisory.readInstant, hplain, spells.isAlone.readDateTime, DateTime.toUtc, Instant.startOf]

/-! ## What comes of it -/

variable {sup : Suppression} {now : Instant}

/-- A suppression that ends at a midnight is over on the day that begins with it and on all
days after. -/
theorem isExpired_startOf (h : sup.expires = some (.startOf d)) :
    sup.isExpired now = true ↔ d.ordinal ≤ now.date.ordinal := by
  unfold isExpired
  rw [h, Option.any_some, decide_eq_true_iff, Instant.startOf_le]

/-- The suppression holds through the day and is over from the next midnight on. -/
def LastsThrough (sup : Suppression) (d next : Date) : Prop :=
  ∀ now : Instant, (now.date = d → sup.isExpired now = false) ∧
    (.startOf next ≤ now → sup.isExpired now = true)

theorem lastsThrough (hnext : d.IsNext next) (h : sup.expires = some (.startOf next)) :
    sup.LastsThrough d next := by
  intro now
  refine ⟨?_, ?_⟩
  · rintro rfl
    have hlater := hnext.ordinal
    rw [← Bool.not_eq_true, isExpired_startOf h]
    omega
  · intro hnow
    exact (isExpired_startOf h).mpr (Instant.startOf_le.mp hnow)

/-- **Which days last.** The values that are read as a day alone are the listed ones. A day
that is a date by itself or has the form with dashes lasts until the next one; a day in any
other form is over for its whole length. -/
theorem dateAlone_exact (v : Value) (d : Date) :
    (ReadsAsDay v d ↔ NamesDay v d) ∧
      (NamesDay v d → d ≠ .last → ∃ next expires, d.IsNext next ∧ readExpiry v = .ok expires ∧
        (IsDashed v d ∧ expires = .startOf next ∧
            (∀ sup : Suppression, sup.expires = some expires → sup.LastsThrough d next) ∨
          ¬ IsDashed v d ∧ expires = .startOf d ∧
            ∀ sup : Suppression, sup.expires = some expires →
              ∀ now, now.date = d → sup.isExpired now = true)) := by
  refine ⟨readsAsDay_iff, ?_⟩
  intro hday hlast
  obtain ⟨next, hnext⟩ := Date.exists_isNext hlast
  by_cases hform : IsDashed v d
  · refine ⟨next, .startOf next, hnext, hform.readExpiry hnext, Or.inl ⟨hform, rfl, ?_⟩⟩
    intro sup hsup
    exact lastsThrough hnext hsup
  · refine ⟨next, .startOf d, hnext, hday.readExpiry hform, Or.inr ⟨hform, rfl, ?_⟩⟩
    rintro sup hsup now rfl
    exact (isExpired_startOf hsup).mpr (Nat.le_refl _)

/-- The 29th of February 2024. -/
def leapDay : Date := ⟨2024, 2, 29, by decide, by decide, by decide⟩

/-- Without dashes, the day is over when it begins. -/
theorem dateAlone_exact_withoutDashes :
    NamesDay (.text "20240229") leapDay ∧
      readExpiry (.text "20240229") = .ok (.startOf leapDay) := by
  have hchars : Text.stripList "20240229".toList = Iso.monthChars false 2024 2 29 := by
    decide +kernel
  have hday : NamesDay (.text "20240229") leapDay := by
    refine .text ?_
    rw [hchars]
    exact .month (d := leapDay) false
  obtain ⟨next, expires, _, hreads, ⟨hdashed, _⟩ | ⟨_, rfl, _⟩⟩ :=
    (dateAlone_exact _ _).2 hday (by decide)
  · cases hdashed with
    | text form => exact absurd form (by decide +kernel)
  · exact ⟨hday, hreads⟩

end Suppression

end LockAudit
