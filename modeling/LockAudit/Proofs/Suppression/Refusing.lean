import LockAudit.Proofs.Advisory.Record
import LockAudit.Proofs.Calendar.Ordinal
import LockAudit.Suppression.Entry

/-!
# Entries that are not refused

An entry that cannot be honoured is to be refused, with a complaint that names the place
where it stands. Two of the readers that an entry goes through have failures of their own,
and not all of them become a complaint: a number in a version that is too long to be read,
an expiry outside the calendar, and an expiry that is refused but cannot be shown in the
complaint about it.

`Escapes` has a constructor for each. An entry that none of them fits states a suppression
or is refused at its place.
-/

namespace LockAudit

/-! ## Values that cannot be shown -/

namespace Value

variable {v : Value} {cause : Number.Oversized}

/-- A value that cannot be shown holds a number, so it counts as given. -/
theorem isGiven_of_describe (h : v.describe = .error cause) : v.isGiven = true := by
  cases v with
  | int n =>
      have hne : n ≠ 0 := by
        rintro rfl
        have hzero : Number.isWritable 0 = true :=
          Number.ofDigits_isWritable (show Number.ofDigits [] = .ok 0 from rfl)
        exact absurd h (by simp [describe, Number.write, hzero])
      simp [isGiven, hne]
  | list items =>
      cases items with
      | nil => exact absurd h (by simp [describe, describeItems])
      | cons item items => rfl
  | table fields =>
      cases fields with
      | nil => exact absurd h (by simp [describe, describeFields])
      | cons field fields => rfl
  | _ => exact absurd h (by simp [describe])

end Value

namespace Suppression

variable {v : Value} {fields : List (String × Value)} {place : Place} {reason s : String}
  {c : Failure} {cause : Number.Oversized}

/-! ## Versions -/

/-- What comes of a version that cannot be read. -/
def versionFailure (place : Place) : VersionRange.Fault → Failure
  | .malformed _ cause => .suppression (.invalidVersion cause) place
  | .oversized cause => .oversized cause

/-- An entry has no version, or an empty one, and is for all versions; or it has one that
spells a range, or one that does not. -/
theorem readVersion_cases (place : Place) (fields : List (String × Value)) :
    (∀ s, Value.field "version" fields = .text s → s = "") ∧ readVersion place fields = .ok none ∨
      ∃ s, Value.field "version" fields = .text s ∧ s ≠ "" ∧
        ((∃ range, VersionRange.parse s = .ok range ∧ readVersion place fields = .ok (some range)) ∨
          ∃ fault, VersionRange.parse s = .error fault ∧
            readVersion place fields = .error (versionFailure place fault)) := by
  unfold readVersion
  split
  · rename_i hempty
    exact Or.inl ⟨fun s hs => (Value.text.inj (hempty.symm.trans hs)).symm, rfl⟩
  · rename_i s hgiven htext
    refine Or.inr ⟨s, htext, hgiven, ?_⟩
    cases VersionRange.parse s with
    | ok range => exact Or.inl ⟨range, rfl, rfl⟩
    | error fault => cases fault <;> exact Or.inr ⟨_, rfl, rfl⟩
  · rename_i hnot
    exact Or.inl ⟨fun s hs => absurd hs (hnot s), rfl⟩

/-- The version of an entry can be read, if it has one. -/
def HasVersion (fields : List (String × Value)) : Prop :=
  ∀ s, Value.field "version" fields = .text s → s ≠ "" → ∃ range, VersionRange.parse s = .ok range

theorem readVersion_ok : (∃ range, readVersion place fields = .ok range) ↔ HasVersion fields := by
  rcases readVersion_cases place fields with
    ⟨hnone, heq⟩ | ⟨s, htext, hgiven, ⟨range, hrange, heq⟩ | ⟨fault, hfault, heq⟩⟩
  · exact ⟨fun _ s hs hgiven => absurd (hnone s hs) hgiven, fun _ => ⟨none, heq⟩⟩
  · refine ⟨?_, fun _ => ⟨some range, heq⟩⟩
    intro _ t ht _
    cases htext.symm.trans ht
    exact ⟨range, hrange⟩
  · refine ⟨?_, ?_⟩
    · rintro ⟨range, hrange⟩
      exact absurd (heq.symm.trans hrange) (by simp)
    · intro h
      obtain ⟨range, hrange⟩ := h s htext hgiven
      exact absurd (hfault.symm.trans hrange) (by simp)

/-- The version of an entry holds a number that is too long to be read. -/
def HasLongVersion (fields : List (String × Value)) (cause : Number.Oversized) : Prop :=
  ∃ s, Value.field "version" fields = .text s ∧ s ≠ "" ∧
    VersionRange.parse s = .error (.oversized cause)

theorem HasLongVersion.readVersion (h : HasLongVersion fields cause) :
    readVersion place fields = .error (.oversized cause) := by
  obtain ⟨t, ht, hnotEmpty, hlong⟩ := h
  rcases readVersion_cases place fields with
    ⟨hnone, _⟩ | ⟨s, htext, _, ⟨range, hrange, _⟩ | ⟨fault, hfault, heq⟩⟩
  · exact absurd (hnone t ht) hnotEmpty
  · cases htext.symm.trans ht
    exact absurd (hlong.symm.trans hrange) (by simp)
  · cases htext.symm.trans ht
    cases hfault.symm.trans hlong
    exact heq

/-! ## Expiries -/

/-- An expiry whose instant lies outside the calendar. -/
inductive LeavesCalendar : Value → Prop
  | date {d : Calendar.Date} (last : d.tomorrow? = none) : LeavesCalendar (.date d)
  | dateText {s : String} {d : Calendar.Date}
      (form : isDateForm (Text.stripList s.toList) = true)
      (reads : Calendar.Iso.readDate (Text.strip s) = .ok d) (last : d.tomorrow? = none) :
      LeavesCalendar (.text s)
  | text {s : String} (form : isDateForm (Text.stripList s.toList) = false)
      (leaves : Advisory.LeavesCalendar (.text s)) : LeavesCalendar (.text s)
  | dateTime {t : Calendar.DateTime} (leaves : t.toUtc = none) : LeavesCalendar (.dateTime t)

theorem endOfDay_error {d : Calendar.Date} :
    endOfDay d = .error c ↔ c = .overflow .date ∧ d.tomorrow? = none := by
  unfold endOfDay
  cases d.tomorrow? with
  | none => simp [eq_comm]
  | some next => simp

theorem LeavesCalendar.readExpiry (h : LeavesCalendar v) :
    readExpiry v = .error (.overflow .date) := by
  cases h with
  | date last => exact endOfDay_error.mpr ⟨rfl, last⟩
  | dateText form reads last =>
      simp [Suppression.readExpiry, form, reads, endOfDay_error.mpr ⟨rfl, last⟩]
  | text form leaves => simp [Suppression.readExpiry, form, leaves.readTimestamp]
  | dateTime leaves => simp [Suppression.readExpiry, Advisory.readTimestamp, leaves]

theorem LeavesCalendar.isGiven (h : LeavesCalendar v) : v.isGiven = true := by
  cases h with
  | date last => rfl
  | @dateText s d form reads last =>
      cases hs : s.isEmpty with
      | false => simp [Value.isGiven, hs]
      | true =>
          have hempty : s = "" := String.isEmpty_iff.mp hs
          rw [hempty] at form
          exact absurd form (by decide)
  | text form leaves => exact leaves.isGiven
  | dateTime leaves => rfl

/-- An expiry that is not accepted is complained about as a value, or leaves the calendar. -/
theorem readExpiry_error (h : readExpiry v = .error c) :
    c.isValueError = true ∨ c = .overflow .date ∧ LeavesCalendar v := by
  unfold readExpiry at h
  split at h
  · obtain ⟨hc, hlast⟩ := endOfDay_error.mp h
    exact Or.inr ⟨hc, .date hlast⟩
  · split at h
    · rename_i hform
      rcases Result.bind_error.mp h with h | ⟨d, hd, h⟩
      · -- a text of a date's form that is no date is refused as a value
        obtain ⟨e, _, rfl⟩ := Result.mapError_error.mp h
        exact Or.inl rfl
      · obtain ⟨hc, hlast⟩ := endOfDay_error.mp h
        exact Or.inr ⟨hc, .dateText hform (Result.mapError_ok.mp hd) hlast⟩
    · rename_i hform
      rw [Bool.not_eq_true] at hform
      exact (Advisory.readTimestamp_error h).imp_right fun ⟨hc, leaves⟩ => ⟨hc, .text hform leaves⟩
  · rename_i htext
    rcases Advisory.readTimestamp_error h with hvalue | ⟨hc, leaves⟩
    · exact Or.inl hvalue
    · cases leaves with
      | text given reads leaves => exact absurd rfl (htext _)
      | dateTime leaves => exact Or.inr ⟨hc, .dateTime leaves⟩

/-- A value that cannot be shown is no expiry. -/
theorem readExpiry_of_describe (h : v.describe = .error cause) :
    readExpiry v = .error (.oversized cause) := by
  cases v with
  | int n => simp [readExpiry, Advisory.readTimestamp, h]
  | list items => simp [readExpiry, Advisory.readTimestamp, h]
  | table fields => simp [readExpiry, Advisory.readTimestamp, h]
  | _ => exact absurd h (by simp [Value.describe])

/-- An expiry that counts as not given is passed over. Another is read, or refused if it is
no instant and can be shown. -/
theorem readExpires_cases (place : Place) (fields : List (String × Value)) :
    (Value.field "expires" fields).isGiven = false ∧ readExpires place fields = .ok none ∨
      (Value.field "expires" fields).isGiven = true ∧
        ((∃ t, readExpiry (Value.field "expires" fields) = .ok t ∧
            readExpires place fields = .ok (some t)) ∨
          (∃ d, readExpires place fields = .error (.suppression d place)) ∨
          (∃ cause, (Value.field "expires" fields).describe = .error cause ∧
            readExpires place fields = .error (.oversized cause)) ∨
          LeavesCalendar (Value.field "expires" fields) ∧
            readExpires place fields = .error (.overflow .date)) := by
  unfold readExpires
  dsimp only
  generalize Value.field "expires" fields = value
  cases hgiven : value.isGiven with
  | false => exact Or.inl ⟨rfl, rfl⟩
  | true =>
      refine Or.inr ⟨rfl, ?_⟩
      cases hreads : readExpiry value with
      | ok t => exact Or.inl ⟨t, rfl, rfl⟩
      | error c =>
          -- a refused date is reported with the value shown, which can fail on its own
          rcases readExpiry_error hreads with hvalue | ⟨rfl, leaves⟩
          · dsimp only
            rw [hvalue]
            cases value.describe with
            | ok shown => exact Or.inr (Or.inl ⟨_, rfl⟩)
            | error cause => exact Or.inr (Or.inr (Or.inl ⟨cause, rfl, rfl⟩))
          · exact Or.inr (Or.inr (Or.inr ⟨leaves, rfl⟩))

theorem readExpires_of_describe (h : (Value.field "expires" fields).describe = .error cause) :
    readExpires place fields = .error (.oversized cause) := by
  simp [readExpires, Value.isGiven_of_describe h, readExpiry_of_describe h, h, Failure.isValueError]

theorem LeavesCalendar.readExpires (h : LeavesCalendar (Value.field "expires" fields)) :
    readExpires place fields = .error (.overflow .date) := by
  simp [Suppression.readExpires, h.isGiven, h.readExpiry, Failure.isValueError]

/-! ## Entries -/

/-- The entry has what is asked for before its version: known keys, texts where texts have
to be, and a reason. -/
structure Opens (fields : List (String × Value)) (reason : String) : Prop where
  known : unknownKeys fields = []
  texts : keyNotText? fields = none
  reads : readName fields "reason" = some reason

/-- What is left to do for an entry that opens. -/
theorem Opens.ofValue (h : Opens fields reason) : ofValue place (.table fields) = (do
    let version ← readVersion place fields
    let expires ← readExpires place fields
    let advisory := readName fields "id"
    let package := readName fields "package"
    if named : (advisory.isSome || package.isSome) = true then
      pure { reason, advisory, package, version, expires, named }
    else refuse place .noTarget) := by
  simp only [Suppression.ofValue, h.known, h.texts, h.reads, List.isEmpty_nil, Bool.not_true,
    Bool.false_eq_true, if_false]

/-- An entry opens, or is refused. -/
theorem opens_or_refused (place : Place) (entry : Value) :
    (∃ fields reason, entry = .table fields ∧ Opens fields reason) ∨
      ∃ d, ofValue place entry = refuse place d := by
  unfold ofValue
  split
  · rename_i fields
    dsimp only
    split
    · exact Or.inr ⟨_, rfl⟩
    rename_i hknown
    split
    · exact Or.inr ⟨_, rfl⟩
    rename_i htexts
    split
    · exact Or.inr ⟨_, rfl⟩
    rename_i reason hreason
    exact Or.inl ⟨fields, reason, rfl, by simpa using hknown, htexts, hreason⟩
  · exact Or.inr ⟨_, rfl⟩

/-- The failures of an entry that opens and is not refused. -/
inductive Escapes : Value → Failure → Prop
  | version {fields : List (String × Value)} {reason : String} {cause : Number.Oversized}
      (opens : Opens fields reason) (long : HasLongVersion fields cause) :
      Escapes (.table fields) (.oversized cause)
  | unshown {fields : List (String × Value)} {reason : String} {cause : Number.Oversized}
      (opens : Opens fields reason) (version : HasVersion fields)
      (unshown : (Value.field "expires" fields).describe = .error cause) :
      Escapes (.table fields) (.oversized cause)
  | expiry {fields : List (String × Value)} {reason : String} (opens : Opens fields reason)
      (version : HasVersion fields) (leaves : LeavesCalendar (Value.field "expires" fields)) :
      Escapes (.table fields) (.overflow .date)

theorem Escapes.ofValue {entry : Value} (h : Escapes entry c) : ofValue place entry = .error c := by
  cases h with
  | version opens long => rw [opens.ofValue, long.readVersion, Result.error_bind]
  | unshown opens version unshown =>
      obtain ⟨range, hversion⟩ := readVersion_ok.mpr version
      rw [opens.ofValue, hversion, Result.ok_bind, readExpires_of_describe unshown,
        Result.error_bind]
  | expiry opens version leaves =>
      obtain ⟨range, hversion⟩ := readVersion_ok.mpr version
      rw [opens.ofValue, hversion, Result.ok_bind, leaves.readExpires, Result.error_bind]

end Suppression

end LockAudit
