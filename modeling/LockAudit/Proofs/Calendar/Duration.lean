import LockAudit.Proofs.Handling

/-!
# Texts that are no durations

A text that spells no duration is a value that is not allowed, with two exceptions:
the unit may be the long s, which is a letter but no unit, and there may be more days
than a duration has. Neither failure is that of a value.
-/

namespace LockAudit.Calendar.Duration

/-- Reading a text as a duration ends in a failure that is not that of a value. -/
inductive IsTrap (s : String) : Prop
  | longS {digits : List Char} (splits : splitText s = some (digits, some 'ſ'))
      (short : digits.length ≤ Number.digitLimit) : IsTrap s
  | tooLong {digits : List Char} {unit : Option Char} {size : Nat}
      (splits : splitText s = some (digits, unit)) (short : digits.length ≤ Number.digitLimit)
      (sized : unitSeconds? unit = some size)
      (long : 86400 * 1000000000 ≤ Text.digitsValue digits * size) : IsTrap s

/-- A number of seconds is a duration up to 10⁹ days. -/
theorem checked_ofSeconds {n : Nat} :
    (∃ cause, (ofSeconds n).checked = .error cause) ↔ 86400 * 1000000000 ≤ n := by
  have hdays : (ofSeconds n).days = (n / 86400 : Nat) := by
    unfold days ofSeconds
    simp only
    rw [Int.fdiv_eq_ediv_of_nonneg _ (by decide)]
    omega
  unfold checked
  rw [hdays]
  split
  · simp only [Except.error.injEq, exists_eq', true_iff]
    omega
  · split
    · simp only [Except.error.injEq, exists_eq', true_iff]
      omega
    · simp only [reduceCtorEq, exists_false, false_iff]
      omega

/-- Of the letters, only the long s is no unit. -/
theorem unitSeconds?_eq_none {c : Char} (h : isUnit c = true) :
    unitSeconds? (some c) = none ↔ c = 'ſ' := by
  refine ⟨?_, ?_⟩
  · intro hnone
    unfold isUnit at h
    unfold unitSeconds? at hnone
    simp only [Bool.or_eq_true, decide_eq_true_eq] at h
    rcases h with ((((h | h) | h) | h) | h) | h
    · simp [h] at hnone
    · simp [h] at hnone
    · simp [h] at hnone
    · simp [h] at hnone
    · simp [h] at hnone
    · exact h
  · intro h
    subst h
    decide

theorem isUnit_of_splitText {s : String} {digits : List Char} {c : Char}
    (h : splitText s = some (digits, some c)) :
    isUnit c = true := by
  unfold splitText at h
  simp only at h
  split at h
  · exact absurd h (by simp)
  · split at h
    · exact absurd h (by simp)
    · split at h
      · rename_i hunit
        cases h
        exact hunit
      · exact absurd h (by simp)
    · exact absurd h (by simp)

/-- Reading goes on with the number that the digits spell. -/
theorem read_of_digits {s : String} {digits : List Char} {unit : Option Char} {amount : Nat}
    (hsplit : splitText s = some (digits, unit)) (hamount : Number.ofDigits digits = .ok amount) :
    read s = match unitSeconds? unit with
      | none => .error (.unknownUnit (String.ofList unit.toList))
      | some size => (ofSeconds (amount * size)).checked.mapError .overflow := by
  unfold read
  rw [hsplit]
  simp only [hamount, Result.mapError_ok_eq]
  rfl

/-- **The traps are all there is** beside values that are not allowed. -/
theorem read_uncaught {s : String} :
    Uncaught Failure.isValueError ((read s).mapError .ofDuration) ↔ IsTrap s := by
  rw [Uncaught.mapError_iff]
  refine ⟨?_, ?_⟩
  · intro h
    obtain ⟨e, he, hvalue⟩ := h
    unfold read at he
    split at he
    · cases he
      exact absurd hvalue (by simp [Failure.ofDuration, Failure.isValueError])
    · rename_i digits unit hsplit
      -- the digits are too many, or the unit is unknown, or the days are too many
      rcases Result.bind_error.mp he with he | ⟨amount, hamount, he⟩
      · obtain ⟨cause, _, rfl⟩ := Result.mapError_error.mp he
        exact absurd hvalue (by simp [Failure.ofDuration, Failure.isValueError])
      · rw [Result.mapError_ok] at hamount
        unfold Number.ofDigits at hamount
        split at hamount
        · rename_i hshort
          cases hamount
          split at he
          · rename_i hunit
            cases unit with
            | none => exact absurd hunit (by decide)
            | some c =>
                have hletter : isUnit c = true := isUnit_of_splitText hsplit
                obtain rfl := (unitSeconds?_eq_none hletter).mp hunit
                exact .longS hsplit hshort
          · rename_i size hsize
            obtain ⟨cause, hcause, rfl⟩ := Result.mapError_error.mp he
            rw [← Int.natCast_mul] at hcause
            have hlong := checked_ofSeconds.mp ⟨cause, hcause⟩
            exact .tooLong hsplit hshort hsize hlong
        · exact absurd hamount (by simp)
  · intro h
    cases h with
    | @longS digits splits short =>
        have hamount : Number.ofDigits digits = .ok (Text.digitsValue digits) := if_pos short
        have hunit : unitSeconds? (some 'ſ') = none := by decide
        refine ⟨.unknownUnit "ſ", ?_, rfl⟩
        rw [read_of_digits splits hamount, hunit]
        rfl
    | @tooLong digits unit size splits short sized long =>
        have hamount : Number.ofDigits digits = .ok (Text.digitsValue digits) := if_pos short
        obtain ⟨cause, hcause⟩ := checked_ofSeconds.mpr long
        rw [Int.natCast_mul] at hcause
        refine ⟨.overflow cause, ?_, rfl⟩
        rw [read_of_digits splits hamount, sized]
        simp [hcause]

end LockAudit.Calendar.Duration
