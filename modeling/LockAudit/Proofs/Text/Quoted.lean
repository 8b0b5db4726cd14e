import LockAudit.Proofs.Number.Integer
import LockAudit.Text.Quoted

/-!
# What quotes leave alone

A text in quotes is the text with some of its characters escaped. An escape begins with a
backslash and goes on with letters and digits, so no bracket comes from it. Digits, of
whichever script, are printable, and stand in quotes as they are.
-/

namespace LockAudit.Text

variable {c mark : Char} {cs text : List Char}

set_option maxRecDepth 10000 in
theorem isPrintable_of_isDigit (h : isDigit c = true) : isPrintable c = true := by
  have havoid : unprintableRanges.contains c = false :=
    Ranges.contains_of_isDigit (by decide +kernel) h
  unfold isPrintable
  split
  · rename_i hascii
    unfold isDigit digitValue? at h
    rw [if_pos hascii] at h
    split at h
    · rename_i hdigit
      have hzero : 48 ≤ c.toNat := hdigit.1
      have hnine : c.toNat ≤ 57 := hdigit.2
      rw [Bool.and_eq_true, decide_eq_true_iff, decide_eq_true_iff]
      omega
    · exact absurd h (by simp)
  · rw [havoid]
    rfl

/-- The two quotes. -/
def quoteMarks : List Char := ['\'', '"']

theorem quoteMark_mem (cs : List Char) : quoteMark cs ∈ quoteMarks := by
  unfold quoteMark
  split <;> decide

theorem quoteMark_cases (hmark : mark ∈ quoteMarks) : mark = '\'' ∨ mark = '"' := by
  simpa [quoteMarks] using hmark

theorem escapeChar_of_isDigit (hmark : mark ∈ quoteMarks) (h : isDigit c = true) :
    escapeChar mark c = [c] := by
  have hne {d : Char} (hd : isDigit d = false) : c ≠ d := by
    rintro rfl
    rw [h] at hd
    exact absurd hd (by simp)
  have hne_mark : c ≠ mark := hne (by rcases quoteMark_cases hmark with rfl | rfl <;> decide)
  have hne_slash : c ≠ '\\' := hne (by decide)
  unfold escapeChar
  rw [if_neg (not_or.mpr ⟨hne_mark, hne_slash⟩), if_neg (hne (by decide)), if_neg (hne (by decide)),
    if_neg (hne (by decide)), if_pos (isPrintable_of_isDigit h)]

/-- The base-sixteen digits of a number are no brackets. -/
theorem not_mem_hexDigits (width n : Nat) : '(' ∉ hexDigits width n := by
  induction width generalizing n with
  | zero => exact List.not_mem_nil
  | succ width ih =>
      have hdigit : ∀ k < 16, '(' ≠ hexDigit k := by decide
      rw [hexDigits, List.mem_append, List.mem_singleton, not_or]
      exact ⟨ih (n / 16), hdigit _ (Nat.mod_lt n (by omega))⟩

/-- A character stands in quotes as it is, or it is escaped, which brings no bracket with it. -/
theorem escapeChar_cases (hmark : mark ∈ quoteMarks) (c : Char) :
    escapeChar mark c = [c] ∨ ∃ more, escapeChar mark c = '\\' :: more ∧ '(' ∉ more := by
  unfold escapeChar
  split
  · rename_i hc
    refine .inr ⟨[c], rfl, ?_⟩
    rcases hc with rfl | rfl
    · rcases quoteMark_cases hmark with rfl | rfl <;> decide
    · decide
  · split
    · exact .inr ⟨['n'], rfl, by decide⟩
    · split
      · exact .inr ⟨['r'], rfl, by decide⟩
      · split
        · exact .inr ⟨['t'], rfl, by decide⟩
        · split
          · exact .inl rfl
          · -- an escape by code: a letter and hexadecimal digits, whose number depends on the code
            have hcode {letter : Char} (hletter : '(' ≠ letter) (width : Nat) :
                '(' ∉ letter :: hexDigits width c.toNat := by
              rw [List.mem_cons, not_or]
              exact ⟨hletter, not_mem_hexDigits width c.toNat⟩
            unfold escapeCode
            split
            · exact .inr ⟨_, rfl, hcode (by decide) 2⟩
            · split
              · exact .inr ⟨_, rfl, hcode (by decide) 4⟩
              · exact .inr ⟨_, rfl, hcode (by decide) 8⟩

end LockAudit.Text
