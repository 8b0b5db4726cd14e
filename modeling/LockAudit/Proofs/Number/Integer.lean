import LockAudit.Number.Integer
import Mathlib.Data.List.Basic
import Mathlib.Data.List.Induction

/-!
# What is read can be written

The same limit holds for reading a number and for writing one, so a number that was
read can always be written again. Only arithmetic in between can take it over the
limit. In the other direction, the digits of a number that can be written are read as
the number.
-/

namespace LockAudit

namespace Text

theorem digitValue_lt (c : Char) : (digitValue? c).getD 0 < 10 := by
  unfold digitValue?
  split
  · split
    · rename_i h
      obtain ⟨_, hnine⟩ := h
      have : c.toNat ≤ '9'.toNat := hnine
      simp only [Option.getD_some]
      change c.toNat ≤ 57 at this
      omega
    · simp
  · cases digitRanges.find? fun r => r.1 ≤ c.toNat && c.toNat ≤ r.2 with
    | none => simp
    | some r => simpa using Nat.mod_lt _ (by omega)

theorem digitsValue_concat {as : List Char} {a : Char} :
    digitsValue (as ++ [a]) = 10 * digitsValue as + (digitValue? a).getD 0 := by
  unfold digitsValue
  rw [List.foldl_append, List.foldl_cons, List.foldl_nil]

/-- A number is less than the power of ten with as many zeros as it has digits. -/
theorem digitsValue_lt (cs : List Char) : digitsValue cs < Nat.pow 10 cs.length := by
  induction cs using List.reverseRecOn with
  | nil => decide
  | append_singleton cs c ih =>
      rw [digitsValue_concat, List.length_append, List.length_singleton]
      change _ < Nat.pow 10 cs.length * 10
      have := digitValue_lt c
      omega

theorem digitsValue_lt_of_length {cs : List Char} {n : Nat} (h : cs.length ≤ n) :
    digitsValue cs < Nat.pow 10 n :=
  Nat.lt_of_lt_of_le (digitsValue_lt cs) (Nat.pow_le_pow_right (by omega) h)

/-- What is taken while a test holds ends where it first fails. -/
theorem span_run {p : Char → Bool} {cs rest : List Char} (h : ∀ c ∈ cs, p c = true)
    (hrest : ∀ c ∈ rest.head?, p c = false) :
    (cs ++ rest).takeWhile p = cs ∧ (cs ++ rest).dropWhile p = rest := by
  have hstop : rest.takeWhile p = [] ∧ rest.dropWhile p = rest := by
    cases rest with
    | nil => exact ⟨rfl, rfl⟩
    | cons c rest =>
        have hc : ¬ p c = true := by rw [hrest c rfl]; simp
        exact ⟨List.takeWhile_cons_of_neg hc, List.dropWhile_cons_of_neg hc⟩
  rw [List.takeWhile_append_of_pos h, List.dropWhile_append_of_pos h, hstop.1, hstop.2,
    List.append_nil]
  exact ⟨rfl, rfl⟩

theorem isAsciiDigit_iff {c : Char} : isAsciiDigit c = true ↔ 48 ≤ c.toNat ∧ c.toNat ≤ 57 := by
  unfold isAsciiDigit
  rw [Bool.and_eq_true, decide_eq_true_iff, decide_eq_true_iff]
  exact Iff.rfl

/-- A plain digit has the value that its place among the ten says. -/
theorem digitValue?_of_isAsciiDigit {c : Char} (h : isAsciiDigit c = true) :
    digitValue? c = some (c.toNat - 48) := by
  obtain ⟨hzero, hnine⟩ := isAsciiDigit_iff.mp h
  have hrange : '0' ≤ c ∧ c ≤ '9' := ⟨hzero, hnine⟩
  unfold digitValue?
  rw [if_pos (by omega), if_pos hrange]

theorem isDigit_of_isAsciiDigit {c : Char} (h : isAsciiDigit c = true) : isDigit c = true := by
  unfold isDigit
  rw [digitValue?_of_isAsciiDigit h]
  rfl

theorem exists_digitRange {c : Char} (h : isDigit c = true) :
    ∃ r ∈ digitRanges, r.1 ≤ c.toNat ∧ c.toNat ≤ r.2 := by
  unfold isDigit digitValue? at h
  split at h
  · split at h
    · rename_i hdigit
      exact ⟨(48, 57), by decide, hdigit.1, hdigit.2⟩
    · exact absurd h (by simp)
  · rw [Option.isSome_map, List.find?_isSome] at h
    obtain ⟨r, hr, hc⟩ := h
    rw [Bool.and_eq_true, decide_eq_true_iff, decide_eq_true_iff] at hc
    exact ⟨r, hr, hc⟩

/-- No run of the one set meets a run of the other. -/
def Ranges.avoids (t u : Ranges) : Bool :=
  t.all fun r => u.all fun s => Nat.blt r.2 s.1 || Nat.blt s.2 r.1

/-- A set that the digits avoid holds no digit. -/
theorem Ranges.contains_of_isDigit {t : Ranges} {c : Char} (havoids : digitRanges.avoids t = true)
    (h : isDigit c = true) : t.contains c = false := by
  obtain ⟨r, hr, hc⟩ := exists_digitRange h
  unfold contains
  rw [List.any_eq_false]
  intro s hs hmem
  have hapart := List.all_eq_true.mp (List.all_eq_true.mp havoids r hr) s hs
  rw [Bool.or_eq_true, Nat.blt_eq, Nat.blt_eq] at hapart
  rw [Bool.and_eq_true, decide_eq_true_iff, decide_eq_true_iff] at hmem
  omega

theorem isBlank_of_isDigit {c : Char} (h : isDigit c = true) : isBlank c = false :=
  Ranges.contains_of_isDigit (by decide +kernel) h

end Text

namespace Number

theorem ofDigits_isWritable {cs : List Char} {n : Nat} (h : ofDigits cs = .ok n) :
    isWritable n = true := by
  unfold ofDigits at h
  split at h
  · rename_i hlength
    cases h
    unfold isWritable
    rw [decide_eq_true_eq]
    exact Text.digitsValue_lt_of_length hlength
  · exact absurd h (by simp)

/-! ## The digits of a number -/

variable {n : Nat} {c : Char}

theorem isAsciiDigit_of_mem (h : c ∈ Nat.toDigits 10 n) : Text.isAsciiDigit c = true := by
  have hdigit : c.isDigit = true := Nat.isDigit_of_mem_toDigits (by omega) (by omega) h
  rw [Char.isDigit, Bool.and_eq_true, decide_eq_true_iff, decide_eq_true_iff] at hdigit
  exact Text.isAsciiDigit_iff.mpr hdigit

/-- A number has a first digit. -/
theorem toDigits_cons (n : Nat) :
    ∃ c cs, Nat.toDigits 10 n = c :: cs ∧ Text.isAsciiDigit c = true := by
  cases hd : Nat.toDigits 10 n with
  | nil => exact absurd hd Nat.toDigits_ne_nil
  | cons c cs => exact ⟨c, cs, rfl, isAsciiDigit_of_mem (by rw [hd]; exact List.mem_cons_self)⟩

theorem digitsValue_toDigits (n : Nat) : Text.digitsValue (Nat.toDigits 10 n) = n := by
  have hfold : Text.digitsValue (Nat.toDigits 10 n) =
      Nat.ofDigitChars 10 (Nat.toDigits 10 n) 0 := by
    refine List.foldl_ext _ _ 0 fun m c hc => ?_
    rw [Text.digitValue?_of_isAsciiDigit (isAsciiDigit_of_mem hc)]
    rfl
  rw [hfold, Nat.ofDigitChars_ten_toDigits]

theorem length_toDigits_le_iff {k : Nat} (hk : 0 < k) :
    (Nat.toDigits 10 n).length ≤ k ↔ n < Nat.pow 10 k :=
  Nat.length_toDigits_le_iff (by omega) hk

theorem length_toDigits_le {k : Nat} (hk : 0 < k) (h : n < Nat.pow 10 k) :
    (Nat.toDigits 10 n).length ≤ k :=
  (length_toDigits_le_iff hk).mpr h

theorem length_toDigits_le_digitLimit :
    (Nat.toDigits 10 n).length ≤ digitLimit ↔ isWritable n = true := by
  rw [length_toDigits_le_iff (by decide), isWritable, decide_eq_true_eq]

theorem length_toDigits_of_isWritable (h : isWritable n = true) :
    (Nat.toDigits 10 n).length ≤ digitLimit :=
  length_toDigits_le_digitLimit.mpr h

/-- **The digits of a number that can be written are read as the number.** -/
theorem ofDigits_toDigits (h : isWritable n = true) : ofDigits (Nat.toDigits 10 n) = .ok n := by
  unfold ofDigits
  rw [if_pos (length_toDigits_of_isWritable h), digitsValue_toDigits]

/-- The digits of a number do not begin with a zero, those of zero apart. -/
theorem ne_zero_of_head? (hn : n ≠ 0) (hc : c ∈ (Nat.toDigits 10 n).head?) : c ≠ '0' := by
  induction n using Nat.strongRecOn with
  | ind n ih =>
      rw [Nat.toDigits_eq_if (by omega)] at hc
      split at hc
      · rename_i hsmall
        obtain rfl : n.digitChar = c := Option.some.inj hc
        rw [ne_eq, Nat.digitChar_eq_zero]
        exact hn
      · have hhead : (Nat.toDigits 10 (n / 10) ++ [Nat.digitChar (n % 10)]).head? =
            (Nat.toDigits 10 (n / 10)).head? := by
          have hsome := List.isSome_head?.mpr (Nat.toDigits_ne_nil : Nat.toDigits 10 (n / 10) ≠ [])
          rw [List.head?_append, Option.or_of_isSome hsome]
        rw [hhead] at hc
        exact ih (n / 10) (by omega) (by omega) hc

theorem digitChar_of_isAsciiDigit (h : Text.isAsciiDigit c = true) :
    Nat.digitChar ((Text.digitValue? c).getD 0) = c := by
  obtain ⟨hzero, hnine⟩ := Text.isAsciiDigit_iff.mp h
  rw [Text.digitValue?_of_isAsciiDigit h, Option.getD_some]
  apply Char.toNat_inj.mp
  rw [Nat.toNat_digitChar_of_lt_ten (by omega)]
  omega

/-- **Plain digits are those of the number that they spell**, unless they begin with a
zero. -/
theorem toDigits_digitsValue {cs : List Char} (hdigits : ∀ c ∈ cs, Text.isAsciiDigit c = true)
    (hne : cs ≠ []) (hhead : cs.head? ≠ some '0') : Nat.toDigits 10 (Text.digitsValue cs) = cs := by
  induction cs using List.reverseRecOn with
  | nil => exact absurd rfl hne
  | append_singleton as a ih =>
      have hlast : Nat.toDigits 10 ((Text.digitValue? a).getD 0) = [a] := by
        rw [Nat.toDigits_of_lt_base (Text.digitValue_lt a),
          digitChar_of_isAsciiDigit (hdigits a (by simp))]
      rw [Text.digitsValue_concat]
      -- the last digit is split off, and a front without leading zero is a positive number
      by_cases has : as = []
      · rw [has]
        simpa [Text.digitsValue] using hlast
      · have hfront : as.head? ≠ some '0' := by
          rwa [List.head?_append_of_ne_nil _ has] at hhead
        have hdigits' : Nat.toDigits 10 (Text.digitsValue as) = as :=
          ih (fun c hc => hdigits c (by simp [hc])) has hfront
        have hpos : 0 < Text.digitsValue as := by
          refine Nat.pos_of_ne_zero fun hzero => hfront ?_
          rw [← hdigits', hzero]
          rfl
        have hjoin := Nat.toDigits_append_toDigits (b := 10) (by omega) hpos
          (Text.digitValue_lt a)
        rw [hdigits', hlast] at hjoin
        exact hjoin.symm

theorem takeSign_suffix (cs : List Char) : (takeSign cs).2 <:+ cs := by
  unfold takeSign
  split
  · exact List.suffix_cons _ _
  · exact List.suffix_cons _ _
  · exact List.suffix_refl _

end Number

end LockAudit
