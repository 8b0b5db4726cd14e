import LockAudit.Json.Decode
import LockAudit.Json.Encode
import LockAudit.Proofs.Number.Integer

/-!
# Integers back from their digits

An integer is written as its digits, with a minus sign in front if it is negative. The
reader takes them for an integer and nothing else if what follows cannot be part of a
number: no digit, no point and no exponent. Literals are tried first, and none of them
begins with a digit.
-/

namespace LockAudit.Json

/-- What a number must not run into. -/
def EndsNumber (rest : List Char) : Prop :=
  ∀ c ∈ rest.head?, Text.isAsciiDigit c = false ∧ c ≠ '.' ∧ c ≠ 'e' ∧ c ≠ 'E'

variable {n : Nat} {rest : List Char}

theorem ne_of_isAsciiDigit {c d : Char} (hc : Text.isAsciiDigit c = true)
    (hd : Text.isAsciiDigit d = false) :
    d ≠ c := by
  rintro rfl
  rw [hd] at hc
  exact absurd hc (by simp)

/-! ## The parts of a number -/

theorem takeWhole_toDigits (n : Nat) (h : EndsNumber rest) :
    takeWhole (Nat.toDigits 10 n ++ rest) = some (Nat.toDigits 10 n, rest) := by
  by_cases hn : n = 0
  · rw [hn, Nat.toDigits_zero]
    rfl
  · obtain ⟨c, cs, hdigits, hc⟩ := Number.toDigits_cons n
    have hzero : c ≠ '0' := Number.ne_zero_of_head? hn (by rw [hdigits]; rfl)
    obtain ⟨htake, _⟩ := Text.span_run (fun d (hd : d ∈ Nat.toDigits 10 n) =>
      Number.isAsciiDigit_of_mem hd) fun d hd => (h d hd).1
    unfold takeWhole
    split
    · rename_i tail heq
      rw [hdigits] at heq
      cases heq
      exact absurd rfl hzero
    · dsimp only
      rw [htake, if_neg (by simp), List.drop_left]

theorem takeFraction_end (h : EndsNumber rest) : takeFraction rest = ([], rest) := by
  cases rest with
  | nil => rfl
  | cons c rest =>
      obtain ⟨_, hdot, _⟩ := h c rfl
      rw [takeFraction]
      rintro cs heq
      cases heq
      exact hdot rfl

theorem takeExponent_end (h : EndsNumber rest) : takeExponent rest = (none, rest) := by
  cases rest with
  | nil => rfl
  | cons c rest =>
      obtain ⟨_, _, hsmall, hcapital⟩ := h c rfl
      rw [takeExponent, if_neg (by simp [hsmall, hcapital])]

theorem readNumber_negative (hn : Number.isWritable n = true) (h : EndsNumber rest) :
    readNumber ('-' :: (Nat.toDigits 10 n ++ rest)) = .ok (.int (-n), rest) := by
  unfold readNumber
  simp only [takeWhole_toDigits n h, takeFraction_end h, takeExponent_end h,
    Number.ofDigits_toDigits hn]
  rfl

theorem readNumber_natural (hn : Number.isWritable n = true) (h : EndsNumber rest) :
    readNumber (Nat.toDigits 10 n ++ rest) = .ok (.int n, rest) := by
  unfold readNumber
  split
  rename_i negative body heq
  split at heq
  · rename_i tail hminus
    obtain ⟨c, cs, hdigits, hc⟩ := Number.toDigits_cons n
    rw [hdigits] at hminus
    cases hminus
    exact absurd hc (by decide)
  · cases heq
    simp only [takeWhole_toDigits n h, takeFraction_end h, takeExponent_end h,
      Number.ofDigits_toDigits hn]
    rfl

/-! ## Integers among values -/

/-- No literal begins with a digit, or with a minus sign and a digit. -/
theorem readScalar_of_digit {c : Char} (hc : Text.isAsciiDigit c = true) (cs : List Char) :
    readScalar (c :: cs) = readNumber (c :: cs) ∧
      readScalar ('-' :: c :: cs) = readNumber ('-' :: c :: cs) := by
  have hne (d : Char) (hd : Text.isAsciiDigit d = false) : (d == c) = false :=
    beq_eq_false_iff_ne.mpr (ne_of_isAsciiDigit hc hd)
  have hletters : ('n' == c) = false ∧ ('t' == c) = false ∧ ('f' == c) = false ∧
      ('N' == c) = false ∧ ('I' == c) = false ∧ ('-' == c) = false :=
    ⟨hne _ (by decide), hne _ (by decide), hne _ (by decide), hne _ (by decide),
      hne _ (by decide), hne _ (by decide)⟩
  unfold readScalar literals
  constructor <;> simp [List.find?, List.isPrefixOf, hletters]

/-- What is no string, table or list is a literal or a number. -/
theorem readValue_scalar {fuel : Nat} {c : Char} (cs : List Char) (hquote : c ≠ '"')
    (hbrace : c ≠ '\x7b') (hbracket : c ≠ '[') :
    readValue (fuel + 1) (c :: cs) = readScalar (c :: cs) := by
  rw [readValue]
  · rintro rest ⟨⟩
    exact hquote rfl
  · rintro rest ⟨⟩
    exact hbrace rfl
  · rintro rest ⟨⟩
    exact hbracket rfl

theorem toList_ofNat (n : Nat) : (toString (Int.ofNat n)).toList = Nat.toDigits 10 n :=
  Nat.toList_repr

theorem toList_negSucc (n : Nat) :
    (toString (Int.negSucc n)).toList = '-' :: Nat.toDigits 10 (n + 1) := by
  have hsign : toString (Int.negSucc n) = "-" ++ (n + 1).repr := rfl
  rw [hsign, String.toList_append, Nat.toList_repr]
  rfl

/-- **An integer that can be written is read back.** -/
theorem readValue_int {fuel : Nat} {z : Int} (hz : Number.isWritable z.natAbs = true)
    (h : EndsNumber rest) :
    readValue (fuel + 1) ((toString z).toList ++ rest) = .ok (.int z, rest) := by
  cases z with
  | ofNat n =>
      obtain ⟨c, cs, hdigits, hc⟩ := Number.toDigits_cons n
      have hn : Number.isWritable n = true := hz
      have hnumber := readNumber_natural hn h
      rw [toList_ofNat]
      rw [hdigits, List.cons_append] at hnumber ⊢
      -- a digit opens neither a text nor a list nor a table
      rw [readValue_scalar _ (ne_of_isAsciiDigit hc (by decide)).symm
          (ne_of_isAsciiDigit hc (by decide)).symm (ne_of_isAsciiDigit hc (by decide)).symm,
        (readScalar_of_digit hc _).1, hnumber]
      rfl
  | negSucc n =>
      obtain ⟨c, cs, hdigits, hc⟩ := Number.toDigits_cons (n + 1)
      have hn : Number.isWritable (n + 1) = true := hz
      have hnumber := readNumber_negative hn h
      rw [toList_negSucc, List.cons_append, readValue_scalar _ (by decide) (by decide) (by decide)]
      rw [hdigits, List.cons_append] at hnumber ⊢
      rw [(readScalar_of_digit hc _).2, hnumber]
      rfl

end LockAudit.Json
