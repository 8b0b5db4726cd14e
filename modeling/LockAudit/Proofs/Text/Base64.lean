import LockAudit.Text.Base64

/-!
# Base 64 comes back

Three bytes are four characters, and reading puts the bits together again: after each
character the bits left over are those that the next byte starts with. A last group of
fewer bytes ends at its padding.
-/

namespace LockAudit.Text.Base64

variable {read : List UInt8} {g : Group} {n : Nat} {cs : List Char}

/-! ## Characters -/

theorem digit_spec : ∀ n < 64,
    value? (digit n) = some n ∧ digit n ≠ '=' ∧ (digit n).toNat < 128 := by decide +kernel

theorem encode_isAscii {bytes : List UInt8} :
    (encode bytes).all (·.toNat < 128) = true := by
  have hdigit : ∀ n < 64, decide ((digit n).toNat < 128) = true :=
    fun n hn => decide_eq_true (digit_spec n hn).2.2
  induction bytes using encode.induct with
  | case1 => rfl
  | case2 a =>
      have ha := a.toNat_lt
      simp only [encode, List.all_cons, hdigit _ (show a.toNat / 4 < 64 by omega),
        hdigit _ (show a.toNat % 4 * 16 < 64 by omega)]
      decide
  | case3 a b =>
      have ha := a.toNat_lt
      have hb := b.toNat_lt
      simp only [encode, List.all_cons, hdigit _ (show a.toNat / 4 < 64 by omega),
        hdigit _ (show a.toNat % 4 * 16 + b.toNat / 16 < 64 by omega),
        hdigit _ (show b.toNat % 16 * 4 < 64 by omega)]
      decide
  | case4 a b c rest ih =>
      have ha := a.toNat_lt
      have hb := b.toNat_lt
      have hc := c.toNat_lt
      simp only [encode, List.all_cons, hdigit _ (show a.toNat / 4 < 64 by omega),
        hdigit _ (show a.toNat % 4 * 16 + b.toNat / 16 < 64 by omega),
        hdigit _ (show b.toNat % 16 * 4 + c.toNat / 64 < 64 by omega),
        hdigit _ (show c.toNat % 64 < 64 by omega), ih, Bool.true_and]

/-! ## Reading -/

theorem decodeAfter_first (h : n < 64) :
    decodeAfter read ⟨0, 0, 0⟩ (digit n :: cs) = decodeAfter read ⟨1, n, 0⟩ cs := by
  obtain ⟨hvalue, hne, _⟩ := digit_spec n h
  simp [decodeAfter, hvalue, hne]

/-- The second character completes the first byte. -/
theorem decodeAfter_second (a : UInt8) (h : n < 64) (ha : g.left * 4 + n / 16 = a.toNat)
    (hsize : g.size = 1) :
    decodeAfter read g (digit n :: cs) = decodeAfter (a :: read) ⟨2, n % 16, 0⟩ cs := by
  obtain ⟨hvalue, hne, _⟩ := digit_spec n h
  simp [decodeAfter, hvalue, hne, hsize, ha]

theorem decodeAfter_third (b : UInt8) (h : n < 64) (hb : g.left * 16 + n / 4 = b.toNat)
    (hsize : g.size = 2) :
    decodeAfter read g (digit n :: cs) = decodeAfter (b :: read) ⟨3, n % 4, 0⟩ cs := by
  obtain ⟨hvalue, hne, _⟩ := digit_spec n h
  simp [decodeAfter, hvalue, hne, hsize, hb]

theorem decodeAfter_fourth (c : UInt8) (h : n < 64) (hc : g.left * 64 + n = c.toNat)
    (hsize : g.size = 3) :
    decodeAfter read g (digit n :: cs) = decodeAfter (c :: read) ⟨0, 0, 0⟩ cs := by
  obtain ⟨hvalue, hne, _⟩ := digit_spec n h
  simp [decodeAfter, hvalue, hne, hsize, hc]

theorem decodeAfter_encode {bytes : List UInt8} :
    decodeAfter read ⟨0, 0, 0⟩ (encode bytes) = some (read.reverse ++ bytes) := by
  induction bytes using encode.induct generalizing read with
  | case1 => simp [encode, decodeAfter]
  | case2 a =>
      have ha := a.toNat_lt
      rw [encode, decodeAfter_first (by omega), decodeAfter_second a (by omega) (by simp; omega) rfl]
      simp [decodeAfter]
  | case3 a b =>
      have ha := a.toNat_lt
      have hb := b.toNat_lt
      rw [encode, decodeAfter_first (by omega),
        decodeAfter_second a (by omega) (by simp; omega) rfl,
        decodeAfter_third b (by omega) (by simp; omega) rfl]
      simp [decodeAfter]
  | case4 a b c rest ih =>
      have ha := a.toNat_lt
      have hb := b.toNat_lt
      have hc := c.toNat_lt
      rw [encode, decodeAfter_first (by omega),
        decodeAfter_second a (by omega) (by simp; omega) rfl,
        decodeAfter_third b (by omega) (by simp; omega) rfl,
        decodeAfter_fourth c (by omega) (by simp; omega) rfl, ih]
      simp

/-- **Bytes come back from their text.** -/
theorem decode?_encode (bytes : List UInt8) : decode? (encode bytes) = some bytes := by
  unfold decode?
  rw [if_pos encode_isAscii, decodeAfter_encode]
  rfl

end LockAudit.Text.Base64
