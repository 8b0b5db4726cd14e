import LockAudit.Text.Utf8
import Mathlib.Data.List.Basic

/-!
# Bytes back to characters

The bytes of a text are read back as the text. A character has one to four bytes, and
the reader finds each of its tests in what the writer put there: the first byte tells
the number of bytes, the others continue, and the second one is not refused, because
the code point is the least that needs so many bytes, no surrogate, and not past the
last one.
-/

namespace LockAudit.Text.Utf8

/-- The code points that characters have. -/
theorem toNat_valid (c : Char) :
    c.toNat < 0xd800 ∨ 0xdfff < c.toNat ∧ c.toNat < 0x110000 := c.valid

/-! ## Bytes -/

section Bytes

variable {b first : UInt8}

theorem width?_one (h : b.toNat < 0x80) : width? b = some 1 := by
  unfold width?
  rw [if_pos (UInt8.lt_iff_toNat_lt.mpr h)]

theorem width?_two (h : 0xc2 ≤ b.toNat) (h' : b.toNat < 0xe0) : width? b = some 2 := by
  unfold width?
  simp only [UInt8.lt_iff_toNat_lt, UInt8.reduceToNat]
  rw [if_neg (by omega), if_neg (by omega), if_pos h']

theorem width?_three (h : 0xe0 ≤ b.toNat) (h' : b.toNat < 0xf0) : width? b = some 3 := by
  unfold width?
  simp only [UInt8.lt_iff_toNat_lt, UInt8.reduceToNat]
  rw [if_neg (by omega), if_neg (by omega), if_neg (by omega), if_pos h']

theorem width?_four (h : 0xf0 ≤ b.toNat) (h' : b.toNat < 0xf5) : width? b = some 4 := by
  unfold width?
  simp only [UInt8.lt_iff_toNat_lt, UInt8.reduceToNat]
  rw [if_neg (by omega), if_neg (by omega), if_neg (by omega), if_neg (by omega), if_pos h']

theorem toNat_continuation (n : Nat) : (continuation n).toNat = 0x80 + n % 64 := by
  unfold continuation
  rw [UInt8.toNat_ofNat']
  omega

theorem low_continuation (n : Nat) : low (continuation n) = n % 64 := by
  unfold low
  rw [toNat_continuation]
  omega

theorem isContinuation_continuation (n : Nat) : isContinuation (continuation n) = true := by
  have hn := toNat_continuation n
  unfold isContinuation
  rw [Bool.and_eq_true, decide_eq_true_iff, decide_eq_true_iff, UInt8.le_iff_toNat_le,
    UInt8.lt_iff_toNat_lt, hn]
  simp only [UInt8.reduceToNat]
  omega

/-- A continuation byte may stand second unless the first byte narrows what may. -/
theorem isSecond_continuation (n : Nat) (he0 : first.toNat = 0xe0 → 32 ≤ n % 64)
    (hed : first.toNat = 0xed → n % 64 < 32) (hf0 : first.toNat = 0xf0 → 16 ≤ n % 64)
    (hf4 : first.toNat = 0xf4 → n % 64 < 16) :
    isSecond first (continuation n) = true := by
  have hn := toNat_continuation n
  unfold isSecond
  simp only [isContinuation_continuation, Bool.true_and, Bool.and_eq_true, Bool.not_eq_true',
    Bool.and_eq_false_iff, beq_eq_false_iff_ne, decide_eq_false_iff_not, UInt8.lt_iff_toNat_lt,
    UInt8.le_iff_toNat_le, ge_iff_le, hn, ne_eq, ← UInt8.toNat_inj, UInt8.reduceToNat]
  omega

end Bytes

/-! ## Characters -/

section Characters

variable (read : List Char) (position : Nat) (rest : List UInt8)

theorem decodeAfter_one {b : UInt8} (h : width? b = some 1) :
    decodeAfter read position (b :: rest) =
      decodeAfter (Char.ofNat b.toNat :: read) (position + 1) rest := by
  rw [decodeAfter, h]
  rfl

theorem decodeAfter_two {b₁ b₂ : UInt8} (h : width? b₁ = some 2) (h₂ : isSecond b₁ b₂ = true) :
    decodeAfter read position (b₁ :: b₂ :: rest) =
      decodeAfter (Char.ofNat (b₁.toNat % 32 * 64 + low b₂) :: read) (position + 2) rest := by
  rw [decodeAfter, h]
  simp [h₂]

theorem decodeAfter_three {b₁ b₂ b₃ : UInt8} (h : width? b₁ = some 3)
    (h₂ : isSecond b₁ b₂ = true) (h₃ : isContinuation b₃ = true) :
    decodeAfter read position (b₁ :: b₂ :: b₃ :: rest) =
      decodeAfter (Char.ofNat (b₁.toNat % 16 * 4096 + low b₂ * 64 + low b₃) :: read)
        (position + 3) rest := by
  rw [decodeAfter, h]
  simp [h₂, h₃]

theorem decodeAfter_four {b₁ b₂ b₃ b₄ : UInt8} (h : width? b₁ = some 4)
    (h₂ : isSecond b₁ b₂ = true) (h₃ : isContinuation b₃ = true) (h₄ : isContinuation b₄ = true) :
    decodeAfter read position (b₁ :: b₂ :: b₃ :: b₄ :: rest) =
      decodeAfter
        (Char.ofNat (b₁.toNat % 8 * 262144 + low b₂ * 4096 + low b₃ * 64 + low b₄) :: read)
        (position + 4) rest := by
  rw [decodeAfter, h]
  simp [h₂, h₃, h₄]

/-- **Step.** The bytes of one character are read as that character. -/
theorem decodeAfter_encodeChar (c : Char) :
    ∃ position', decodeAfter read position (encodeChar c ++ rest) =
      decodeAfter (c :: read) position' rest := by
  have hvalid := toNat_valid c
  unfold encodeChar
  dsimp only
  by_cases h₁ : c.toNat < 0x80
  · have hb : (UInt8.ofNat c.toNat).toNat = c.toNat := by rw [UInt8.toNat_ofNat']; omega
    -- one byte, which is the character itself
    refine ⟨position + 1, ?_⟩
    rw [if_pos h₁, List.singleton_append, decodeAfter_one _ _ _ (width?_one (by omega)), hb,
      Char.ofNat_toNat]
  rw [if_neg h₁]
  by_cases h₂ : c.toNat < 0x800
  · have hb : (UInt8.ofNat (0xc0 + c.toNat / 64)).toNat = 0xc0 + c.toNat / 64 := by
      rw [UInt8.toNat_ofNat']; omega
    -- two bytes: the high bits in the first, six in the second
    have hcode : (0xc0 + c.toNat / 64) % 32 * 64 + c.toNat % 64 = c.toNat := by omega
    refine ⟨position + 2, ?_⟩
    rw [if_pos h₂]
    simp only [List.cons_append, List.nil_append]
    rw [decodeAfter_two _ _ _ (width?_two (by omega) (by omega))
        (isSecond_continuation _ (by omega) (by omega) (by omega) (by omega)),
      hb, low_continuation, hcode, Char.ofNat_toNat]
  rw [if_neg h₂]
  by_cases h₃ : c.toNat < 0x10000
  · have hb : (UInt8.ofNat (0xe0 + c.toNat / 4096)).toNat = 0xe0 + c.toNat / 4096 := by
      rw [UInt8.toNat_ofNat']; omega
    -- three bytes; the second is bounded so that surrogates are left out
    have hcode : (0xe0 + c.toNat / 4096) % 16 * 4096 + c.toNat / 64 % 64 * 64 + c.toNat % 64 =
        c.toNat := by omega
    refine ⟨position + 3, ?_⟩
    rw [if_pos h₃]
    simp only [List.cons_append, List.nil_append]
    rw [decodeAfter_three _ _ _ (width?_three (by omega) (by omega))
        (isSecond_continuation _ (by omega) (by omega) (by omega) (by omega))
        (isContinuation_continuation _),
      hb, low_continuation, low_continuation, hcode, Char.ofNat_toNat]
  · have hb : (UInt8.ofNat (0xf0 + c.toNat / 262144)).toNat = 0xf0 + c.toNat / 262144 := by
      rw [UInt8.toNat_ofNat']; omega
    -- four bytes, up to the end of the code space
    have hcode : (0xf0 + c.toNat / 262144) % 8 * 262144 + c.toNat / 4096 % 64 * 4096 +
        c.toNat / 64 % 64 * 64 + c.toNat % 64 = c.toNat := by omega
    refine ⟨position + 4, ?_⟩
    rw [if_neg h₃]
    simp only [List.cons_append, List.nil_append]
    rw [decodeAfter_four _ _ _ (width?_four (by omega) (by omega))
        (isSecond_continuation _ (by omega) (by omega) (by omega) (by omega))
        (isContinuation_continuation _) (isContinuation_continuation _),
      hb, low_continuation, low_continuation, low_continuation, hcode, Char.ofNat_toNat]

/-- **Run.** -/
theorem decodeAfter_encode (cs : List Char) :
    decodeAfter read position (encode cs) = .ok (read.reverse ++ cs) := by
  induction cs generalizing read position with
  | nil =>
      rw [List.append_nil]
      rfl
  | cons c cs ih =>
      have hencode : encode (c :: cs) = encodeChar c ++ encode cs := List.flatMap_cons
      obtain ⟨position', hstep⟩ := decodeAfter_encodeChar read position (encode cs) c
      rw [hencode, hstep, ih, List.reverse_cons, List.append_assoc]
      rfl

end Characters

/-- **The bytes of a text are read as the text.** -/
theorem decode_encode (cs : List Char) : decode (encode cs) = .ok cs :=
  decodeAfter_encode [] 0 cs

end LockAudit.Text.Utf8
