import LockAudit.Json.Decode
import LockAudit.Json.Encode
import LockAudit.Proofs.Result
import LockAudit.Proofs.Text.Utf8

/-!
# Strings back from their escapes

A string is written character by character, some as they are, some as a letter after a
backslash, some as one or two code units in hexadecimal. Read back, each character is
the one that was written. A first half of a pair is always followed by its second half,
so nothing is pending between two characters.
-/

namespace LockAudit

/-! ## Hexadecimal digits -/

namespace Text

theorem hexDigit_value : ∀ n < 16, isHexDigit (hexDigit n) = true ∧ hexValue (hexDigit n) = n := by
  decide

theorem hexDigits_four (n : Nat) :
    hexDigits 4 n = [hexDigit (n / 16 / 16 / 16 % 16), hexDigit (n / 16 / 16 % 16),
      hexDigit (n / 16 % 16), hexDigit (n % 16)] := rfl

end Text

namespace Json

variable {n : Nat} {c : Char} {start read more : List Char} {pending : Option Nat} {ascii : Bool}

theorem unit?_hexDigit (h : n < 0x10000) :
    unit? (Text.hexDigit (n / 16 / 16 / 16 % 16)) (Text.hexDigit (n / 16 / 16 % 16))
      (Text.hexDigit (n / 16 % 16)) (Text.hexDigit (n % 16)) = some n := by
  have hdigit (m : Nat) := Text.hexDigit_value (m % 16) (by omega)
  unfold unit?
  rw [if_pos (by simp [hdigit]), (hdigit _).2, (hdigit _).2, (hdigit _).2, (hdigit _).2]
  congr 1
  omega

/-! ## Escapes -/

theorem isHighUnit_iff : isHighUnit n = true ↔ 0xd800 ≤ n ∧ n < 0xdc00 := by
  unfold isHighUnit
  rw [Bool.and_eq_true, decide_eq_true_iff, decide_eq_true_iff]

theorem isLowUnit_iff : isLowUnit n = true ↔ 0xdc00 ≤ n ∧ n < 0xe000 := by
  unfold isLowUnit
  rw [Bool.and_eq_true, decide_eq_true_iff, decide_eq_true_iff]

theorem readChars_unit (h : n < 0x10000) (hmore : more ≠ []) :
    readChars start pending read (escapeUnit n ++ more) =
      readChars start (addUnit pending read n).1 (addUnit pending read n).2 more := by
  unfold escapeUnit
  rw [Text.hexDigits_four]
  simp only [List.cons_append, List.nil_append]
  rw [readChars, if_neg (by simpa using hmore), unit?_hexDigit h]

theorem readChars_escapeCode (hmore : more ≠ []) :
    readChars start none read (escapeCode c ++ more) = readChars start none (c :: read) more := by
  have hvalid := Text.Utf8.toNat_valid c
  unfold escapeCode
  split
  · rename_i h
    -- a character is no surrogate, so its one unit starts no pair and ends none
    have hhigh : isHighUnit c.toNat = false := by
      rw [Bool.eq_false_iff, ne_eq, isHighUnit_iff]
      omega
    have hlow : isLowUnit c.toNat = false := by
      rw [Bool.eq_false_iff, ne_eq, isLowUnit_iff]
      omega
    rw [readChars_unit h hmore, addUnit, hhigh, unitChar, hhigh, hlow, if_neg (by simp),
      if_neg (by simp), Char.ofNat_toNat]
  · dsimp only
    have hhigh : isHighUnit (0xd800 + (c.toNat - 0x10000) / 0x400) = true := by
      rw [isHighUnit_iff]
      omega
    have hlow : isLowUnit (0xdc00 + (c.toNat - 0x10000) % 0x400) = true := by
      rw [isLowUnit_iff]
      omega
    -- the two units put together again are the character
    have hcode : 0x10000 + (0xd800 + (c.toNat - 0x10000) / 0x400 - 0xd800) * 0x400 +
        (0xdc00 + (c.toNat - 0x10000) % 0x400 - 0xdc00) = c.toNat := by omega
    have hpair : escapeUnit (0xdc00 + (c.toNat - 0x10000) % 0x400) ++ more ≠ [] := by
      simp [hmore]
    rw [List.append_assoc, readChars_unit (by omega) hpair, addUnit, hhigh, if_pos rfl,
      readChars_unit (by omega) hmore, addUnit, hlow, if_pos rfl, pairChar, hcode,
      Char.ofNat_toNat]

/-- **Step.** What is written for a character is read as the character. -/
theorem readChars_writeChar (ascii : Bool) (c : Char) (hmore : more ≠ []) :
    readChars start none read (writeChar ascii c ++ more) =
      readChars start none (c :: read) more := by
  unfold writeChar
  split
  case h_8 c hquote hbackslash _ _ _ _ _ =>
    split
    · exact readChars_escapeCode hmore
    · rename_i hcontrol
      split
      · exact readChars_escapeCode hmore
      · rw [List.singleton_append, readChars, if_neg hcontrol]
        · rfl
        · exact hquote
        all_goals intros; contradiction
  all_goals rfl

/-- **Run.** -/
theorem readChars_flatMap (cs : List Char) (hmore : more ≠ []) :
    readChars start none read (cs.flatMap (writeChar ascii) ++ more) =
      readChars start none (cs.reverse ++ read) more := by
  induction cs generalizing read with
  | nil => rfl
  | cons c cs ih =>
      rw [List.flatMap_cons, List.append_assoc, readChars_writeChar ascii c (by simp [hmore]), ih,
        List.reverse_cons, List.append_assoc]
      rfl

/-- **A string is read up to its closing quote.** -/
theorem readString_writeText (s : String) (rest : List Char) :
    readString (s.toList.flatMap (writeChar ascii) ++ '"' :: rest) = .ok (s, rest) := by
  unfold readString
  rw [readChars_flatMap _ (by simp), readChars, List.append_nil, flush, List.reverse_reverse,
    Result.ok_bind]
  exact congrArg (fun s => Except.ok (s, rest)) String.ofList_toList

end Json

end LockAudit
