import LockAudit.Proofs.Version.Written

/-!
# The text of a version is read as the version

A version writes its numbers without leading zeros, and between dots and marks only
identifiers. So its text follows the grammar; and what the parts of the text stand for are
the parts of the version, since a number is written by its digits and a word by itself.

The same holds the other way round for a text that follows the grammar with plain digits
only: the version that it stands for is written as that text.
-/

namespace LockAudit.Version

variable {i : Identifier} {v : Version} {w : Written} {cs : List Char}

/-! ## Numbers and identifiers -/

theorem isNumeral_toDigits (n : Nat) : IsNumeral Text.isAsciiDigit (Nat.toDigits 10 n) := by
  refine (isNumeral_iff (fun c hc => Number.isAsciiDigit_of_mem hc) Nat.toDigits_ne_nil).mpr ?_
  rintro ⟨hlength, hhead⟩
  by_cases hn : n = 0
  · rw [hn, Nat.toDigits_zero] at hlength
    exact absurd hlength (by decide)
  · exact Number.ne_zero_of_head? hn hhead rfl

/-- A number with plain digits only is written as it was read. -/
theorem IsNumeral.toDigits_eq (h : IsNumeral Text.isAsciiDigit cs) :
    Nat.toDigits 10 (Text.digitsValue cs) = cs := by
  have hdigits : ∀ c ∈ cs, Text.isAsciiDigit c = true := h.digit fun _ hc => hc
  cases h with
  | zero => rfl
  | digits first _ =>
      refine Number.toDigits_digitsValue hdigits (by simp) fun hzero => ?_
      exact ne_zero_of_first first (Option.some.inj hzero)

theorem Identifier.toList_number (n : Nat) :
    (Identifier.number n).text.toList = Nat.toDigits 10 n :=
  Nat.toList_repr

theorem isWellFormed_word {s : String} :
    (Identifier.word s).isWellFormed = true ↔
      IsBuildIdentifier s.toList ∧ ¬ s.toList.all Text.isAsciiDigit = true := by
  unfold Identifier.isWellFormed IsBuildIdentifier
  rw [Bool.and_eq_true, Bool.and_eq_true, Bool.not_eq_true', Bool.not_eq_true',
    List.isEmpty_eq_false_iff, List.all_eq_true, Bool.not_eq_true]

theorem all_toDigits (n : Nat) : (Nat.toDigits 10 n).all Text.isAsciiDigit = true :=
  List.all_eq_true.mpr fun _ hc => Number.isAsciiDigit_of_mem hc

theorem isPreIdentifier_text (h : i.isWellFormed = true) : IsPreIdentifier i.text.toList := by
  cases i with
  | number n =>
      rw [Identifier.toList_number]
      exact ⟨⟨Nat.toDigits_ne_nil, fun c hc =>
        isIdentifierChar_of_isAsciiDigit (Number.isAsciiDigit_of_mem hc)⟩,
        fun _ => isNumeral_toDigits n⟩
  | word s =>
      obtain ⟨hbuild, hdigits⟩ := isWellFormed_word.mp h
      exact ⟨hbuild, fun hall => absurd hall hdigits⟩

theorem fitsIdentifier_text (h : i.isWellFormed = true) (hwritable : i.isWritable = true) :
    FitsIdentifier i.text.toList := by
  intro hall
  cases i with
  | number n =>
      rw [Identifier.toList_number]
      exact Number.length_toDigits_of_isWritable hwritable
  | word s => exact absurd hall (isWellFormed_word.mp h).2

theorem identifierOf_text (h : i.isWellFormed = true) : identifierOf i.text.toList = i := by
  unfold identifierOf
  cases i with
  | number n =>
      rw [Identifier.toList_number, if_pos (all_toDigits n), Number.digitsValue_toDigits]
  | word s =>
      have hdigits : ¬ (Identifier.word s).text.toList.all Text.isAsciiDigit = true :=
        (isWellFormed_word.mp h).2
      rw [if_neg hdigits]
      exact congrArg Identifier.word String.ofList_toList

theorem text_identifierOf (h : IsPreIdentifier cs) : (identifierOf cs).text.toList = cs := by
  unfold identifierOf
  split
  · rename_i hall
    rw [Identifier.toList_number, (h.2 hall).toDigits_eq]
  · exact String.toList_ofList

/-! ## Parts -/

/-- The part made of some pieces, if there are any. -/
def joined? (pieces : List (List Char)) : Option (List Char) :=
  if pieces.isEmpty then none else some (['.'].intercalate pieces)

theorem piecesOf_joined? {pieces : List (List Char)} (h : ∀ piece ∈ pieces, '.' ∉ piece) :
    piecesOf (joined? pieces) = pieces := by
  unfold joined?
  split
  · rename_i hempty
    exact (List.isEmpty_iff.mp hempty).symm
  · rename_i hne
    exact Text.splitOn_intercalate (by simpa using hne) h

theorem joined?_piecesOf (part : Option (List Char)) : joined? (piecesOf part) = part := by
  cases part with
  | none => rfl
  | some cs =>
      have hne : (Text.splitOn '.' cs).isEmpty = false :=
        List.isEmpty_eq_false_iff.mpr (Text.splitOn_ne_nil '.' cs)
      rw [joined?, piecesOf, hne, if_neg (by simp), Text.intercalate_splitOn]

theorem toList_marked (mark : String) {m : Char} (hm : mark.toList = [m]) (parts : List String) :
    (if parts.isEmpty then "" else mark ++ ".".intercalate parts).toList =
      Written.marked m (joined? (parts.map (·.toList))) := by
  unfold joined?
  rw [List.isEmpty_map]
  split
  · rfl
  · rw [String.toList_append, hm, String.toList_intercalate]
    rfl

/-! ## The text as a whole -/

/-- The text of a version, cut into its parts. -/
def written (v : Version) : Written where
  numbers := [Nat.toDigits 10 v.major, Nat.toDigits 10 v.minor, Nat.toDigits 10 v.patch]
  pre := joined? (v.pre.map (·.text.toList))
  build := joined? (v.build.map (·.toList))

theorem text_toList (v : Version) : v.text.toList = v.written.text := by
  have hpre := toList_marked "-" rfl (v.pre.map (·.text))
  rw [List.isEmpty_map, List.map_map] at hpre
  have hbuild := toList_marked "+" rfl v.build
  unfold text Written.text written
  rw [String.toList_append, String.toList_append, hpre, hbuild]
  simp only [String.toList_append, Nat.toString_eq_repr, Nat.toList_repr, List.append_assoc,
    List.intercalate_cons_cons, List.intercalate_singleton]
  rfl

theorem IsWritten.isPreIdentifier (h : v.IsWritten) :
    ∀ piece ∈ v.pre.map (·.text.toList), IsPreIdentifier piece := by
  intro piece hpiece
  obtain ⟨i, hi, rfl⟩ := List.mem_map.mp hpiece
  exact isPreIdentifier_text (List.all_eq_true.mp h.isWellFormed i hi)

theorem IsWritten.isBuildIdentifier (h : v.IsWritten) :
    ∀ piece ∈ v.build.map (·.toList), IsBuildIdentifier piece := by
  intro piece hpiece
  obtain ⟨part, hpart, rfl⟩ := List.mem_map.mp hpiece
  have hformed := h.build part hpart
  unfold isBuildPart at hformed
  rw [Bool.and_eq_true, Bool.not_eq_true', List.isEmpty_eq_false_iff] at hformed
  exact ⟨hformed.1, List.all_eq_true.mp hformed.2⟩

theorem IsWritten.piecesOf_pre (h : v.IsWritten) :
    piecesOf v.written.pre = v.pre.map (·.text.toList) :=
  piecesOf_joined? fun piece hpiece => (h.isPreIdentifier piece hpiece).1.dot_not_mem

theorem IsWritten.piecesOf_build (h : v.IsWritten) :
    piecesOf v.written.build = v.build.map (·.toList) :=
  piecesOf_joined? fun piece hpiece => (h.isBuildIdentifier piece hpiece).dot_not_mem

/-- The text of a version follows the grammar, with plain digits only. -/
theorem IsWritten.isProper (h : v.IsWritten) : v.written.IsProper Text.isAsciiDigit where
  some_number := by simp [written]
  count := by simp [written]
  full := fun _ => rfl
  numbers := by
    intro n hn
    simp only [written, List.mem_cons, List.not_mem_nil, or_false] at hn
    rcases hn with rfl | rfl | rfl <;> exact isNumeral_toDigits _
  pre := forall_pre.mp (by rw [h.piecesOf_pre]; exact h.isPreIdentifier)
  build := forall_build.mp (by rw [h.piecesOf_build]; exact h.isBuildIdentifier)

theorem IsWritten.fits (h : v.IsWritten) : v.written.Fits := by
  have hwritable := h.isWritable
  unfold Version.isWritable at hwritable
  rw [Bool.and_eq_true, Bool.and_eq_true, Bool.and_eq_true] at hwritable
  obtain ⟨⟨⟨hmajor, hminor⟩, hpatch⟩, hpre⟩ := hwritable
  refine ⟨?_, ?_⟩
  · intro n hn
    simp only [written, List.mem_cons, List.not_mem_nil, or_false] at hn
    rcases hn with rfl | rfl | rfl
    · exact Number.length_toDigits_of_isWritable hmajor
    · exact Number.length_toDigits_of_isWritable hminor
    · exact Number.length_toDigits_of_isWritable hpatch
  · rw [h.piecesOf_pre]
    intro piece hpiece
    obtain ⟨i, hi, rfl⟩ := List.mem_map.mp hpiece
    exact fitsIdentifier_text (List.all_eq_true.mp h.isWellFormed i hi)
      (List.all_eq_true.mp hpre i hi)

/-- The text of a version stands for the version. -/
theorem IsWritten.value_eq (h : v.IsWritten) : v.written.value = v := by
  have hpre : (piecesOf v.written.pre).map identifierOf = v.pre := by
    rw [h.piecesOf_pre, List.map_map]
    refine (List.map_congr_left fun i hi => ?_).trans (List.map_id v.pre)
    exact identifierOf_text (List.all_eq_true.mp h.isWellFormed i hi)
  have hbuild : (piecesOf v.written.build).map String.ofList = v.build := by
    rw [h.piecesOf_build, List.map_map]
    exact (List.map_congr_left fun _ _ => String.ofList_toList).trans (List.map_id v.build)
  unfold Written.value
  rw [hpre, hbuild]
  simp [Written.number, written, Number.digitsValue_toDigits]

/-- **A version that was read from plain digits is written as it was read.** -/
theorem text_value (h : w.IsProper Text.isAsciiDigit) (hthree : w.numbers.length = 3) :
    w.value.text.toList = w.text := by
  have hpre : w.value.pre.map (·.text.toList) = piecesOf w.pre := by
    rw [Written.value, List.map_map]
    refine (List.map_congr_left fun piece hpiece => ?_).trans (List.map_id _)
    exact text_identifierOf (forall_pre.mpr h.pre piece hpiece)
  have hbuild : w.value.build.map (·.toList) = piecesOf w.build := by
    rw [Written.value, List.map_map]
    exact (List.map_congr_left fun _ _ => String.toList_ofList).trans (List.map_id _)
  have hdigits : ∀ n ∈ w.numbers, Nat.toDigits 10 (Text.digitsValue n) = n :=
    fun n hn => (h.numbers n hn).toDigits_eq
  have hwritten : w.value.written = w := by
    rw [written, hpre, hbuild, joined?_piecesOf, joined?_piecesOf]
    obtain ⟨numbers, pre, build⟩ := w
    obtain ⟨major, minor, patch, rfl⟩ := List.length_eq_three.mp hthree
    simp only [List.mem_cons, List.not_mem_nil, or_false, forall_eq_or_imp, forall_eq] at hdigits
    simp [Written.value, Written.number, hdigits]
  rw [text_toList, hwritten]

/-! ## Reading the text -/

/-- The characters of parts are visible ones of ASCII. -/
theorem visible_of_isPartChar {c : Char} (h : isPartChar c = true) :
    33 ≤ c.toNat ∧ c.toNat < 127 := by
  have hcode : ('A' ≤ c ∧ c ≤ 'Z') ∨ ('a' ≤ c ∧ c ≤ 'z') ∨ (48 ≤ c.toNat ∧ c.toNat ≤ 57) ∨
      c = '-' ∨ c = '.' := by
    unfold isPartChar isIdentifierChar at h
    simp only [Bool.or_eq_true, Bool.and_eq_true, decide_eq_true_iff, Text.isAsciiDigit_iff] at h
    tauto
  rcases hcode with ⟨hlow, hhigh⟩ | ⟨hlow, hhigh⟩ | ⟨hlow, hhigh⟩ | rfl | rfl
  · have hlow : 65 ≤ c.toNat := hlow
    have hhigh : c.toNat ≤ 90 := hhigh
    omega
  · have hlow : 97 ≤ c.toNat := hlow
    have hhigh : c.toNat ≤ 122 := hhigh
    omega
  · omega
  · decide
  · decide

theorem isBlank_of_isPartChar {c : Char} (h : isPartChar c = true) : Text.isBlank c = false :=
  Text.isBlank_visible (visible_of_isPartChar h)

/-- Where digits are plain, a text that follows the grammar is made of the characters of
parts and plus signs. -/
theorem Written.IsProper.isVersionChar (h : w.IsProper Text.isAsciiDigit) :
    ∀ c ∈ w.text, isPartChar c = true ∨ c = '+' := by
  have hnumber : ∀ n ∈ w.numbers, ∀ c ∈ n, isPartChar c = true := by
    intro n hn c hc
    unfold isPartChar
    rw [isIdentifierChar_of_isAsciiDigit ((h.numbers n hn).digit (fun _ hd => hd) c hc)]
    rfl
  have hpart {P : List Char → Prop} (hP : ∀ cs, P cs → IsBuildIdentifier cs) {mark : Char}
      {part : Option (List Char)} (hdotted : ∀ cs ∈ part, Dotted P cs) :
      ∀ c ∈ Written.marked mark part, c = mark ∨ isPartChar c = true := by
    intro c hc
    cases part with
    | none => exact absurd hc (by simp [Written.marked])
    | some cs =>
        rcases List.mem_cons.mp hc with rfl | hc
        · exact Or.inl rfl
        · exact Or.inr ((Written.isPart_of_dotted hP (hdotted cs rfl)).2 c hc)
  intro c hc
  unfold Written.text at hc
  rw [List.mem_append, List.mem_append] at hc
  rcases hc with hc | hc | hc
  · exact Or.inl (Text.forall_mem_intercalate (by decide) hnumber c hc)
  · rcases hpart (fun _ h => h.1) h.pre c hc with rfl | hc
    · exact Or.inl (by decide)
    · exact Or.inl hc
  · -- only the mark of the build part is none of a partial version's characters
    exact (hpart (fun _ h => h) h.build c hc).symm

/-- There is no white space in the text of a version. -/
theorem text_isWord (h : v.IsWritten) : Text.IsWord v.text.toList := by
  rw [text_toList]
  refine ⟨?_, fun c hc => ?_⟩
  · simp [Written.text, written, List.intercalate_cons_cons]
  · rcases h.isProper.isVersionChar c hc with hc | rfl
    · exact isBlank_of_isPartChar hc
    · decide

/-- The text of a version begins with a digit. -/
theorem head?_text (v : Version) (rest : List Char) :
    ∀ c ∈ (v.text.toList ++ rest).head?, Text.isAsciiDigit c = true := by
  intro c hc
  obtain ⟨d, ds, hdigits, hd⟩ := Number.toDigits_cons v.major
  rw [text_toList, Written.text, written, hdigits, List.intercalate_cons_cons] at hc
  obtain rfl : d = c := Option.some.inj hc
  exact hd

/-- **The text of a version is read as the version, with its build identifiers.** -/
theorem parse_text (h : v.IsWritten) : parse v.text = .ok v := by
  have hcut : v.written.IsCut := h.isProper.isCut fun _ => Text.isDigit_of_isAsciiDigit
  have hread : Written.read? v.text.toList = some v.written :=
    Written.read?_iff.mpr ⟨hcut, (text_toList v).symm⟩
  unfold parse
  rw [(text_isWord h).isTrimmed.stripList_eq, hread]
  exact (toVersion_eq_ok hcut).mpr ⟨h.isProper.pre, h.isProper.build, h.fits, h.value_eq⟩

end LockAudit.Version
