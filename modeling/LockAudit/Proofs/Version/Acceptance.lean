import LockAudit.Proofs.Version.Text

/-!
# Which texts are versions

The grammar of SemVer 2.0 knows the ten plain digits only. The reader takes every decimal
digit after the first one of a number, and it stops at numbers that have too many digits.
So it accepts a larger language than the grammar describes, of which it leaves out the
texts with long numbers.

Whether a text belongs to the grammar itself shows in the version that was read: it is
written as the text, white space around it apart, exactly if the text does. Texts in which
all digits are plain and no run of them is too long are accepted as the grammar says.
-/

namespace LockAudit.Version

variable {text : String} {v : Version} {w : Written}

/-- The text is the cut one, with white space around it allowed, and has all three
numbers. -/
structure Written.CutFrom (w : Written) (text : String) : Prop where
  isCut : w.IsCut
  whole : w.numbers.length = 3
  text_eq : w.text = Text.stripList text.toList

/-- The text is a whole version by the grammar, with white space around it allowed.
`isDigit` says what counts as a digit after the first one of a number. -/
structure Written.Spells (isDigit : Char → Bool) (w : Written) (text : String) : Prop where
  isProper : w.IsProper isDigit
  whole : w.numbers.length = 3
  text_eq : w.text = Text.stripList text.toList

/-- The text is a version of SemVer 2.0, with white space around it allowed. -/
def IsSemVer (text : String) : Prop := ∃ w : Written, w.Spells Text.isAsciiDigit text

/-- No digits of other scripts stand in the text. -/
def HasPlainDigits (text : String) : Prop :=
  ∀ c ∈ text.toList, Text.isDigit c = true → Text.isAsciiDigit c = true

/-! ## Reading -/

theorem Written.Spells.cutFrom (h : w.Spells Text.isDigit text) : w.CutFrom text :=
  ⟨h.isProper.isCut fun _ hc => hc, h.whole, h.text_eq⟩

theorem Written.Spells.loose (h : w.Spells Text.isAsciiDigit text) :
    w.Spells Text.isDigit text where
  isProper := {
    some_number := h.isProper.some_number
    count := h.isProper.count
    full := h.isProper.full
    numbers := fun n hn =>
      (h.isProper.numbers n hn).mono fun _ _ => Text.isDigit_of_isAsciiDigit
    pre := h.isProper.pre
    build := h.isProper.build }
  whole := h.whole
  text_eq := h.text_eq

theorem read?_of_cutFrom (h : w.CutFrom text) :
    Written.read? (Text.stripList text.toList) = some w :=
  Written.read?_iff.mpr ⟨h.isCut, h.text_eq⟩

theorem parse_of_cutFrom (h : w.CutFrom text) : parse text = w.toVersion (Text.strip text) := by
  unfold parse
  rw [read?_of_cutFrom h]
  exact if_pos h.whole

/-- What is no version by its cut is malformed. -/
theorem parse_of_not_cut (h : ∀ w : Written, ¬ w.CutFrom text) :
    parse text = .error (.malformed text .notSemantic) := by
  unfold parse
  split
  · rfl
  · rename_i w hread
    obtain ⟨hcut, htext⟩ := Written.read?_iff.mp hread
    exact if_neg fun hwhole => h w ⟨hcut, hwhole, htext⟩

/-- **Which texts are read, and as what.** -/
theorem parse_eq_ok :
    parse text = .ok v ↔ ∃ w : Written, w.Spells Text.isDigit text ∧ w.Fits ∧ w.value = v := by
  refine ⟨?_, ?_⟩
  · intro h
    by_cases hcut : ∃ w : Written, w.CutFrom text
    · obtain ⟨w, hw⟩ := hcut
      rw [parse_of_cutFrom hw] at h
      obtain ⟨hpre, hbuild, hfits, hvalue⟩ := (toVersion_eq_ok hw.isCut).mp h
      -- the text was cut at its marks; what was read of the pieces makes the cut proper
      have hproper : w.IsProper Text.isDigit := {
        some_number := hw.isCut.some_number
        count := hw.isCut.count
        full := fun _ => hw.whole
        numbers := hw.isCut.numbers
        pre := hpre
        build := hbuild }
      exact ⟨w, ⟨hproper, hw.whole, hw.text_eq⟩, hfits, hvalue⟩
    · rw [parse_of_not_cut fun w hw => hcut ⟨w, hw⟩] at h
      exact absurd h (by simp)
  · intro h
    obtain ⟨w, hw, hfits, hvalue⟩ := h
    rw [parse_of_cutFrom hw.cutFrom]
    exact (toVersion_eq_ok hw.cutFrom.isCut).mpr
      ⟨hw.isProper.pre, hw.isProper.build, hfits, hvalue⟩

theorem parse_oversized :
    (∃ e, parse text = .error (.oversized e)) ↔ ∃ w : Written, w.CutFrom text ∧ w.Overflows := by
  refine ⟨?_, ?_⟩
  · intro h
    by_cases hcut : ∃ w : Written, w.CutFrom text
    · obtain ⟨w, hw⟩ := hcut
      rw [parse_of_cutFrom hw] at h
      exact ⟨w, hw, (toVersion_oversized hw.isCut).mp h⟩
    · rw [parse_of_not_cut fun w hw => hcut ⟨w, hw⟩] at h
      exact absurd h (by simp)
  · intro h
    obtain ⟨w, hw, hoverflows⟩ := h
    rw [parse_of_cutFrom hw]
    exact (toVersion_oversized hw.isCut).mpr hoverflows

/-- A version is written as the text that it was read from exactly if all digits there
were plain. -/
theorem text_eq_strip_iff (h : parse text = .ok v) : v.text = Text.strip text ↔ IsSemVer text := by
  refine ⟨?_, ?_⟩
  · intro htext
    refine ⟨v.written, (parse_isWritten h).isProper, rfl, ?_⟩
    rw [← text_toList, htext, Text.strip, String.toList_ofList]
  · intro hsemver
    obtain ⟨w, hw⟩ := hsemver
    obtain ⟨w', hw', _, rfl⟩ := parse_eq_ok.mp h
    -- the text is cut in one way only
    have hsame : w' = w := Option.some.inj
      ((read?_of_cutFrom hw'.cutFrom).symm.trans (read?_of_cutFrom hw.loose.cutFrom))
    apply String.toList_injective
    rw [hsame, text_value hw.isProper hw.whole, hw.text_eq, Text.strip, String.toList_ofList]

/-! ## Plain and short texts -/

theorem Written.CutFrom.isInfix (h : w.CutFrom text) : w.text <:+: text.toList := by
  rw [h.text_eq]
  exact Text.stripList_isInfix text.toList

theorem Written.Spells.strict (h : w.Spells Text.isDigit text) (hplain : HasPlainDigits text) :
    w.Spells Text.isAsciiDigit text where
  isProper := {
    some_number := h.isProper.some_number
    count := h.isProper.count
    full := h.isProper.full
    numbers := fun n hn => (h.isProper.numbers n hn).mono fun c hc =>
      hplain c (((Written.isInfix_of_mem_numbers hn).trans h.cutFrom.isInfix).subset hc)
    pre := h.isProper.pre
    build := h.isProper.build }
  whole := h.whole
  text_eq := h.text_eq

/-- **What is accepted as a version, and what it is.** A text is accepted if it is a
version by the grammar with the digits of all scripts and no number is too long. It is a
version of SemVer 2.0 exactly if the version that was read is written as the text. A text
is refused for its length when a number with too many digits comes before anything else
that cannot be read, and as malformed otherwise. Where digits are plain and numbers short,
all this is what the grammar of SemVer 2.0 says. -/
theorem acceptance_exact (text : String) :
    (∀ v, parse text = .ok v ↔
      ∃ w : Written, w.Spells Text.isDigit text ∧ w.Fits ∧ w.value = v) ∧
    (∀ v, parse text = .ok v → (v.text = Text.strip text ↔ IsSemVer text)) ∧
    ((∃ e, parse text = .error (.oversized e)) ↔
      ∃ w : Written, w.CutFrom text ∧ w.Overflows) ∧
    (HasPlainDigits text → HasShortNumbers text.toList →
      IsSemVer text ∧ (∃ v, parse text = .ok v ∧ v.text = Text.strip text) ∨
      ¬ IsSemVer text ∧ ∃ whole defect, parse text = .error (.malformed whole defect)) := by
  refine ⟨fun v => parse_eq_ok, fun v h => text_eq_strip_iff h, parse_oversized, ?_⟩
  intro hplain hshort
  by_cases hsemver : IsSemVer text
  · refine Or.inl ⟨hsemver, ?_⟩
    obtain ⟨w, hw⟩ := hsemver
    have hfits : w.Fits := hw.isProper.fits (hshort.of_isInfix hw.loose.cutFrom.isInfix)
    have hread : parse text = .ok w.value := parse_eq_ok.mpr ⟨w, hw.loose, hfits, rfl⟩
    exact ⟨w.value, hread, (text_eq_strip_iff hread).mpr ⟨w, hw⟩⟩
  · refine Or.inr ⟨hsemver, ?_⟩
    cases hread : parse text with
    | ok v =>
        obtain ⟨w, hw, _⟩ := parse_eq_ok.mp hread
        exact absurd ⟨w, hw.strict hplain⟩ hsemver
    | error fault =>
        cases fault with
        | malformed whole defect => exact ⟨whole, defect, rfl⟩
        | oversized e =>
            -- an overflow needs a long number, and it would be an infix of the text
            obtain ⟨w, hw, hoverflows⟩ := parse_oversized.mp ⟨e, hread⟩
            have hshort' : HasShortNumbers w.text := hshort.of_isInfix hw.isInfix
            exact absurd hoverflows (Written.not_overflows hw.isCut hshort' fun c hc =>
              hplain c (hw.isInfix.subset hc))

/-- A digit of another script is read like a plain one, and the version is written with
the plain one; a version of SemVer 2.0 is written as it stands. -/
theorem acceptance_exact_arabicDigit :
    (∃ v, parse "1\u0662.0.0" = .ok v ∧ v.text = "12.0.0") ∧ ¬ IsSemVer "1\u0662.0.0" ∧
      IsSemVer " 1.10.0-rc.1+05 " ∧
        ∃ v, parse " 1.10.0-rc.1+05 " = .ok v ∧ v.text = "1.10.0-rc.1+05" := by
  have hforeign : parse "1\u0662.0.0" = .ok { major := 12, minor := 0, patch := 0 } := by rfl
  have hread : parse " 1.10.0-rc.1+05 " = .ok {
      major := 1, minor := 10, patch := 0, pre := [.word "rc", .number 1], build := ["05"] } := by
    rfl
  have hplain : HasPlainDigits " 1.10.0-rc.1+05 " := by
    have hall : (" 1.10.0-rc.1+05 ".toList.all fun c =>
        !Text.isDigit c || Text.isAsciiDigit c) = true := by decide
    intro c hc hdigit
    simpa [hdigit] using List.all_eq_true.mp hall c hc
  have hshort : HasShortNumbers " 1.10.0-rc.1+05 ".toList :=
    fun run hrun _ => hrun.length_le.trans (by decide)
  obtain ⟨_, htext, _⟩ := acceptance_exact "1\u0662.0.0"
  refine ⟨⟨_, hforeign, by rfl⟩, fun hsemver => ?_, ?_⟩
  · -- the text of the version read is not the one given, so the law refuses it
    exact absurd ((htext _ hforeign).mpr hsemver) (by decide)
  · rcases (acceptance_exact " 1.10.0-rc.1+05 ").2.2.2 hplain hshort with hyes | hno
    · exact hyes
    · obtain ⟨_, whole, defect, herror⟩ := hno
      exact absurd (hread.symm.trans herror) (by simp)

/-! ## Writing -/

/-- **Versions are written without loss.** Exactly the versions that some text spells are
read again from their own text, with all their fields; so no two of them share a text. -/
theorem text_faithful :
    (∀ v : Version, parse v.text = .ok v ↔ v.IsWritten) ∧
      ∀ v w : Version, v.IsWritten → w.IsWritten → v.text = w.text → v = w := by
  refine ⟨fun v => ⟨parse_isWritten, parse_text⟩, ?_⟩
  intro v w hv hw htext
  have hread : parse v.text = .ok w := by
    rw [htext]
    exact parse_text hw
  exact Except.ok.inj ((parse_text hv).symm.trans hread)

/-- Dashes in identifiers and zeros in those of a build come back where they stood, and
there is no other version that is written in this way. -/
theorem text_faithful_dashes :
    ∃ v : Version, v.pre = [.word "-1", .word "a-b"] ∧ v.build = ["05", "-"] ∧
      v.text = "1.0.0--1.a-b+05.-" ∧ parse v.text = .ok v ∧
        ∀ w : Version, w.IsWritten → v.text = w.text → v = w := by
  have hread : parse "1.0.0--1.a-b+05.-" = .ok {
      major := 1, minor := 0, patch := 0, pre := [.word "-1", .word "a-b"],
      build := ["05", "-"] } := by rfl
  have hwritten := parse_isWritten hread
  exact ⟨_, rfl, rfl, by rfl, (text_faithful.1 _).mpr hwritten,
    fun w hw htext => text_faithful.2 _ w hwritten hw htext⟩

end LockAudit.Version
