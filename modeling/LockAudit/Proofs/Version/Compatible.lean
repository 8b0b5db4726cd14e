import LockAudit.Proofs.Version.Language

/-!
# What a caret and a tilde allow

A caret and a tilde are read as two comparators: the version that is written is the lower
bound, and the upper bound is a release where something may break. What is meant is said
in another way. The releases of a line are those that begin with certain numbers: for a
tilde the major number and the minor one if it is written, for a caret all that is written
up to the first number that is not zero. A release is allowed if it belongs to the line of
the written version and does not come before it.

The two agree because a line is an interval of the order. It ends where the last of its
numbers goes up by one, `lineEnd`, and that release is the upper bound in every case.
-/

namespace LockAudit

/-- The three numbers of a version. -/
def Precedence.numbers (v : Precedence) : List Nat := [v.major, v.minor, v.patch]

namespace VersionRange

variable {p : Partial} {line : List Nat} {v w : Precedence} {text whole : String}

/-! ## Lines of releases -/

/-- The numbers up to the first that is not zero, with that number; all of them, if all
are zero. -/
def throughNonzero (ns : List Nat) : List Nat := ns.take ((ns.takeWhile (· == 0)).length + 1)

/-- The first release after those that begin with the given numbers. -/
def lineEnd : List Nat → Version
  | [major] => .release (major + 1) 0 0
  | [major, minor] => .release major (minor + 1) 0
  | major :: minor :: patch :: _ => .release major minor (patch + 1)
  | [] => .release 0 0 0

/-- Releases are in the order of their numbers. -/
theorem release_lt_iff (hw : w.pre = []) (hv : v.pre = []) :
    w < v ↔ w.major < v.major ∨ w.major = v.major ∧
      (w.minor < v.minor ∨ w.minor = v.minor ∧ w.patch < v.patch) := by
  rw [Precedence.lt_iff, hw, hv]
  simp [Precedence.orderPre]

/-- A release comes after the pre-releases of the same numbers, so these do not matter. -/
theorem le_release_iff (hw : w.pre = []) :
    v ≤ w ↔ v.major < w.major ∨ v.major = w.major ∧
      (v.minor < w.minor ∨ v.minor = w.minor ∧ v.patch ≤ w.patch) := by
  have hpre : (Precedence.orderPre v.pre w.pre).isLE = true := by
    rw [hw]
    cases v.pre <;> rfl
  rw [Precedence.le_iff, hpre]
  simp only [and_true]
  omega

/-- **A line is an interval.** From any of its versions on, the releases of a line are
those before its end. -/
theorem lt_lineEnd_iff (hw : w.pre = []) (hle : v ≤ w) (hne : line ≠ [])
    (hline : line <+: v.numbers) :
    w < (lineEnd line).toPrecedence ↔ line <+: w.numbers := by
  have hend : (lineEnd line).pre = [] := by
    unfold lineEnd
    split <;> rfl
  rw [le_release_iff hw] at hle
  rw [release_lt_iff hw hend]
  unfold Precedence.numbers at *
  match line with
  | [] => exact absurd rfl hne
  | [major] =>
      simp only [lineEnd, Version.release, List.cons_prefix_cons, List.nil_prefix, and_true] at *
      omega
  | [major, minor] =>
      simp only [lineEnd, Version.release, List.cons_prefix_cons, List.nil_prefix, and_true] at *
      omega
  | [major, minor, patch] =>
      simp only [lineEnd, Version.release, List.cons_prefix_cons, List.nil_prefix, and_true] at *
      omega
  | _ :: _ :: _ :: _ :: _ => simp [List.cons_prefix_cons] at hline

/-! ## The ends of a caret and a tilde -/

/-- The numbers that are written. -/
def Partial.numbers (p : Partial) : List Nat := p.major :: (p.minor.toList ++ p.patch.toList)

/-- One, two or three numbers are written, and the others are filled in as zeros. -/
inductive Partial.IsFilled : Partial → Prop
  | major {v : Version} (minor : v.minor = 0) (patch : v.patch = 0) :
      IsFilled ⟨v.major, none, none, v⟩
  | minor {v : Version} (patch : v.patch = 0) : IsFilled ⟨v.major, some v.minor, none, v⟩
  | patch {v : Version} : IsFilled ⟨v.major, some v.minor, some v.patch, v⟩

theorem PartialText.isFilled (v : PartialText) : (partialOf v.written).IsFilled := by
  obtain ⟨⟨numbers, pre, build⟩, hproper⟩ := v
  have hcount := hproper.count
  match numbers with
  | [] => exact absurd rfl hproper.some_number
  | [major] => exact .major rfl rfl
  | [major, minor] => exact .minor rfl
  | [major, minor, patch] => exact .patch
  | _ :: _ :: _ :: _ :: _ =>
      simp only [List.length_cons] at hcount
      omega

theorem Partial.IsFilled.numbers_isPrefix (h : p.IsFilled) : p.numbers <+: p.version.numbers := by
  cases h with
  | major _ _ => exact List.prefix_append [_] _
  | minor _ => exact List.prefix_append [_, _] _
  | patch => exact List.prefix_refl _

theorem Partial.IsFilled.caretEnd (h : p.IsFilled) :
    p.caretEnd = lineEnd (throughNonzero p.numbers) := by
  -- the line ends at the first number that is not zero, so each number may be zero or not
  cases h with
  | @major v _ _ =>
      cases hmajor : v.major <;>
        simp [Partial.caretEnd, Partial.numbers, throughNonzero, lineEnd]
  | @minor v _ =>
      cases hmajor : v.major <;> cases hminor : v.minor <;>
        simp [Partial.caretEnd, Partial.numbers, throughNonzero, lineEnd]
  | @patch v =>
      cases hmajor : v.major <;> cases hminor : v.minor <;> cases hpatch : v.patch <;>
        simp [Partial.caretEnd, Partial.numbers, throughNonzero, lineEnd]

theorem Partial.IsFilled.tildeEnd (h : p.IsFilled) : p.tildeEnd = lineEnd (p.numbers.take 2) := by
  cases h <;> rfl

/-- From the written version up to the end of its line, there are the releases of the line
that do not come before it. -/
theorem holds_line (hline : line <+: p.numbers) (hne : line ≠ []) (h : p.IsFilled)
    (hw : w.pre = []) {source : String} :
    VersionRange.holds ⟨[[⟨.ge, p.version⟩, ⟨.lt, lineEnd line⟩]], source⟩ w = true ↔
      p.version.toPrecedence ≤ w ∧ line <+: w.numbers := by
  have hbounds : VersionRange.holds ⟨[[⟨.ge, p.version⟩, ⟨.lt, lineEnd line⟩]], source⟩ w = true ↔
      p.version.toPrecedence ≤ w ∧ w < (lineEnd line).toPrecedence := by
    simp [VersionRange.holds, Group.holds, Comparator.holds]
  rw [hbounds]
  exact and_congr_right fun hle => lt_lineEnd_iff hw hle hne (hline.trans h.numbers_isPrefix)

/-! ## Reading a caret and a tilde -/

/-- A version with an operator in front is read as what the operator makes of it. -/
theorem parse_marked (sign : Sign) (hchars : ∀ c ∈ text.toList, isVersionChar c = true)
    (h : readPartial whole text = .ok p) :
    ∃ source, parse (sign.text ++ text) = .ok ⟨[sign.mark.expand p], source⟩ := by
  obtain ⟨v, hfits, htoken, rfl⟩ := version_of_readPartial hchars h
  have hspells : (Expression.one (.one (.marked sign v))).Spells (sign.text ++ text) := by
    have hspaced : Spaced [sign.token, .version text] (sign.text ++ text).toList :=
      Spaced.pair sign.token (.version text)
    rwa [← htoken] at hspaced
  exact ⟨_, parse_eq_ok.mpr ⟨_, hspells, hfits, rfl⟩⟩

/-- **What a caret and a tilde allow.** Take any version that may leave out its minor and
patch numbers, as it is read in an expression. With a caret in front it is read as a range,
and a release is in the range exactly if it does not come before the version, with zeros
for the numbers that are left out, and agrees with it in the numbers up to the first that
is not zero, or in all that are written if all are zeros. With a tilde in front it is read
as well, and a release is in the range exactly if it does not come before the version and
agrees with it in the major number, and in the minor one if it is written. -/
theorem compatible_releases {p : Partial}
    (hchars : ∀ c ∈ text.toList, isVersionChar c = true)
    (hread : readPartial text text = .ok p) :
    (∃ r, parse ("^" ++ text) = .ok r ∧ ∀ w : Version, w.pre = [] →
      (r.holds w.toPrecedence = true ↔
        p.version.toPrecedence ≤ w.toPrecedence ∧ throughNonzero p.numbers <+: w.numbers)) ∧
    ∃ r, parse ("~" ++ text) = .ok r ∧ ∀ w : Version, w.pre = [] →
      (r.holds w.toPrecedence = true ↔
        p.version.toPrecedence ≤ w.toPrecedence ∧ p.numbers.take 2 <+: w.numbers) := by
  obtain ⟨v, _, _, rfl⟩ := version_of_readPartial hchars hread
  have hfilled := v.isFilled
  refine ⟨?_, ?_⟩
  · obtain ⟨source, hparse⟩ := parse_marked ⟨"^", .caret, by decide⟩ hchars hread
    refine ⟨_, hparse, fun w hw => ?_⟩
    rw [Mark.expand, hfilled.caretEnd]
    exact holds_line (List.take_prefix _ _) (by simp [Partial.numbers]) hfilled hw
  · obtain ⟨source, hparse⟩ := parse_marked ⟨"~", .tilde, by decide⟩ hchars hread
    refine ⟨_, hparse, fun w hw => ?_⟩
    rw [Mark.expand, hfilled.tildeEnd]
    exact holds_line (List.take_prefix _ _) (by simp [Partial.numbers]) hfilled hw

/-- With a zero in front, a caret allows what a tilde does; a pre-release that is written
moves the lower end only. -/
theorem compatible_releases_zero :
    (∃ r, parse ("^" ++ "0.2") = .ok r ∧
      r.holds { major := 0, minor := 2, patch := 9 } = true ∧
      r.holds { major := 0, minor := 3, patch := 0 } = false) ∧
    ∃ r, parse ("~" ++ "1.4.2-rc.1") = .ok r ∧
      r.holds { major := 1, minor := 4, patch := 2 } = true ∧
      r.holds { major := 1, minor := 4, patch := 1 } = false := by
  have hshort : readPartial "0.2" "0.2" = .ok ⟨0, some 2, none, .release 0 2 0⟩ := by rfl
  have hlong : readPartial "1.4.2-rc.1" "1.4.2-rc.1" =
      .ok ⟨1, some 4, some 2, ⟨⟨1, 4, 2, [.word "rc", .number 1]⟩, []⟩⟩ := by rfl
  obtain ⟨⟨r, hr, hholds⟩, _⟩ := compatible_releases (List.all_eq_true.mp (by decide)) hshort
  obtain ⟨_, s, hs, hholds'⟩ := compatible_releases (List.all_eq_true.mp (by decide)) hlong
  refine ⟨⟨r, hr, (hholds (.release 0 2 9) rfl).mpr (by decide), ?_⟩,
    s, hs, (hholds' (.release 1 4 2) rfl).mpr (by decide), ?_⟩
  · exact Bool.eq_false_iff.mpr fun h =>
      absurd ((hholds (.release 0 3 0) rfl).mp h) (by decide)
  · exact Bool.eq_false_iff.mpr fun h =>
      absurd ((hholds' (.release 1 4 1) rfl).mp h) (by decide)

end VersionRange

end LockAudit
