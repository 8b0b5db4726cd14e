import LockAudit.Proofs.Version.Order

/-!
# Satisfiable ranges

`Group.isSatisfiable` never looks for a version: it runs through the comparators
once, keeps the greatest lower and the least upper bound that they set, and
compares the two at the end. This module shows that the answer is right in both
directions.

The invariant of the run is `Bound.Between`: the versions between the two bounds
are exactly those for which the comparators so far hold. The second invariant is
that the lower bound is itself a version of the range as far as it goes, which is
where the order enters: a strict lower bound is turned into the inclusive one at
the next version, and nothing is lost by that because `successor_le_iff` says that
there is nothing between the two.
-/

namespace LockAudit

/-! ## Well-formed versions -/

/-- Words are not empty, consist of plain letters, digits and dashes, and are not
all digits. -/
def Identifier.isWellFormed : Identifier → Bool
  | .number _ => true
  | .word s =>
    !s.toList.isEmpty && s.toList.all Version.isIdentifierChar && !s.toList.all Text.isAsciiDigit

/-- All identifiers of the version are well-formed. -/
def Precedence.isWellFormed (v : Precedence) : Bool := v.pre.all (·.isWellFormed)

/-- All versions of the group are well-formed. -/
def Group.isWellFormed (g : Group) : Bool := g.all (·.version.isWellFormed)

/-- All versions of the range are well-formed. -/
def VersionRange.isWellFormed (r : VersionRange) : Bool := r.groups.all Group.isWellFormed

namespace Precedence

theorem isWellFormed_minimum : minimum.isWellFormed = true := rfl

theorem isWellFormed_successor {v : Precedence} (h : v.isWellFormed = true) :
    v.successor.isWellFormed = true := by
  cases hv : v.pre with
  | nil => rw [successor_release hv]; rfl
  | cons a as =>
      rw [successor_prerelease hv]
      unfold isWellFormed at h ⊢
      rw [hv] at h
      rw [List.all_append, h]
      rfl

end Precedence

/-! ## Bounds -/

namespace Bound

variable {b : Bound} {high : Option Bound} {v w : Precedence} {inclusive : Bool}

/-- A version lies above a lower bound. -/
def IsBelow (b : Bound) (v : Precedence) : Prop :=
  b.version < v ∨ b.version = v ∧ b.inclusive = true

/-- A version lies below an upper bound. -/
def IsAbove (b : Bound) (v : Precedence) : Prop :=
  v < b.version ∨ v = b.version ∧ b.inclusive = true

/-- A version lies between a lower bound and an upper bound, if there is one. -/
def Between (low : Bound) (high : Option Bound) (v : Precedence) : Prop :=
  low.IsBelow v ∧ ∀ b ∈ high, b.IsAbove v

theorem isBelow_inclusive : (Bound.mk w true).IsBelow v ↔ w ≤ v := by
  unfold IsBelow
  rw [le_iff_lt_or_eq]
  simp

theorem isAbove_inclusive : (Bound.mk w true).IsAbove v ↔ v ≤ w := by
  unfold IsAbove
  rw [le_iff_lt_or_eq]
  simp

theorem isAbove_strict : (Bound.mk w false).IsAbove v ↔ v < w := by simp [IsAbove]

section After

variable {α : Type} [LinearOrder α] {low w v : α} {i j : Bool}

/-- What lies after an end, which is included or not. -/
def After (low : α) (i : Bool) (v : α) : Prop := low < v ∨ low = v ∧ i = true

/-- An end cuts off more when it lies further, or at the same place without being
included. -/
theorem After.of_further (h : low < w ∨ w = low ∧ j = false) (hv : After w j v) :
    After low i v := by
  rcases h with hlt | ⟨heq, hj⟩
  · rcases hv with hv | ⟨hv, _⟩
    · exact Or.inl (hlt.trans hv)
    · exact Or.inl (hv ▸ hlt)
  · rcases hv with hv | ⟨_, hv⟩
    · exact Or.inl (heq ▸ hv)
    · rw [hj] at hv
      exact absurd hv (by simp)

/-- An end that is not further cuts off nothing beyond the other. -/
theorem After.of_not_further (h : ¬ (low < w ∨ w = low ∧ j = false)) (hv : After low i v) :
    After w j v := by
  rw [not_or, not_lt, not_and, Bool.not_eq_false] at h
  obtain ⟨hle, hincluded⟩ := h
  rcases hv with hv | ⟨hv, _⟩
  · exact Or.inl (lt_of_le_of_lt hle hv)
  · rw [← hv]
    rcases lt_or_eq_of_le hle with hlt | heq
    · exact Or.inl hlt
    · exact Or.inr ⟨heq, hincluded heq⟩

end After

theorem isBelow_iff_after : b.IsBelow v ↔ After b.version b.inclusive v := Iff.rfl

/-- An upper bound is a lower bound in the order turned around. -/
theorem isAbove_iff_after :
    b.IsAbove v ↔ After (OrderDual.toDual b.version) b.inclusive (OrderDual.toDual v) :=
  or_congr Iff.rfl (and_congr_left' eq_comm)

/-- How `raise` and `lower` tell the end that cuts off more. -/
theorem isFurther_iff {v₁ v₂ w₁ w₂ : Precedence} :
    (v₁.isBefore v₂ || (w₁ == w₂ && !inclusive)) = true ↔
      v₁ < v₂ ∨ w₁ = w₂ ∧ inclusive = false := by
  simp

/-- The higher of two lower bounds cuts off what either of them cuts off. -/
theorem raise_isBelow :
    (b.raise w inclusive).IsBelow v ↔ b.IsBelow v ∧ (Bound.mk w inclusive).IsBelow v := by
  simp only [isBelow_iff_after]
  unfold raise
  split
  · rename_i h
    rw [isFurther_iff] at h
    exact ⟨fun hw => ⟨.of_further h hw, hw⟩, And.right⟩
  · rename_i h
    rw [isFurther_iff] at h
    exact ⟨fun hb => ⟨hb, .of_not_further h hb⟩, And.left⟩

/-- The lower of two upper bounds cuts off what either of them cuts off. -/
theorem lower_isAbove :
    (lower high w inclusive).IsAbove v ↔
      (∀ b ∈ high, b.IsAbove v) ∧ (Bound.mk w inclusive).IsAbove v := by
  cases high with
  | none => simp [lower]
  | some b =>
      simp only [lower, Option.mem_some_iff, forall_eq', isAbove_iff_after]
      split
      · rename_i h
        rw [isFurther_iff] at h
        exact ⟨fun hw => ⟨.of_further h hw, hw⟩, And.right⟩
      · rename_i h
        rw [isFurther_iff] at h
        exact ⟨fun hb => ⟨hb, .of_not_further h hb⟩, And.left⟩

/-- The bound is the version that it names, and that version is well-formed. -/
structure IsReached (b : Bound) : Prop where
  inclusive : b.inclusive = true
  isWellFormed : b.version.isWellFormed = true

theorem IsReached.isBelow (h : b.IsReached) : b.IsBelow b.version := Or.inr ⟨rfl, h.inclusive⟩

theorem IsReached.isBelow_iff (h : b.IsReached) : b.IsBelow v ↔ b.version ≤ v := by
  obtain ⟨w, inclusive⟩ := b
  obtain rfl : inclusive = true := h.inclusive
  exact isBelow_inclusive

theorem IsReached.raise (hb : b.IsReached) (hw : w.isWellFormed = true) :
    (b.raise w true).IsReached := by
  unfold Bound.raise
  split
  · exact ⟨rfl, hw⟩
  · exact hb

end Bound

/-! ## One comparator more -/

namespace Group

open LockAudit.Bound

variable {b : Bound} {high : Option Bound} {v : Precedence}

theorem raiseBy_isReached {c : Comparator} (hb : b.IsReached)
    (hc : c.version.isWellFormed = true) :
    (raiseBy b c).IsReached := by
  unfold raiseBy
  split
  · exact hb.raise (Precedence.isWellFormed_successor hc)
  · exact hb.raise hc
  · exact hb.raise hc
  · exact hb
  · exact hb

/-- **Step.** A comparator takes away from the versions between the bounds exactly
those for which it does not hold. -/
theorem between_step (c : Comparator) :
    Between (raiseBy b c) (lowerBy high c) v ↔ Between b high v ∧ c.holds v = true := by
  obtain ⟨op, w⟩ := c
  unfold Between
  cases op with
  | eq =>
      simp only [raiseBy, lowerBy, Comparator.holds, Option.mem_some_iff, forall_eq', beq_iff_eq]
      rw [raise_isBelow, lower_isAbove, and_and_and_comm, isBelow_inclusive, isAbove_inclusive,
        ← le_antisymm_iff, eq_comm]
  | lt =>
      simp only [raiseBy, lowerBy, Comparator.holds, Option.mem_some_iff, forall_eq',
        Precedence.isBefore_iff]
      rw [lower_isAbove, isAbove_strict, and_assoc]
  | le =>
      simp only [raiseBy, lowerBy, Comparator.holds, Option.mem_some_iff, forall_eq',
        Precedence.isUpTo_iff]
      rw [lower_isAbove, isAbove_inclusive, and_assoc]
  | gt =>
      -- here the strict bound gives way to the inclusive one at the next version
      simp only [raiseBy, lowerBy, Comparator.holds, Precedence.isBefore_iff]
      rw [raise_isBelow, isBelow_inclusive, Precedence.successor_le_iff, and_right_comm]
  | ge =>
      simp only [raiseBy, lowerBy, Comparator.holds, Precedence.isUpTo_iff]
      rw [raise_isBelow, isBelow_inclusive, and_right_comm]

/-! ## All comparators -/

theorem raiseBy_foldl_isReached {g : Group} (hb : b.IsReached) (hg : g.isWellFormed = true) :
    (g.foldl raiseBy b).IsReached := by
  induction g generalizing b with
  | nil => exact hb
  | cons c g ih =>
      unfold isWellFormed at hg
      rw [List.all_cons, Bool.and_eq_true] at hg
      exact ih (raiseBy_isReached hb hg.1) hg.2

/-- **Run.** After all comparators, between the bounds is where all of them hold. -/
theorem between_foldl (g : Group) :
    Between (g.foldl raiseBy b) (g.foldl lowerBy high) v ↔
      Between b high v ∧ g.holds v = true := by
  induction g generalizing b high with
  | nil => simp [holds]
  | cons c g ih =>
      rw [List.foldl_cons, List.foldl_cons, ih, between_step, and_assoc]
      simp [holds]

/-- The lower bound before the first comparator cuts off nothing. -/
theorem between_minimum : Between ⟨Precedence.minimum, true⟩ none v :=
  ⟨isBelow_inclusive.mpr (Precedence.minimum_le v), by simp⟩

theorem holds_iff_between {g : Group} :
    g.holds v = true ↔
      Between (g.foldl raiseBy ⟨Precedence.minimum, true⟩) (g.foldl lowerBy none) v := by
  rw [between_foldl]
  exact ⟨fun h => ⟨between_minimum, h⟩, And.right⟩

/-- What `isSatisfiable` compares at the end: whether the lower bound is between the
bounds. -/
theorem isSatisfiable_iff_between {g : Group} (hg : g.isWellFormed = true) :
    g.isSatisfiable = true ↔
      Between (g.foldl raiseBy ⟨Precedence.minimum, true⟩) (g.foldl lowerBy none)
        (g.foldl raiseBy ⟨Precedence.minimum, true⟩).version := by
  have hlow : (g.foldl raiseBy ⟨Precedence.minimum, true⟩).IsReached :=
    raiseBy_foldl_isReached ⟨rfl, Precedence.isWellFormed_minimum⟩ hg
  unfold isSatisfiable Between
  -- the lower bound is a version itself, so it is enough to look at the upper one
  cases g.foldl lowerBy none with
  | none => simp [hlow.isBelow]
  | some high => simp [hlow.isBelow, hlow.inclusive, IsAbove]

/-- A group that some version lies in is satisfiable, however that version is spelled. -/
theorem isSatisfiable_of_holds {g : Group} (hg : g.isWellFormed = true) (h : g.holds v = true) :
    g.isSatisfiable = true := by
  have hlow : (g.foldl raiseBy ⟨Precedence.minimum, true⟩).IsReached :=
    raiseBy_foldl_isReached ⟨rfl, Precedence.isWellFormed_minimum⟩ hg
  obtain ⟨hbelow, habove⟩ := holds_iff_between.mp h
  rw [hlow.isBelow_iff] at hbelow
  rw [isSatisfiable_iff_between hg]
  -- any version of the group lies above the lower bound and pulls the upper one up with it
  refine ⟨hlow.isBelow, fun high hhigh => ?_⟩
  rcases habove high hhigh with h | ⟨h, hincl⟩
  · exact Or.inl (lt_of_le_of_lt hbelow h)
  · rw [h] at hbelow
    rcases lt_or_eq_of_le hbelow with hlt | heq
    · exact Or.inl hlt
    · exact Or.inr ⟨heq, hincl⟩

/-- **A group is satisfiable exactly when a well-formed version lies in it.** -/
theorem isSatisfiable_iff {g : Group} (hg : g.isWellFormed = true) :
    g.isSatisfiable = true ↔ ∃ v : Precedence, v.isWellFormed = true ∧ g.holds v = true := by
  have hlow : (g.foldl raiseBy ⟨Precedence.minimum, true⟩).IsReached :=
    raiseBy_foldl_isReached ⟨rfl, Precedence.isWellFormed_minimum⟩ hg
  refine ⟨?_, ?_⟩
  · intro h
    exact ⟨_, hlow.isWellFormed, holds_iff_between.mpr ((isSatisfiable_iff_between hg).mp h)⟩
  · intro h
    obtain ⟨v, _, hv⟩ := h
    exact isSatisfiable_of_holds hg hv

theorem holds_append (g h : Group) (v : Precedence) :
    holds (g ++ h) v = (g.holds v && h.holds v) := List.all_append ..

theorem isWellFormed_append {g h : Group} (hg : g.isWellFormed = true) (hh : h.isWellFormed = true) :
    isWellFormed (g ++ h) = true := by
  unfold isWellFormed at *
  rw [List.all_append, hg, hh]
  rfl

end Group

/-! ## Ranges -/

namespace VersionRange

variable {r s : VersionRange}

theorem isWellFormed_of_mem {g : Group} (hr : r.isWellFormed = true) (hg : g ∈ r.groups) :
    g.isWellFormed = true := List.all_eq_true.mp hr g hg

theorem holds_iff {v : Precedence} : r.holds v = true ↔ ∃ g ∈ r.groups, g.holds v = true :=
  List.any_eq_true

theorem isSatisfiable_iff (hr : r.isWellFormed = true) :
    r.isSatisfiable = true ↔ ∃ v : Precedence, v.isWellFormed = true ∧ r.holds v = true := by
  unfold isSatisfiable
  rw [List.any_eq_true]
  refine ⟨?_, ?_⟩
  · intro h
    obtain ⟨g, hg, hsat⟩ := h
    obtain ⟨v, hv, hholds⟩ := (Group.isSatisfiable_iff (isWellFormed_of_mem hr hg)).mp hsat
    exact ⟨v, hv, holds_iff.mpr ⟨g, hg, hholds⟩⟩
  · intro h
    obtain ⟨v, hv, hholds⟩ := h
    obtain ⟨g, hg, hgv⟩ := holds_iff.mp hholds
    exact ⟨g, hg, (Group.isSatisfiable_iff (isWellFormed_of_mem hr hg)).mpr ⟨v, hv, hgv⟩⟩

/-- Ranges that share a version intersect, however that version is spelled. -/
theorem intersects_of_holds (hr : r.isWellFormed = true) (hs : s.isWellFormed = true)
    {v : Precedence} (hrv : r.holds v = true) (hsv : s.holds v = true) :
    r.intersects s = true := by
  obtain ⟨g, hg, hgv⟩ := holds_iff.mp hrv
  obtain ⟨h, hh, hhv⟩ := holds_iff.mp hsv
  have hwf := Group.isWellFormed_append (isWellFormed_of_mem hr hg) (isWellFormed_of_mem hs hh)
  have hboth : Group.holds (g ++ h) v = true := by
    rw [Group.holds_append, hgv, hhv]
    rfl
  unfold intersects
  simp only [List.any_eq_true]
  exact ⟨g, hg, h, hh, Group.isSatisfiable_of_holds hwf hboth⟩

theorem intersects_iff (hr : r.isWellFormed = true) (hs : s.isWellFormed = true) :
    r.intersects s = true ↔
      ∃ v : Precedence, v.isWellFormed = true ∧ r.holds v = true ∧ s.holds v = true := by
  refine ⟨?_, ?_⟩
  · intro h
    unfold intersects at h
    simp only [List.any_eq_true] at h
    obtain ⟨g, hg, h, hh, hsat⟩ := h
    have hwf := Group.isWellFormed_append (isWellFormed_of_mem hr hg) (isWellFormed_of_mem hs hh)
    obtain ⟨v, hv, hholds⟩ := (Group.isSatisfiable_iff hwf).mp hsat
    rw [Group.holds_append, Bool.and_eq_true] at hholds
    exact ⟨v, hv, holds_iff.mpr ⟨g, hg, hholds.1⟩, holds_iff.mpr ⟨h, hh, hholds.2⟩⟩
  · intro h
    obtain ⟨v, _, hrv, hsv⟩ := h
    exact intersects_of_holds hr hs hrv hsv

/--
**Both decision procedures are exact.** For ranges of well-formed versions,
`isSatisfiable` says whether some well-formed version lies in a range, and
`intersects` whether one lies in two ranges at once.
-/
theorem decisions_exact (hr : r.isWellFormed = true) (hs : s.isWellFormed = true) :
    (r.isSatisfiable = true ↔
      ∃ v : Version, v.isWellFormed = true ∧ r.holds v.toPrecedence = true) ∧
    (r.intersects s = true ↔
      ∃ v : Version, v.isWellFormed = true ∧ r.holds v.toPrecedence = true ∧
        s.holds v.toPrecedence = true) := by
  rw [isSatisfiable_iff hr, intersects_iff hr hs]
  refine ⟨⟨?_, ?_⟩, ⟨?_, ?_⟩⟩
  · intro h
    obtain ⟨v, hv⟩ := h
    exact ⟨⟨v, []⟩, hv⟩
  · intro h
    obtain ⟨v, hv⟩ := h
    exact ⟨v.toPrecedence, hv⟩
  · intro h
    obtain ⟨v, hv⟩ := h
    exact ⟨⟨v, []⟩, hv⟩
  · intro h
    obtain ⟨v, hv⟩ := h
    exact ⟨v.toPrecedence, hv⟩

/-- After `1.0.0` and before `1.0.1-0.0` there is just one version, which is enough. -/
theorem decisions_exact_between :
    let r : VersionRange := { groups := [[⟨.gt, .release 1 0 0⟩]] }
    let s : VersionRange := { groups :=
      [[⟨.lt, { major := 1, minor := 0, patch := 1, pre := [.number 0, .number 0] }⟩]] }
    r.isWellFormed = true ∧ s.isWellFormed = true ∧ r.isSatisfiable = true ∧
      ∃ v : Version, v.isWellFormed = true ∧ r.holds v.toPrecedence = true ∧
        s.holds v.toPrecedence = true := by
  intro r s
  have hr : r.isWellFormed = true := by decide
  have hs : s.isWellFormed = true := by decide
  have hexact := decisions_exact hr hs
  have hmeet : r.intersects s = true := by decide
  obtain ⟨v, hv, hrv, hsv⟩ := hexact.2.mp hmeet
  exact ⟨hr, hs, hexact.1.mpr ⟨v, hv, hrv⟩, v, hv, hrv, hsv⟩

end VersionRange

end LockAudit
