import LockAudit.Version.Range
import Mathlib.Order.Lattice

/-!
# The order of versions

`Precedence.order` compares nested data of different shapes: three numbers, then a
list that may be missing, then identifiers of two kinds. This module shows that it
is a linear order all the same, and from there on versions are compared with `<`
and `≤`.

The order is neither dense nor the order of the numbers: every version has a next
one. `successor_le` says that nothing lies between a version and its successor, and
`minimum_le` that nothing lies below the minimum. Together they are what lets a set
of versions be described by its ends.
-/

namespace LockAudit

/-! ## Identifiers -/

namespace Identifier

instance : Std.LawfulEqCmp order where
  compare_self := by
    intro a
    cases a <;> simp [order]
  eq_of_compare := by
    intro a b h
    cases a <;> cases b <;> simp_all [order]

instance : Std.TransCmp order where
  eq_swap := by
    intro a b
    cases a <;> cases b <;> simp only [order]
    · exact Std.OrientedOrd.eq_swap
    · rfl
    · rfl
    · exact Std.OrientedOrd.eq_swap
  isLE_trans := by
    intro a b c hab hbc
    cases a <;> cases b <;> cases c <;> simp only [order] at * <;>
      first | exact Std.TransOrd.isLE_trans hab hbc | rfl | contradiction

theorem order_self (a : Identifier) : a.order a = .eq := Std.ReflCmp.compare_self

/-- Zero is the first of all identifiers. -/
theorem zero_isLE (a : Identifier) : ((number 0).order a).isLE = true := by
  cases a with
  | number n => simp [order, Nat.isLE_compare]
  | word s => rfl

end Identifier

/-! ## Versions -/

namespace Precedence

/-- Identifiers are compared in dictionary order. -/
theorem orderIdentifiers_eq (as bs : List Identifier) :
    orderIdentifiers as bs = List.compareLex Identifier.order as bs := by
  induction as generalizing bs with
  | nil => cases bs <;> rfl
  | cons a as ih =>
      cases bs with
      | nil => rfl
      | cons b bs => rw [orderIdentifiers, ih, List.compareLex_cons_cons]

instance : Std.TransCmp orderIdentifiers := by
  have h : orderIdentifiers = List.compareLex Identifier.order :=
    funext fun as => funext fun bs => orderIdentifiers_eq as bs
  rw [h]; infer_instance

instance : Std.LawfulEqCmp orderIdentifiers := by
  have h : orderIdentifiers = List.compareLex Identifier.order :=
    funext fun as => funext fun bs => orderIdentifiers_eq as bs
  rw [h]; infer_instance

theorem orderPre_cons (a b : Identifier) (as bs : List Identifier) :
    orderPre (a :: as) (b :: bs) = orderIdentifiers (a :: as) (b :: bs) := rfl

instance : Std.TransCmp orderPre where
  eq_swap := by
    intro as bs
    cases as <;> cases bs
    · rfl
    · rfl
    · rfl
    · simp only [orderPre_cons]; exact Std.OrientedCmp.eq_swap
  isLE_trans := by
    intro as bs cs hab hbc
    cases as <;> cases bs <;> cases cs
    case cons.cons.cons =>
      rw [orderPre_cons] at *
      exact Std.TransCmp.isLE_trans hab hbc
    all_goals first | rfl | contradiction

theorem orderPre_swap (as bs : List Identifier) : orderPre as bs = (orderPre bs as).swap :=
  Std.OrientedCmp.eq_swap

theorem orderPre_trans {as bs cs : List Identifier} (hab : (orderPre as bs).isLE = true)
    (hbc : (orderPre bs cs).isLE = true) :
    (orderPre as cs).isLE = true := Std.TransCmp.isLE_trans hab hbc

instance : Std.LawfulEqCmp orderPre where
  compare_self := Std.ReflCmp.compare_self
  eq_of_compare := by
    intro as bs h
    cases as <;> cases bs
    · rfl
    · exact absurd h (by simp [orderPre])
    · exact absurd h (by simp [orderPre])
    · rw [orderPre_cons] at h; exact Std.LawfulEqCmp.eq_of_compare h

/-- The order compares one part after the other. -/
theorem order_eq_compareLex :
    order = compareLex (compareOn major) (compareLex (compareOn minor)
      (compareLex (compareOn patch) fun a b => orderPre a.pre b.pre)) := rfl

instance : Std.TransCmp fun a b : Precedence => orderPre a.pre b.pre where
  eq_swap := by
    intro a b
    exact orderPre_swap a.pre b.pre
  isLE_trans := orderPre_trans

instance : Std.TransCmp order := by
  rw [order_eq_compareLex]; infer_instance

instance : Std.LawfulEqCmp order where
  compare_self := Std.ReflCmp.compare_self
  eq_of_compare := by
    intro a b h
    simp only [order, Ordering.then_eq_eq, Std.LawfulEqCmp.compare_eq_iff_eq] at h
    obtain ⟨hmajor, hminor, hpatch, hpre⟩ := h
    cases a; cases b
    simp_all

theorem order_swap (a b : Precedence) : a.order b = (b.order a).swap := Std.OrientedCmp.eq_swap

theorem eq_of_order {a b : Precedence} (h : a.order b = .eq) : a = b :=
  Std.LawfulEqCmp.eq_of_compare h

/-- Versions are linearly ordered. -/
instance : LinearOrder Precedence where
  le a b := (a.order b).isLE = true
  lt a b := a.order b = .lt
  le_refl _ := Std.ReflCmp.isLE_rfl
  le_trans _ _ _ := Std.TransCmp.isLE_trans
  lt_iff_le_not_ge a b := by
    rw [order_swap b a]
    cases a.order b <;> simp
  le_antisymm a b hab hba := by
    rw [order_swap b a] at hba
    cases h : a.order b with
    | lt => rw [h] at hba; exact absurd hba (by simp)
    | eq => exact eq_of_order h
    | gt => rw [h] at hab; exact absurd hab (by simp)
  le_total a b := by
    rw [order_swap b a]
    cases a.order b <;> simp
  toDecidableLE a b := inferInstanceAs (Decidable ((a.order b).isLE = true))

theorem lt_iff_order {a b : Precedence} : a < b ↔ a.order b = .lt := Iff.rfl

theorem le_iff_order {a b : Precedence} : a ≤ b ↔ (a.order b).isLE = true := Iff.rfl

@[simp]
theorem isBefore_iff {a b : Precedence} : a.isBefore b = true ↔ a < b := by
  simp [isBefore, lt_iff_order]

@[simp]
theorem isUpTo_iff {a b : Precedence} : a.isUpTo b = true ↔ a ≤ b := Iff.rfl

/-- The numbers decide, one after the other, and then the pre-release. -/
theorem lt_iff {a b : Precedence} :
    a < b ↔ a.major < b.major ∨ a.major = b.major ∧
      (a.minor < b.minor ∨ a.minor = b.minor ∧
        (a.patch < b.patch ∨ a.patch = b.patch ∧ orderPre a.pre b.pre = .lt)) := by
  simp only [lt_iff_order, order, Ordering.then_eq_lt, Nat.compare_eq_lt, Nat.compare_eq_eq]

theorem le_iff {a b : Precedence} :
    a ≤ b ↔ a.major < b.major ∨ a.major = b.major ∧
      (a.minor < b.minor ∨ a.minor = b.minor ∧
        (a.patch < b.patch ∨ a.patch = b.patch ∧ (orderPre a.pre b.pre).isLE = true)) := by
  simp only [le_iff_order, order, Ordering.isLE_then_iff_or, Nat.compare_eq_lt, Nat.compare_eq_eq]

/-! ## Least and next versions -/

/-- A list of identifiers comes before any that continues it. -/
theorem orderIdentifiers_append (as : List Identifier) (b : Identifier) (bs : List Identifier) :
    orderIdentifiers as (as ++ b :: bs) = .lt := by
  induction as with
  | nil => rfl
  | cons a as ih =>
      rw [List.cons_append, orderIdentifiers, ih, Identifier.order_self]
      rfl

/-- Nothing comes between a list of identifiers and its continuation by a zero. -/
theorem orderIdentifiers_append_zero {as bs : List Identifier}
    (h : orderIdentifiers as bs = .lt) :
    (orderIdentifiers (as ++ [.number 0]) bs).isLE = true := by
  induction as generalizing bs with
  | nil =>
      cases bs with
      | nil => exact absurd h (by simp [orderIdentifiers])
      | cons b bs =>
          rw [List.nil_append, orderIdentifiers, Ordering.isLE_then_iff_and]
          refine ⟨Identifier.zero_isLE b, Or.inr ?_⟩
          cases bs <;> rfl
  | cons a as ih =>
      cases bs with
      | nil => exact absurd h (by simp [orderIdentifiers])
      | cons b bs =>
          rw [orderIdentifiers] at h
          rw [List.cons_append, orderIdentifiers]
          cases hab : a.order b with
          | lt => rfl
          | eq => rw [hab] at h; exact ih h
          | gt => rw [hab] at h; exact absurd h (by simp)

/-- A pre-release zero comes before everything with the same numbers. -/
theorem orderPre_zero (as : List Identifier) : (orderPre [.number 0] as).isLE = true := by
  cases as with
  | nil => rfl
  | cons a as =>
      have hnil : orderIdentifiers [] (a :: as) = .lt := rfl
      exact orderIdentifiers_append_zero hnil

theorem minimum_le (v : Precedence) : minimum ≤ v := by
  rw [le_iff]
  simp only [minimum]
  -- the first number that is not zero decides, and without one the pre-release
  rcases Nat.eq_zero_or_pos v.major with hmajor | hmajor
  · rcases Nat.eq_zero_or_pos v.minor with hminor | hminor
    · rcases Nat.eq_zero_or_pos v.patch with hpatch | hpatch
      · exact Or.inr ⟨hmajor.symm, Or.inr ⟨hminor.symm, Or.inr ⟨hpatch.symm, orderPre_zero v.pre⟩⟩⟩
      · exact Or.inr ⟨hmajor.symm, Or.inr ⟨hminor.symm, Or.inl hpatch⟩⟩
    · exact Or.inr ⟨hmajor.symm, Or.inl hminor⟩
  · exact Or.inl hmajor

/-- The next version after a release. -/
theorem successor_release {v : Precedence} (h : v.pre = []) :
    v.successor = { major := v.major, minor := v.minor, patch := v.patch + 1, pre := [.number 0] } := by
  simp [successor, h]

/-- The next version after a pre-release. -/
theorem successor_prerelease {v : Precedence} {a : Identifier} {as : List Identifier}
    (h : v.pre = a :: as) :
    v.successor = { v with pre := a :: as ++ [.number 0] } := by
  simp [successor, h]

theorem lt_successor (v : Precedence) : v < v.successor := by
  cases h : v.pre with
  | nil =>
      rw [successor_release h, lt_iff]
      simp
  | cons a as =>
      rw [successor_prerelease h, lt_iff]
      simp only [h, List.cons_append, orderPre_cons]
      have happ := orderIdentifiers_append (a :: as) (.number 0) []
      rw [List.cons_append] at happ
      simp [happ]

/-- **Nothing lies between a version and the next one.** -/
theorem successor_le {v w : Precedence} (h : v < w) : v.successor ≤ w := by
  rw [lt_iff] at h
  cases hv : v.pre with
  | nil =>
      rw [successor_release hv, le_iff]
      -- after a release only a higher number can follow
      have hpre : orderPre v.pre w.pre ≠ .lt := by
        rw [hv]; cases w.pre <;> simp [orderPre]
      have hzero := orderPre_zero w.pre
      simp only
      rcases h with h | ⟨hmajor, h | ⟨hminor, h | ⟨_, h⟩⟩⟩
      · exact Or.inl h
      · exact Or.inr ⟨hmajor, Or.inl h⟩
      · refine Or.inr ⟨hmajor, Or.inr ⟨hminor, ?_⟩⟩
        rcases Nat.lt_or_eq_of_le h with h | h
        · exact Or.inl h
        · exact Or.inr ⟨h, hzero⟩
      · exact absurd h hpre
  | cons a as =>
      rw [successor_prerelease hv, le_iff]
      simp only
      -- after a pre-release the same numbers may follow, if their identifiers do
      rcases h with h | ⟨hmajor, h | ⟨hminor, h | ⟨hpatch, h⟩⟩⟩
      · exact Or.inl h
      · exact Or.inr ⟨hmajor, Or.inl h⟩
      · exact Or.inr ⟨hmajor, Or.inr ⟨hminor, Or.inl h⟩⟩
      · refine Or.inr ⟨hmajor, Or.inr ⟨hminor, Or.inr ⟨hpatch, ?_⟩⟩⟩
        rw [hv] at h
        cases hw : w.pre with
        | nil => rfl
        | cons b bs =>
            rw [hw, orderPre_cons] at h
            exact orderIdentifiers_append_zero h

theorem successor_le_iff {v w : Precedence} : v.successor ≤ w ↔ v < w :=
  ⟨lt_of_lt_of_le (lt_successor v), successor_le⟩

end Precedence

end LockAudit
