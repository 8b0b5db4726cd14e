import LockAudit.Proofs.Version.Order
import LockAudit.Version.Key
import Mathlib.Data.String.Basic

/-!
# The order of versions is SemVer precedence

`Precedence.order` is a program: it compares part after part and stops at the first
difference. SemVer describes the same order from the other side, by what has to be
true for one version to come before another. `Precedence.Precedes` is that
description, one constructor for each rule, and it never compares anything twice.

Lists are where the two are furthest apart. The description says that there is a
common start, and that behind it either the identifiers differ in the right
direction or one list is at its end. The program knows of no common start; it walks.
`FirstDiffers.cons_iff` is the step between them, and it serves the letters of a word
as well as the identifiers of a pre-release.

Versions may also be compared through their keys. `order?_key` says that this always
gives an answer, and the same one.
-/

namespace LockAudit

/-! ## The first difference -/

/-- Behind a common start the first list is at its end, or has the lesser item. -/
inductive FirstDiffers {α : Type} (less : α → α → Prop) : List α → List α → Prop
  | longer (as : List α) (b : α) (bs : List α) : FirstDiffers less as (as ++ b :: bs)
  | item (start : List α) {a b : α} (as bs : List α) (h : less a b) :
      FirstDiffers less (start ++ a :: as) (start ++ b :: bs)

namespace FirstDiffers

variable {α : Type} {less : α → α → Prop} {a b : α} {as bs : List α}

theorem nil_cons : FirstDiffers less [] (b :: bs) := longer [] b bs

theorem not_nil : ¬ FirstDiffers less as [] := by
  intro h
  generalize hnil : ([] : List α) = cs at h
  cases h <;> simp at hnil

theorem cons (a : α) (h : FirstDiffers less as bs) : FirstDiffers less (a :: as) (a :: bs) := by
  cases h with
  | longer as b bs => exact longer (a :: as) b bs
  | item start as bs h => exact item (a :: start) as bs h

/-- **Step.** The first items decide, unless they are the same. -/
theorem cons_iff :
    FirstDiffers less (a :: as) (b :: bs) ↔ less a b ∨ a = b ∧ FirstDiffers less as bs := by
  constructor
  · intro h
    -- the heads are kept as equations: the constructors speak of whole lists
    generalize hl : a :: as = l at h
    generalize hr : b :: bs = r at h
    cases h with
    | longer l c cs =>
        subst hl
        obtain ⟨rfl, rfl⟩ := List.cons.inj hr
        exact Or.inr ⟨rfl, longer as c cs⟩
    | @item start c d cs ds hless =>
        cases start with
        | nil =>
            obtain ⟨rfl, rfl⟩ := List.cons.inj hl
            obtain ⟨rfl, rfl⟩ := List.cons.inj hr
            exact Or.inl hless
        | cons e start =>
            obtain ⟨rfl, rfl⟩ := List.cons.inj hl
            obtain ⟨rfl, rfl⟩ := List.cons.inj hr
            exact Or.inr ⟨rfl, item start cs ds hless⟩
  · intro h
    rcases h with hless | ⟨rfl, h⟩
    · exact item [] as bs hless
    · exact h.cons a

/-- Texts are compared in this way, by code point. -/
theorem text_iff (as bs : List Char) :
    FirstDiffers (fun c d => c.toNat < d.toNat) as bs ↔ as < bs := by
  induction as generalizing bs with
  | nil =>
      cases bs with
      | nil => simp [not_nil]
      | cons b bs => simp [nil_cons]
  | cons a as ih =>
      cases bs with
      | nil => simp [not_nil]
      | cons b bs =>
          rw [cons_iff, ih, List.cons_lt_cons_iff]
          rfl

end FirstDiffers

/-! ## The rules -/

/-- One identifier comes before another. -/
inductive Identifier.Precedes : Identifier → Identifier → Prop
  | number {m n : Nat} (h : m < n) : Precedes (number m) (number n)
  | kind {n : Nat} {s : String} : Precedes (number n) (word s)
  | word {s t : String} (h : FirstDiffers (fun c d => c.toNat < d.toNat) s.toList t.toList) :
      Precedes (word s) (word t)

/-- One version comes before another. -/
inductive Precedence.Precedes (a b : Precedence) : Prop
  | major (h : a.major < b.major)
  | minor (hmajor : a.major = b.major) (h : a.minor < b.minor)
  | patch (hmajor : a.major = b.major) (hminor : a.minor = b.minor) (h : a.patch < b.patch)
  | release (hmajor : a.major = b.major) (hminor : a.minor = b.minor)
      (hpatch : a.patch = b.patch) (ha : a.pre ≠ []) (hb : b.pre = [])
  | prerelease (hmajor : a.major = b.major) (hminor : a.minor = b.minor)
      (hpatch : a.patch = b.patch) (ha : a.pre ≠ []) (hb : b.pre ≠ [])
      (h : FirstDiffers Identifier.Precedes a.pre b.pre)

theorem Identifier.order_lt (a b : Identifier) : a.order b = .lt ↔ a.Precedes b := by
  cases a with
  | number m =>
      cases b with
      | number n =>
          rw [order, Nat.compare_eq_lt]
          exact ⟨.number, fun h => by cases h; assumption⟩
      | word t => exact ⟨fun _ => .kind, fun _ => rfl⟩
  | word s =>
      cases b with
      | number n => exact ⟨fun h => by simp [order] at h, fun h => by cases h⟩
      | word t =>
          rw [order, compare_lt_iff_lt, String.lt_iff, ← FirstDiffers.text_iff]
          exact ⟨.word, fun h => by cases h; assumption⟩

namespace Precedence

variable {a b c : Precedence}

theorem orderIdentifiers_lt (as bs : List Identifier) :
    orderIdentifiers as bs = .lt ↔ FirstDiffers Identifier.Precedes as bs := by
  induction as generalizing bs with
  | nil =>
      cases bs with
      | nil => simp [orderIdentifiers, FirstDiffers.not_nil]
      | cons b bs => simp [orderIdentifiers, FirstDiffers.nil_cons]
  | cons a as ih =>
      cases bs with
      | nil => simp [orderIdentifiers, FirstDiffers.not_nil]
      | cons b bs =>
          rw [orderIdentifiers, Ordering.then_eq_lt, ih, FirstDiffers.cons_iff,
            Identifier.order_lt, Std.LawfulEqCmp.compare_eq_iff_eq]

/-- Where the numbers agree, a pre-release comes before the release, and two
pre-releases as their identifiers do. -/
theorem orderPre_lt (as bs : List Identifier) :
    orderPre as bs = .lt ↔
      as ≠ [] ∧ bs = [] ∨ as ≠ [] ∧ bs ≠ [] ∧ FirstDiffers Identifier.Precedes as bs := by
  cases as with
  | nil => cases bs <;> simp [orderPre]
  | cons a as =>
      cases bs with
      | nil => simp [orderPre]
      | cons b bs =>
          rw [orderPre_cons, orderIdentifiers_lt]
          simp

/-- **The program follows the rules.** -/
theorem order_lt : a.order b = .lt ↔ a.Precedes b := by
  rw [← lt_iff_order, lt_iff, orderPre_lt]
  constructor
  · intro h
    rcases h with h | ⟨hmajor, h | ⟨hminor, h | ⟨hpatch, ⟨ha, hb⟩ | ⟨ha, hb, h⟩⟩⟩⟩
    · exact .major h
    · exact .minor hmajor h
    · exact .patch hmajor hminor h
    · exact .release hmajor hminor hpatch ha hb
    · exact .prerelease hmajor hminor hpatch ha hb h
  · intro h
    cases h with
    | major h => exact Or.inl h
    | minor hmajor h => exact Or.inr ⟨hmajor, Or.inl h⟩
    | patch hmajor hminor h => exact Or.inr ⟨hmajor, Or.inr ⟨hminor, Or.inl h⟩⟩
    | release hmajor hminor hpatch ha hb =>
        exact Or.inr ⟨hmajor, Or.inr ⟨hminor, Or.inr ⟨hpatch, Or.inl ⟨ha, hb⟩⟩⟩⟩
    | prerelease hmajor hminor hpatch ha hb h =>
        exact Or.inr ⟨hmajor, Or.inr ⟨hminor, Or.inr ⟨hpatch, Or.inr ⟨ha, hb, h⟩⟩⟩⟩

theorem order_gt : a.order b = .gt ↔ b.Precedes a := by
  rw [← order_lt, order_swap b a]
  cases a.order b <;> simp

theorem order_eq : a.order b = .eq ↔ a = b := Std.LawfulEqCmp.compare_eq_iff_eq

theorem eq_iff :
    a = b ↔ a.major = b.major ∧ a.minor = b.minor ∧ a.patch = b.patch ∧ a.pre = b.pre := by
  cases a
  cases b
  rw [mk.injEq]

end Precedence

/-! ## Keys -/

namespace Key

variable {a b : Key} {as bs : List Key} {first rest : Ordering}

/-- **Step.** Comparable components in front of comparable tuples. -/
theorem orderItems?_cons (h : order? a b = some first) (hrest : orderItems? as bs = some rest) :
    orderItems? (a :: as) (b :: bs) = some (first.then rest) := by
  rw [orderItems?, h]
  cases first with
  | lt => rfl
  | eq => exact hrest
  | gt => rfl

theorem orderItems?_nil : orderItems? [] [] = some .eq := by rw [orderItems?]

theorem order?_number (m n : Nat) : order? (.number m) (.number n) = some (compare m n) := by
  rw [order?]

end Key

open Key

/-- The kind in front keeps numbers and words apart. -/
theorem Identifier.order?_key (a b : Identifier) : order? a.key b.key = some (a.order b) := by
  cases a with
  | number m =>
      cases b with
      | number n => cases h : compare m n <;> simp [key, order?, orderItems?, order, h]
      | word t => rfl
  | word s =>
      cases b with
      | number n => rfl
      | word t => cases h : compare s t <;> simp [key, order?, orderItems?, order, h]

namespace Precedence

theorem orderItems?_keys (as bs : List Identifier) :
    orderItems? (as.map (·.key)) (bs.map (·.key)) = some (orderIdentifiers as bs) := by
  induction as generalizing bs with
  | nil => cases bs <;> rfl
  | cons a as ih =>
      cases bs with
      | nil => rfl
      | cons b bs => exact orderItems?_cons (a.order?_key b) (ih bs)

theorem order?_releaseKey (as bs : List Identifier) :
    order? (releaseKey as) (releaseKey bs) = some (orderPre as bs) := by
  cases as with
  | nil => cases bs <;> rfl
  | cons a as =>
      cases bs with
      | nil => rfl
      | cons b bs =>
          have hitems : order? (.tuple ((a :: as).map (·.key))) (.tuple ((b :: bs).map (·.key))) =
              some (orderIdentifiers (a :: as) (b :: bs)) := by
            rw [order?, orderItems?_keys]
          have hpair := orderItems?_cons (order?_number 0 0)
            (orderItems?_cons hitems orderItems?_nil)
          rw [releaseKey, releaseKey, order?, hpair, orderPre_cons, Ordering.then_eq]
          rfl

/-- **Comparing keys always gives an answer, and it is the order of the versions.** -/
theorem order?_key (a b : Precedence) : order? a.key b.key = some (a.order b) := by
  have hpatch := orderItems?_cons (order?_number a.patch b.patch)
    (orderItems?_cons (order?_releaseKey a.pre b.pre) orderItems?_nil)
  have hall := orderItems?_cons (order?_number a.major b.major)
    (orderItems?_cons (order?_number a.minor b.minor) hpatch)
  rw [key, key, order?, hall, Ordering.then_eq]
  rfl

end Precedence

/-! ## The law -/

namespace Version

/--
**Versions are ordered by SemVer precedence.**

Comparing keys always has an answer, and it is the order. The order is total: every
version is level with itself, turning a comparison round turns its result round, and
it is transitive. Versions are level exactly when numbers and pre-release agree; then
they are the same version and have the same hash, whatever keys are hashed with.
Otherwise the one that the rules put first comes first.
-/
theorem order_semantic (a b c : Version) :
    order? a.key b.key = some (a.order b.toPrecedence) ∧
    a.order a.toPrecedence = .eq ∧
    a.order b.toPrecedence = (b.order a.toPrecedence).swap ∧
    ((a.order b.toPrecedence).isLE = true → (b.order c.toPrecedence).isLE = true →
      (a.order c.toPrecedence).isLE = true) ∧
    (a.order b.toPrecedence = .eq ↔
      a.major = b.major ∧ a.minor = b.minor ∧ a.patch = b.patch ∧ a.pre = b.pre) ∧
    (a.order b.toPrecedence = .eq ↔ a.toPrecedence = b.toPrecedence) ∧
    (a.order b.toPrecedence = .eq → ∀ hash, a.hashBy hash = b.hashBy hash) ∧
    (a.order b.toPrecedence = .lt ↔ a.Precedes b.toPrecedence) ∧
    (a.order b.toPrecedence = .gt ↔ b.Precedes a.toPrecedence) := by
  refine ⟨Precedence.order?_key _ _, Std.ReflCmp.compare_self, Precedence.order_swap _ _,
    Std.TransCmp.isLE_trans, ?_, Precedence.order_eq, ?_, Precedence.order_lt,
    Precedence.order_gt⟩
  · rw [Precedence.order_eq, Precedence.eq_iff]
  · intro h hash
    rw [Precedence.order_eq] at h
    rw [Precedence.hashBy, h]
    rfl

end Version

end LockAudit
