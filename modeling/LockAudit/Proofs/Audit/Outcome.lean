import LockAudit.Audit.Matching
import LockAudit.Proofs.PackageName

/-!
# When a record exposes a dependency

`outcome` asks five questions in a fixed order. `Exposes` is what it takes to get
to the end of them, as conditions that have no order; `exposes_iff` says that they
come to the same, for a record on the package of the dependency.
-/

namespace LockAudit

open Lockfile (Node)
open Advisory (Record)

/-- The record is about the dependency, holds of its version, and is not accepted. -/
structure Exposes (now : Calendar.Instant) (suppressions : List Suppression) (n : Node)
    (r : Record) : Prop where
  samePackage : PackageName.canonical r.package = PackageName.canonical n.name
  notWithdrawn : r.withdrawn = none
  affected : r.affected.holds n.version.toPrecedence = true
  notPatched : r.patched.isEmpty = true ∨ r.patched.holds n.version.toPrecedence = false
  /-- Suppressions that apply are over. -/
  notAccepted : ∀ s ∈ suppressions, s.applies n r = true → s.isExpired now = true

variable {now : Calendar.Instant} {suppressions : List Suppression} {n : Node} {r : Record}

/-- No suppression is in force when all that apply are over. -/
theorem firstInForce_eq_none :
    firstInForce now suppressions n r = none ↔
      ∀ s ∈ suppressions, s.applies n r = true → s.isExpired now = true := by
  unfold firstInForce
  rw [List.find?_eq_none]
  refine ⟨?_, ?_⟩
  · intro h s hs
    -- every suppression stands at some position
    obtain ⟨position, hposition⟩ := List.mem_iff_getElem?.mp hs
    have hmem : (s, position) ∈ suppressions.zipIdx :=
      List.mk_mem_zipIdx_iff_getElem?.mpr hposition
    have hfree := h (s, position) hmem
    simpa [Suppression.isInForce] using hfree
  · intro h s hs
    have hmem : s.1 ∈ suppressions := List.fst_mem_of_mem_zipIdx hs
    have hover := h s.1 hmem
    simpa [Suppression.isInForce] using hover

theorem Advisory.Record.concerns_iff {v : Precedence} :
    r.concerns v = true ↔
      r.withdrawn = none ∧ r.affected.holds v = true ∧
        (r.patched.isEmpty = true ∨ r.patched.holds v = false) := by
  simp [Record.concerns, Record.isWithdrawn, Record.affects, Record.patches, and_assoc]

/-- A dependency is vulnerable when the record concerns it and nothing is in force. -/
theorem outcome_eq_vulnerable :
    outcome now suppressions n r = .vulnerable ↔
      r.concerns n.version.toPrecedence = true ∧ firstInForce now suppressions n r = none := by
  unfold outcome Record.concerns
  cases r.isWithdrawn
  · cases r.affects n.version.toPrecedence
    · simp
    · cases r.patches n.version.toPrecedence
      · cases firstInForce now suppressions n r <;> simp
      · simp
  · simp

/-- A finding is suppressed when the record concerns it and something is in force. -/
theorem outcome_eq_suppressed {position : Nat} {s : Suppression} :
    outcome now suppressions n r = .suppressed position s ↔
      r.concerns n.version.toPrecedence = true ∧
        firstInForce now suppressions n r = some (s, position) := by
  unfold outcome Record.concerns
  cases r.isWithdrawn
  · cases r.affects n.version.toPrecedence
    · simp
    · cases r.patches n.version.toPrecedence
      · cases firstInForce now suppressions n r with
        | none => simp
        | some found => simp [Prod.ext_iff, and_comm]
      · simp
  · simp

/-- What is evaluated is the outcome at some instant, unless the clock has no offset and
that decides. -/
theorem evaluate_cases (clock : Calendar.ClockReading) (suppressions : List Suppression) (n : Node)
    (r : Record) :
    (∃ now, evaluate clock suppressions n r = .ok (outcome now suppressions n r)) ∨
    (∀ now, clock ≠ .zoned now) ∧ needsClock suppressions n r = true ∧
      evaluate clock suppressions n r = .error .compare := by
  cases clock with
  | zoned now => exact Or.inl ⟨now, rfl⟩
  | unzoned date time =>
      cases h : needsClock suppressions n r with
      | true => exact Or.inr ⟨by simp, rfl, by simp [evaluate, h]⟩
      | false =>
          exact Or.inl ⟨(Calendar.ClockReading.unzoned date time).asUtc, by simp [evaluate, h]⟩

/-- **Exposure is what is left after the five questions.** -/
theorem exposes_iff (h : r.group = n.group) :
    Exposes now suppressions n r ↔ outcome now suppressions n r = .vulnerable := by
  rw [outcome_eq_vulnerable, Record.concerns_iff, firstInForce_eq_none]
  refine ⟨?_, ?_⟩
  · intro h
    obtain ⟨_, hwithdrawn, haffected, hpatched, haccepted⟩ := h
    exact ⟨⟨hwithdrawn, haffected, hpatched⟩, haccepted⟩
  · intro h
    obtain ⟨⟨hwithdrawn, haffected, hpatched⟩, haccepted⟩ := h
    exact ⟨h, hwithdrawn, haffected, hpatched, haccepted⟩

end LockAudit
