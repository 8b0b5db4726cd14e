import LockAudit.Proofs.Advisory.Index
import LockAudit.Proofs.Advisory.Isolation
import LockAudit.Proofs.Audit.Outcome
import LockAudit.Proofs.Version.Expression
import Mathlib.Data.List.Nodup

/-!
# Overlapping ranges

A record whose ranges overlap hides versions: they are affected, and since they are
patched as well nothing is reported for them. Loading such a record gives a
diagnostic. It is found by putting the groups of the two ranges together, without
looking at any version, while an audit only ever looks at one version at a time.

This module shows that the two agree. The invariant of the load is `Accounts`: the
diagnostics about overlaps are those of the records kept so far, one for one and in
their order, and their ranges are of well-formed versions, for which the decision is
exact.
-/

namespace LockAudit.Advisory

/-! ## What a record says of a version -/

/-- Both ranges of the record are of well-formed versions. -/
def Record.isWellFormed (r : Record) : Bool := r.affected.isWellFormed && r.patched.isWellFormed

/-- The record hides a version: it is affected, and counts as patched. -/
def Record.Hides (r : Record) (v : Version) : Prop :=
  r.affected.holds v.toPrecedence = true ∧ r.patched.holds v.toPrecedence = true

/-- The diagnostic about a record whose ranges overlap. -/
def overlapWarning (r : Record) : Diagnostic :=
  .of .rangeOverlap
    ("advisory " ++ r.id ++ ": affected (" ++ r.affected.text ++ ") overlaps patched (" ++
      r.patched.text ++ "); patched versions are not reported") (some r.id)

/-- The diagnostic is about an overlap. -/
def isOverlap (d : Diagnostic) : Bool := d.kind == DiagnosticKind.rangeOverlap.name

variable {r : Record} {fields : List (String × Value)} {name : String} {entry : Value}

/-- A version that a record hides is in its patched range, so that is not empty. -/
theorem isEmpty_of_hides {v : Version} (h : r.Hides v) : r.patched.isEmpty = false := by
  obtain ⟨g, hg, _⟩ := VersionRange.holds_iff.mp h.2
  unfold VersionRange.isEmpty
  cases hgroups : r.patched.groups with
  | nil => rw [hgroups] at hg; exact absurd hg (by simp)
  | cons g gs => rfl

/-- Hiding any version at all is enough for the ranges to overlap. -/
theorem overlaps_of_hides (h : r.isWellFormed = true) {v : Version} (hhides : r.Hides v) :
    r.overlaps = true := by
  unfold Record.isWellFormed at h
  rw [Bool.and_eq_true] at h
  unfold Record.overlaps
  rw [isEmpty_of_hides hhides, VersionRange.intersects_of_holds h.1 h.2 hhides.1 hhides.2]
  rfl

/-- **The overlap is decided as the versions have it.** -/
theorem overlaps_iff (h : r.isWellFormed = true) :
    r.overlaps = true ↔ ∃ v : Version, v.isWellFormed = true ∧ r.Hides v := by
  constructor
  · intro hoverlaps
    unfold Record.isWellFormed at h
    rw [Bool.and_eq_true] at h
    unfold Record.overlaps at hoverlaps
    rw [Bool.and_eq_true, VersionRange.intersects_iff h.1 h.2] at hoverlaps
    obtain ⟨_, v, hv, hholds⟩ := hoverlaps
    exact ⟨⟨v, []⟩, hv, hholds⟩
  · intro hhides
    obtain ⟨v, _, hhides⟩ := hhides
    exact overlaps_of_hides h hhides

/-! ## Records that were read -/

theorem readRange_isWellFormed {range : VersionRange} (h : readRange fields name = .ok range) :
    range.isWellFormed = true := by
  unfold readRange at h
  simp only at h
  split at h
  · cases h; rfl
  · split at h
    · exact absurd h (by simp [drop])
    · split at h
      · rename_i range' hparse
        cases h
        exact VersionRange.parseAll_isWellFormed hparse
      · exact absurd h (by simp [drop])
      · exact absurd h (by simp)

theorem refuseRange_not_ok {α : Type} {range : VersionRange} {a : α} :
    refuseRange name range ≠ .ok a := by
  unfold refuseRange
  split <;> simp [drop]

theorem readAffected_isWellFormed {range : VersionRange} (h : readAffected fields = .ok range) :
    range.isWellFormed = true := by
  unfold readAffected at h
  split at h
  · exact absurd h (by simp [drop])
  · obtain ⟨affected, haffected, h⟩ := Result.bind_ok.mp h
    split at h
    · cases h; exact readRange_isWellFormed haffected
    · exact absurd h refuseRange_not_ok

theorem readPatched_isWellFormed {range : VersionRange} (h : readPatched fields = .ok range) :
    range.isWellFormed = true := by
  unfold readPatched at h
  obtain ⟨patched, hpatched, h⟩ := Result.bind_ok.mp h
  split at h
  · cases h; exact readRange_isWellFormed hpatched
  · exact absurd h refuseRange_not_ok

/-- The ranges of a record are those that its entry states. -/
theorem readRecord_ranges (h : readRecord entry = .ok r) :
    ∃ fields, readAffected fields = .ok r.affected ∧ readPatched fields = .ok r.patched := by
  unfold readRecord at h
  split at h
  · rename_i fields
    obtain ⟨id, _, h⟩ := Result.bind_ok.mp h
    obtain ⟨package, _, h⟩ := Result.bind_ok.mp h
    obtain ⟨affected, haffected, h⟩ := Result.bind_ok.mp h
    obtain ⟨patched, hpatched, h⟩ := Result.bind_ok.mp h
    obtain ⟨severity, _, h⟩ := Result.bind_ok.mp h
    obtain ⟨aliases, _, h⟩ := Result.bind_ok.mp h
    obtain ⟨withdrawn, _, h⟩ := Result.bind_ok.mp h
    obtain ⟨⟨title, url⟩, _, h⟩ := Result.bind_ok.mp h
    cases h
    exact ⟨fields, haffected, hpatched⟩
  · exact absurd h (by simp [drop])

theorem readRecord_isWellFormed (h : readRecord entry = .ok r) : r.isWellFormed = true := by
  obtain ⟨fields, haffected, hpatched⟩ := readRecord_ranges h
  unfold Record.isWellFormed
  rw [readAffected_isWellFormed haffected, readPatched_isWellFormed hpatched]
  rfl

/-- The diagnostics about a record are the warning, if its ranges overlap. -/
theorem overlapDiagnostics_ok {found : List Diagnostic} (h : overlapDiagnostics r = .ok found) :
    found = if r.overlaps then [overlapWarning r] else [] := by
  unfold overlapDiagnostics VersionRange.text? at h
  cases hoverlaps : r.overlaps with
  | false =>
      rw [hoverlaps] at h
      cases h
      rfl
  | true =>
      rw [hoverlaps] at h
      cases haffected : r.affected.isWritable with
      | false => rw [haffected] at h; exact absurd h (by simp)
      | true =>
          cases hpatched : r.patched.isWritable with
          | false => rw [haffected, hpatched] at h; exact absurd h (by simp)
          | true =>
              rw [haffected, hpatched] at h
              cases h
              rfl

/-! ## The load -/

namespace Load

variable {policy : WithdrawnPolicy} {l l' : Load} {entries : List Value} {position : Nat}

/-- The warnings so far are those of the records kept so far, which have keys of their
own and well-formed ranges. -/
structure Accounts (l : Load) : Prop where
  warnings : l.diagnostics.filter isOverlap = (l.kept.filter (·.overlaps)).map overlapWarning
  distinct : (l.kept.map Record.key).Nodup
  seen : ∀ r ∈ l.kept, r.key ∈ l.seen
  isWellFormed : ∀ r ∈ l.kept, r.isWellFormed = true

theorem Accounts.empty : Accounts {} where
  warnings := rfl
  distinct := List.nodup_nil
  seen := by simp
  isWellFormed := by simp

/-- What is left out gives a diagnostic of another kind. -/
theorem Accounts.leaveOut (h : l.Accounts) (label reason : String) :
    (l.leaveOut label reason).Accounts where
  warnings := by
    have hother : [droppedDiagnostic label reason].filter isOverlap = [] := rfl
    change (l.diagnostics ++ [droppedDiagnostic label reason]).filter isOverlap = _
    rw [List.filter_append, hother, List.append_nil]
    exact h.warnings
  distinct := h.distinct
  seen := h.seen
  isWellFormed := h.isWellFormed

/-- **Step.** A record that is kept brings its own warning along, or none. -/
theorem step_accounts (h : l.Accounts) (hstep : l.step policy position entry = .ok l') :
    l'.Accounts := by
  have hsteps := step_stepsTo policy l position entry
  rw [hstep] at hsteps
  cases hsteps with
  | dropped reads => exact h.leaveOut _ _
  | repeated reads seen => exact h.leaveOut _ _
  | withdrawn reads unseen excluded =>
      exact ⟨h.warnings, h.distinct, fun r hr => List.mem_append_left _ (h.seen r hr),
        h.isWellFormed⟩
  | @kept r found reads unseen included diagnosed =>
      have hfound : found.filter isOverlap = ([r].filter (·.overlaps)).map overlapWarning := by
        rw [overlapDiagnostics_ok diagnosed]
        cases hoverlaps : r.overlaps with
        | false => simp [hoverlaps]
        | true =>
            simp only [List.filter_cons, hoverlaps, if_true]
            rfl
      refine ⟨?_, ?_, ?_, ?_⟩
      · simp only
        rw [List.filter_append, List.filter_append, List.map_append, h.warnings, hfound]
      · simp only
        rw [List.map_append, List.nodup_append]
        refine ⟨h.distinct, by simp, ?_⟩
        intro key hkey key' hkey' heq
        -- the key of the new record has not been seen, those of the others have
        obtain ⟨r', hr', rfl⟩ := List.mem_map.mp hkey
        obtain rfl : key' = r.key := by simpa using hkey'
        exact unseen (heq ▸ h.seen r' hr')
      · intro r' hr'
        rcases List.mem_append.mp hr' with hr' | hr'
        · exact List.mem_append_left _ (h.seen r' hr')
        · rw [List.mem_singleton.mp hr']
          exact List.mem_append_right _ (List.mem_singleton.mpr rfl)
      · intro r' hr'
        rcases List.mem_append.mp hr' with hr' | hr'
        · exact h.isWellFormed r' hr'
        · rw [List.mem_singleton.mp hr']
          exact readRecord_isWellFormed reads

/-- **Run.** -/
theorem steps_accounts (h : l.Accounts) (hsteps : steps policy l position entries = .ok l') :
    l'.Accounts := by
  induction entries generalizing l position with
  | nil => cases hsteps; exact h
  | cons entry entries ih =>
      rw [steps] at hsteps
      obtain ⟨l₁, hl₁, hsteps⟩ := Result.bind_ok.mp hsteps
      exact ih (step_accounts h hl₁) hsteps

/-- The diagnostic about what a policy leaves out is of a kind of its own. -/
theorem filter_allDiagnostics (l : Load) {p : Diagnostic → Bool}
    (hp : ∀ message, p (.of .withdrawnDropped message) = false) :
    l.allDiagnostics.filter p = l.diagnostics.filter p := by
  unfold allDiagnostics
  split
  · rfl
  · rw [List.filter_append, List.filter_cons_of_neg (by simp [hp])]
    exact List.append_nil _

theorem allDiagnostics_filter (l : Load) :
    l.allDiagnostics.filter isOverlap = l.diagnostics.filter isOverlap :=
  l.filter_allDiagnostics fun _ => rfl

end Load

/-! ## What an audit says -/

section Evaluate

variable {now : Calendar.Instant} {clock : Calendar.ClockReading} {suppressions : List Suppression}
  {n : Lockfile.Node}

/-- A version that is affected and not hidden is vulnerable or suppressed. -/
theorem outcome_affected (hwithdrawn : r.isWithdrawn = false)
    (haffected : r.affected.holds n.version.toPrecedence = true) (h : ¬ r.Hides n.version) :
    outcome now suppressions n r = .vulnerable ∨
      ∃ position s, outcome now suppressions n r = .suppressed position s := by
  have hpatched : r.patched.holds n.version.toPrecedence = false := by
    rw [Bool.eq_false_iff]
    intro hpatched
    exact h ⟨haffected, hpatched⟩
  unfold outcome Record.affects Record.patches
  rw [hwithdrawn, haffected, hpatched, Bool.and_false]
  cases firstInForce now suppressions n r with
  | none => exact Or.inl rfl
  | some found => exact Or.inr ⟨found.2, found.1, rfl⟩

theorem patches_of_hides (h : r.Hides n.version) : r.patches n.version.toPrecedence = true := by
  unfold Record.patches
  rw [isEmpty_of_hides h, h.2]
  rfl

/-- A version that a record hides is patched, at any time and whatever the suppressions. -/
theorem outcome_hidden (hwithdrawn : r.isWithdrawn = false) (h : r.Hides n.version) :
    outcome now suppressions n r = .patched := by
  unfold outcome Record.affects
  rw [hwithdrawn, h.1, patches_of_hides h]
  rfl

theorem needsClock_hidden (h : r.Hides n.version) : needsClock suppressions n r = false := by
  unfold needsClock Record.concerns
  rw [patches_of_hides h]
  simp

/-- The clock decides nothing about a version that is not hidden, but without an offset
it may leave open which of the two it is. -/
theorem evaluate_affected (hwithdrawn : r.isWithdrawn = false)
    (haffected : r.affected.holds n.version.toPrecedence = true) (h : ¬ r.Hides n.version) :
    evaluate clock suppressions n r = .ok .vulnerable ∨
    (∃ position s, evaluate clock suppressions n r = .ok (.suppressed position s)) ∨
    (∀ now, clock ≠ .zoned now) ∧ needsClock suppressions n r = true ∧
      evaluate clock suppressions n r = .error .compare := by
  rcases evaluate_cases clock suppressions n r with ⟨now, heval⟩ | hopen
  · rw [heval]
    rcases outcome_affected hwithdrawn haffected h with houtcome | ⟨position, s, houtcome⟩
    · exact Or.inl (by rw [houtcome])
    · exact Or.inr (Or.inl ⟨position, s, by rw [houtcome]⟩)
  · exact Or.inr (Or.inr hopen)

theorem evaluate_hidden (hwithdrawn : r.isWithdrawn = false) (h : r.Hides n.version) :
    evaluate clock suppressions n r = .ok .patched := by
  rcases evaluate_cases clock suppressions n r with ⟨now, heval⟩ | ⟨_, hclock, _⟩
  · rw [heval, outcome_hidden hwithdrawn h]
  · rw [needsClock_hidden h] at hclock
    exact absurd hclock (by simp)

end Evaluate

/-! ## Feeds -/

namespace Feed

/--
**Warnings about overlaps are exact.** Take any feed that loads.

The warnings in its index are those of certain of its records, one for each and no
others: of the records that hide some well-formed version. So where a record that is
not withdrawn has no warning, every version in its affected range is vulnerable or
suppressed and never patched; a clock without an offset may leave open which of the
two, where that depends on an expiry. And where it has one there is a version that is
patched although it is affected.
-/
theorem overlap_exact {f : Feed} {policy : WithdrawnPolicy} {i : Index}
    (h : f.load policy = .ok i) :
    ∃ warned : List Record, warned.Nodup ∧ (∀ r ∈ warned, r ∈ i.records) ∧
      i.diagnostics.filter isOverlap = warned.map overlapWarning ∧
      (∀ r ∈ i.records, r ∈ warned ↔ ∃ v : Version, v.isWellFormed = true ∧ r.Hides v) ∧
      (∀ r ∈ i.records, r.isWithdrawn = false → r ∉ warned →
        ∀ clock suppressions (n : Lockfile.Node),
          r.affected.holds n.version.toPrecedence = true →
            evaluate clock suppressions n r = .ok .vulnerable ∨
            (∃ position s, evaluate clock suppressions n r = .ok (.suppressed position s)) ∨
            (∀ now, clock ≠ .zoned now) ∧ needsClock suppressions n r = true ∧
              evaluate clock suppressions n r = .error .compare) ∧
      (∀ r ∈ warned, r.isWithdrawn = false → ∃ v : Version, v.isWellFormed = true ∧
        r.affected.holds v.toPrecedence = true ∧ ∀ clock suppressions (n : Lockfile.Node),
          n.version = v → evaluate clock suppressions n r = .ok .patched) := by
  unfold load at h
  obtain ⟨entries, _, h⟩ := Result.bind_ok.mp h
  obtain ⟨l, hl, h⟩ := Result.bind_ok.mp h
  cases h
  -- what the loading kept accounts for the warnings it gave
  have haccounts : l.Accounts := Load.steps_accounts .empty hl
  have hrecords : ∀ r, r ∈ (l.index f.fetchedAt f.origin).records ↔ r ∈ l.kept :=
    fun r => Index.mem_records_of_groups rfl
  refine ⟨l.kept.filter (·.overlaps), ?_, ?_, ?_, ?_, ?_, ?_⟩
  · exact (List.Nodup.of_map _ haccounts.distinct).filter _
  · intro r hr
    exact (hrecords r).mpr (List.mem_filter.mp hr).1
  · exact (Load.allDiagnostics_filter l).trans haccounts.warnings
  · intro r hr
    rw [hrecords] at hr
    rw [List.mem_filter, overlaps_iff (haccounts.isWellFormed r hr)]
    exact and_iff_right hr
  · intro r hr hwithdrawn hfree clock suppressions n haffected
    rw [hrecords] at hr
    refine evaluate_affected hwithdrawn haffected fun hhides => ?_
    -- a version that is hidden after all would have given a warning
    have hoverlaps := overlaps_of_hides (haccounts.isWellFormed r hr) hhides
    exact hfree (List.mem_filter.mpr ⟨hr, hoverlaps⟩)
  · intro r hr hwithdrawn
    obtain ⟨hkept, hoverlaps⟩ := List.mem_filter.mp hr
    obtain ⟨v, hv, hhides⟩ := (overlaps_iff (haccounts.isWellFormed r hkept)).mp hoverlaps
    refine ⟨v, hv, hhides.1, ?_⟩
    intro clock suppressions n hn
    subst hn
    exact evaluate_hidden hwithdrawn hhides

/-- A feed with one record, whose ranges have the given texts. -/
def withRanges (affected patched : String) : Feed where
  bytes := Text.Utf8.encode
    ("[\x7b\"id\":\"A\",\"package\":\"p\",\"affected\":\"" ++ affected ++
      "\",\"patched\":\"" ++ patched ++ "\",\"severity\":\"low\"\x7d]").toList
  fetchedAt := firstInstant
  origin := ""

/-- The record in it. -/
def recordWith (affected patched : VersionRange) : Record :=
  { id := "A", package := "p", affected, patched, severity := .low }

/-- Two records: one is patched from a version on that it still affects, the other one
is patched where it ends. -/
theorem overlap_exact_withRanges :
    (∃ i, (withRanges ">=1.0.0" ">=1.2.0").load .retain = .ok i ∧ ∃ r ∈ i.records,
      ∃ v : Version, r.affected.holds v.toPrecedence = true ∧
        ∀ clock suppressions (n : Lockfile.Node), n.version = v →
          evaluate clock suppressions n r = .ok .patched) ∧
    ∃ i, (withRanges "<1.0.0" ">=1.0.0").load .retain = .ok i ∧ ∃ r ∈ i.records,
      ∀ clock suppressions (n : Lockfile.Node), r.affected.holds n.version.toPrecedence = true →
        evaluate clock suppressions n r ≠ .ok .patched := by
  constructor
  · have hload : ((withRanges ">=1.0.0" ">=1.2.0").load .retain).toOption.map (·.records) =
        some [recordWith ⟨[[⟨.ge, .release 1 0 0⟩]], ">=1.0.0"⟩
          ⟨[[⟨.ge, .release 1 2 0⟩]], ">=1.2.0"⟩] := by decide +kernel
    obtain ⟨i, hi, hrecords⟩ := Option.map_eq_some_iff.mp hload
    have hi := Result.ok_of_toOption hi
    obtain ⟨warned, _, _, _, hiff, _, hhidden⟩ := overlap_exact hi
    rw [hrecords] at hiff
    have hwarned := (hiff _ (List.mem_singleton.mpr rfl)).mpr
      ⟨.release 1 2 0, by decide, by decide, by decide⟩
    obtain ⟨v, _, hv⟩ := hhidden _ hwarned rfl
    exact ⟨i, hi, _, hrecords ▸ List.mem_singleton.mpr rfl, v, hv⟩
  · have hload : ((withRanges "<1.0.0" ">=1.0.0").load .retain).toOption.map
        (fun i => (i.records, i.diagnostics)) =
        some ([recordWith ⟨[[⟨.lt, .release 1 0 0⟩]], "<1.0.0"⟩
          ⟨[[⟨.ge, .release 1 0 0⟩]], ">=1.0.0"⟩], []) := by decide +kernel
    obtain ⟨i, hi, hparts⟩ := Option.map_eq_some_iff.mp hload
    have hi := Result.ok_of_toOption hi
    obtain ⟨hrecords, hdiagnostics⟩ := Prod.mk.inj hparts
    obtain ⟨warned, _, _, hwarnings, _, hfree, _⟩ := overlap_exact hi
    -- without a warning no record can be one that gives one
    have hnone : warned = [] := by
      rw [hdiagnostics] at hwarnings
      exact List.map_eq_nil_iff.mp hwarnings.symm
    rw [hrecords, hnone] at hfree
    refine ⟨i, hi, _, hrecords ▸ List.mem_singleton.mpr rfl, ?_⟩
    intro clock suppressions n haffected
    rcases hfree _ (List.mem_singleton.mpr rfl) rfl (by simp) clock suppressions n haffected with
      h | ⟨position, s, h⟩ | ⟨_, _, h⟩
    · rw [h]; simp
    · rw [h]; simp
    · rw [h]; simp

end Feed

end LockAudit.Advisory
