import LockAudit.Proofs.Report.Order
import Mathlib.Algebra.Ring.Nat

/-!
# What a report counts and what it fails for

A report puts the worst entries in front, so those it fails for are its first ones. How
many they are can be read off the numbers that it gives for the severities: it is the sum
of those from the threshold on. `failing_eq_take` is the first half of this and
`countFrom_eq` the second; both follow from the order of the entries alone.

A report that passes goes on to pass when less is asked of it. Less is a higher threshold,
fewer findings, or findings in direct dependencies that do not count higher; and these can
be had together.
-/

namespace LockAudit

namespace Severity

variable {a b : Severity}

theorem le_escalate (a : Severity) : a ≤ a.escalate := by
  cases a <;> decide

theorem le_trans {c : Severity} (hab : a ≤ b) (hbc : b ≤ c) : a ≤ c := Nat.le_trans hab hbc

end Severity

namespace Report

variable {s s' : Setting} {findings findings' : List Finding}
  {suppressed suppressed' : List SuppressedFinding} {diagnostics diagnostics' : List Diagnostic}

/-! ## The order of the entries -/

/-- One entry counts no less than another. -/
def Entry.IsNoLess (a b : Entry) : Prop := b.severity ≤ a.severity

/-- What comes first by the order of entries counts no less. -/
theorem Entry.isNoLess_of_order {a b : Entry} (h : (a.order b).isLE = true) : a.IsNoLess b := by
  unfold Entry.order at h
  rw [Ordering.isLE_then_iff_and] at h
  exact Nat.isLE_compare.mp h.1

theorem entries_pairwise :
    (Report.of s findings suppressed diagnostics).entries.Pairwise Entry.IsNoLess := by
  have hsorted : (Report.of s findings suppressed diagnostics).entries.Pairwise
      fun a b => (a.order b).isLE = true := Sorting.pairwise_sorted _
  exact hsorted.imp Entry.isNoLess_of_order

/-- From the worst down, the entries at or above the threshold are the first ones. -/
theorem failing_eq_take {r : Report} (h : r.entries.Pairwise Entry.IsNoLess) :
    r.failing = r.entries.take r.failing.length := by
  unfold failing
  generalize r.entries = entries at h
  induction entries with
  | nil => rfl
  | cons e entries ih =>
      rw [List.pairwise_cons] at h
      obtain ⟨hfirst, hrest⟩ := h
      by_cases he : r.threshold ≤ e.severity
      · rw [List.filter_cons_of_pos (by simpa using he), List.length_cons, List.take_succ_cons,
          ← ih hrest]
      · -- nothing behind it reaches the threshold either
        have hnone : entries.filter (fun e => decide (r.threshold ≤ e.severity)) = [] := by
          refine List.filter_eq_nil_iff.mpr fun e' he' hreach => he ?_
          exact Severity.le_trans (of_decide_eq_true hreach) (hfirst e' he')
        rw [List.filter_cons_of_neg (by simpa using he), hnone]
        rfl

/-! ## What is counted -/

/-- How many entries the report gives for the severities from one on. -/
def countFrom (r : Report) (threshold : Severity) : Nat :=
  ((r.counts.filter fun c => decide (threshold ≤ c.1)).map (·.2)).sum

/-- An entry is counted once, for its severity. -/
theorem sum_count (r : Report) {severities : List Severity} (h : severities.Nodup) :
    (severities.map r.count).sum =
      r.entries.countP fun e => decide (e.severity ∈ severities) := by
  unfold count
  generalize r.entries = entries
  induction severities with
  | nil => simp
  | cons first severities ih =>
      rw [List.nodup_cons] at h
      obtain ⟨hfirst, hrest⟩ := h
      rw [List.map_cons, List.sum_cons, ih hrest]
      clear ih
      -- no entry is of the first severity and of one of the others
      induction entries with
      | nil => rfl
      | cons e entries ih =>
          rw [List.countP_cons, List.countP_cons, List.countP_cons, ← ih]
          by_cases he : e.severity = first
          · simp [he, hfirst]
            omega
          · simp [he]
            omega

theorem countFrom_eq (r : Report) (threshold : Severity) :
    r.countFrom threshold = r.entries.countP fun e => decide (threshold ≤ e.severity) := by
  unfold countFrom counts
  rw [List.filter_map, List.map_map]
  change ((Severity.all.reverse.filter fun s => decide (threshold ≤ s)).map r.count).sum = _
  rw [sum_count r (List.Nodup.filter _ (by decide))]
  refine List.countP_congr fun e _ => ?_
  rw [decide_eq_true_iff, List.mem_filter]
  exact and_iff_right (by cases e.severity <;> decide)

theorem length_failing (r : Report) : r.failing.length = r.countFrom r.threshold := by
  rw [countFrom_eq, List.countP_eq_length_filter]
  rfl

theorem sum_counts (r : Report) : (r.counts.map (·.2)).sum = r.entries.length := by
  unfold counts
  rw [List.map_map]
  change (Severity.all.reverse.map r.count).sum = _
  rw [sum_count r (by decide), List.countP_eq_length]
  intro e _
  cases e.severity <;> decide

/-! ## Less to fail for -/

/-- A finding counts no more where those in direct dependencies do not count higher. -/
theorem effectiveSeverity_mono {escalate escalate' : Bool} (h : escalate' = true → escalate = true)
    (f : Finding) :
    effectiveSeverity escalate' f ≤ effectiveSeverity escalate f := by
  have hself : ∀ escalate, effectiveSeverity escalate f ≤ effectiveSeverity escalate f :=
    fun _ => Nat.le_refl _
  cases escalate' with
  | true =>
      rw [h rfl]
      exact hself true
  | false =>
      unfold effectiveSeverity
      rw [Bool.false_and, if_neg Bool.false_ne_true]
      split
      · exact Severity.le_escalate _
      · exact Nat.le_refl _

/-- What a report passes, one passes that asks for less. -/
theorem pass_mono (hthreshold : s.threshold ≤ s'.threshold)
    (hescalate : s'.escalateDirect = true → s.escalateDirect = true)
    (hfewer : ∀ f ∈ findings', f ∈ findings)
    (hpass : (Report.of s findings suppressed diagnostics).verdict = .pass) :
    (Report.of s' findings' suppressed' diagnostics').verdict = .pass := by
  by_contra hne
  have hfail : (Report.of s' findings' suppressed' diagnostics').verdict = .fail := by
    cases hverdict : (Report.of s' findings' suppressed' diagnostics').verdict with
    | pass => exact absurd hverdict hne
    | fail => rfl
  obtain ⟨f, hf, hsevere⟩ := verdict_of.mp hfail
  have hsevere' : s.threshold ≤ effectiveSeverity s.escalateDirect f :=
    Severity.le_trans hthreshold (Severity.le_trans hsevere (effectiveSeverity_mono hescalate f))
  rw [verdict_of.mpr ⟨f, hfewer f hf, hsevere'⟩] at hpass
  exact absurd hpass (by decide)

/--
**What a report shows and what it fails for.** Take any findings and any setting.

The entries are the findings, each with the severity that it counts as, and none stands
behind one that counts less. Those that the report fails for are the first of them, as many
as the numbers for the severities from the threshold on add up to; all numbers together
add up to the findings. The report fails exactly if there are entries to fail for. And if
it passes then so does every report with a threshold as high or higher, with no findings
but these, and with direct dependencies counting higher only if they did before.
-/
theorem ranking_exact (s : Setting) (findings : List Finding)
    (suppressed : List SuppressedFinding) (diagnostics : List Diagnostic) :
    let report := Report.of s findings suppressed diagnostics
    (report.entries.map Entry.finding).Perm findings ∧
    (∀ e ∈ report.entries, e.severity = effectiveSeverity s.escalateDirect e.finding) ∧
    report.entries.Pairwise (fun a b => b.severity ≤ a.severity) ∧
    report.failing = report.entries.take (report.countFrom s.threshold) ∧
    report.countFrom s.threshold ≤ report.entries.length ∧
    (∀ severity, report.count severity =
      findings.countP fun f => effectiveSeverity s.escalateDirect f == severity) ∧
    (report.counts.map (·.2)).sum = findings.length ∧
    (report.verdict = .fail ↔ 0 < report.countFrom s.threshold) ∧
    ∀ s' findings' suppressed' diagnostics', s.threshold ≤ s'.threshold →
      (s'.escalateDirect = true → s.escalateDirect = true) → (∀ f ∈ findings', f ∈ findings) →
      report.verdict = .pass →
        (Report.of s' findings' suppressed' diagnostics').verdict = .pass := by
  intro report
  have hperm : report.entries.Perm (findings.map (Entry.of s)) := List.mergeSort_perm _ _
  -- the order of the entries starts with their severity, so a threshold cuts off the tail
  have hsorted : report.entries.Pairwise Entry.IsNoLess := entries_pairwise
  have hlength : report.failing.length = report.countFrom s.threshold := length_failing report
  refine ⟨?_, ?_, hsorted, ?_, ?_, ?_, ?_, ?_, ?_⟩
  · have hfindings := hperm.map Entry.finding
    rwa [List.map_map, show Entry.finding ∘ Entry.of s = id from rfl, List.map_id] at hfindings
  · intro e he
    obtain ⟨f, _, rfl⟩ := List.mem_map.mp (hperm.mem_iff.mp he)
    rfl
  · rw [← hlength]
    exact failing_eq_take hsorted
  · rw [← hlength]
    exact List.length_filter_le _ _
  · intro severity
    exact (hperm.countP_eq _).trans (List.countP_map ..)
  · rw [sum_counts, hperm.length_eq, List.length_map]
  · rw [← hlength, List.length_pos_iff]
    unfold verdict
    cases report.failing <;> simp
  · intro s' findings' suppressed' diagnostics' hthreshold hescalate hfewer hpass
    exact pass_mono hthreshold hescalate hfewer hpass

/-- A finding of high severity in a direct dependency. -/
def sampleFinding : Finding where
  node := ⟨"p", .release 1 0 0, "s", true⟩
  record := { sampleRecord with severity := .high }

/-- It fails a report on critical ones only if direct dependencies count higher, and none
that asks for less. -/
theorem ranking_exact_direct :
    (Report.of { threshold := .critical, escalateDirect := true } [sampleFinding] [] []).verdict =
        .fail ∧
      (Report.of { threshold := .critical } [sampleFinding] [] []).verdict = .pass ∧
      (Report.of { threshold := .critical } [] [] []).verdict = .pass := by
  have hfail := (ranking_exact { threshold := .critical, escalateDirect := true }
    [sampleFinding] [] []).2.2.2.2.2.2.2.1
  have hless := (ranking_exact { threshold := .critical }
    [sampleFinding] [] []).2.2.2.2.2.2.2.2
  have hpass : (Report.of { threshold := .critical } [sampleFinding] [] []).verdict = .pass := by
    decide +kernel
  refine ⟨hfail.mpr (by decide +kernel), hpass, ?_⟩
  exact hless { threshold := .critical } [] [] [] (Nat.le_refl _) id (by simp) hpass

end Report

end LockAudit
