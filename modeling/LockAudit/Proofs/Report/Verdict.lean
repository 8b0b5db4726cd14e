import LockAudit.Proofs.Audit.Matching
import LockAudit.Report.Basic

/-!
# What a verdict says

An audit fails when some record exposes some dependency and counts at least as much
as the threshold. That is what a report is for, and `verdict_exact` says how far it
goes: from the feed and the graph to the exit status, with the two places where a
number over the limit gets in the way.
-/

namespace LockAudit

open Lockfile (Node Graph)
open Advisory (Record Index Feed WithdrawnPolicy)

namespace Report

variable {setting : Setting} {findings : List Finding} {suppressed : List SuppressedFinding}
  {diagnostics : List Diagnostic}

theorem verdict_eq_fail {report : Report} :
    report.verdict = .fail ↔ ∃ e ∈ report.entries, report.threshold ≤ e.severity := by
  unfold verdict failing
  split
  · rename_i h
    simp only [List.isEmpty_iff, List.filter_eq_nil_iff, decide_eq_true_eq] at h
    simpa using h
  · rename_i h
    simp only [List.isEmpty_iff, List.filter_eq_nil_iff, decide_eq_true_eq] at h
    simpa using h

theorem exitCode_eq_one {report : Report} : report.exitCode = 1 ↔ report.verdict = .fail := by
  unfold exitCode
  cases report.verdict <;> simp [Verdict.exitCode]

/-- Sorting the entries and adding paths to them has no part in the verdict. -/
theorem verdict_of :
    (Report.of setting findings suppressed diagnostics).verdict = .fail ↔
      ∃ f ∈ findings, setting.threshold ≤ effectiveSeverity setting.escalateDirect f := by
  rw [verdict_eq_fail]
  unfold Report.of
  simp only [List.mem_mergeSort, List.mem_map]
  refine ⟨?_, ?_⟩
  · intro h
    obtain ⟨_, ⟨f, hf, rfl⟩, hsevere⟩ := h
    exact ⟨f, hf, hsevere⟩
  · intro h
    obtain ⟨f, hf, hsevere⟩ := h
    exact ⟨_, ⟨f, hf, rfl⟩, hsevere⟩

/--
**What an audit's verdict says.** Take any index that was loaded from a feed, any
graph and any suppressions.

Matching gives a result exactly when the label of every suppression can be written
that is over or accepts nothing. If it does, the report fails, and the exit status
is 1, exactly when a record of the index exposes a dependency of the graph and
counts at least as much as the threshold; but a package is passed over as a whole
if the version of an exposed dependency on it cannot be written.
-/
theorem verdict_exact {policy : WithdrawnPolicy} {f : Feed} {index : Index}
    (hload : f.load policy = .ok index) (now : Calendar.Instant) (suppressions : List Suppression)
    (g : Graph) (setting : Setting) :
    ((∃ m, matchGraph (.zoned now) suppressions g index = .ok m) ↔
      ∀ s ∈ suppressions.zipIdx, s.1.isExpired now = false ∧
        IsUsed now suppressions g index s.2 ∨ s.1.isWritable = true) ∧
    ∀ m, matchGraph (.zoned now) suppressions g index = .ok m → ∀ diagnostics,
      ((Report.of setting m.findings m.suppressed diagnostics).exitCode = 1 ↔
        (Report.of setting m.findings m.suppressed diagnostics).verdict = .fail) ∧
      ((Report.of setting m.findings m.suppressed diagnostics).verdict = .fail ↔
        ∃ n ∈ g.nodes, ∃ r ∈ index.records, Exposes now suppressions n r ∧
          CanLog now suppressions g index n.group ∧
          setting.threshold ≤ effectiveSeverity setting.escalateDirect ⟨n, r⟩) := by
  -- a loaded index has each record under its own package, so the findings can be told by record
  have hgrouped : index.IsGrouped := Feed.load_isGrouped hload
  refine ⟨matchGraph_ok hgrouped, fun m hm diagnostics => ⟨exitCode_eq_one, ?_⟩⟩
  rw [verdict_of]
  refine ⟨?_, ?_⟩
  · intro h
    obtain ⟨finding, hfinding, hsevere⟩ := h
    obtain ⟨hn, hr, hexposes, hlog⟩ := (mem_findings hgrouped hm).mp hfinding
    exact ⟨finding.node, hn, finding.record, hr, hexposes, hlog, hsevere⟩
  · intro h
    obtain ⟨n, hn, r, hr, hexposes, hlog, hsevere⟩ := h
    have hfinding : ⟨n, r⟩ ∈ m.findings :=
      (mem_findings hgrouped hm).mpr ⟨hn, hr, hexposes, hlog⟩
    exact ⟨⟨n, r⟩, hfinding, hsevere⟩

/-- The start of the calendar. -/
def sampleInstant : Calendar.Instant :=
  (Calendar.Instant.ofUnix? 0).get (by decide)

/-- A feed with one entry. -/
def sampleFeed : Feed where
  bytes := Text.Utf8.encode
    "[\x7b\"id\":\"A\",\"package\":\"p\",\"affected\":\"*\",\"severity\":\"low\"\x7d]".toList
  fetchedAt := sampleInstant
  origin := ""

/-- The record that the entry states. -/
def sampleRecord : Record :=
  { id := "A", package := "p", affected := ⟨[[]], "*"⟩, patched := .empty, severity := .low }

/-- A graph with one dependency. -/
def sampleGraph : Graph := { nodes := [⟨"p", .release 1 0 0, "s", true⟩] }

/-- A suppression that is over, with a version too long to be written. -/
def sampleSuppression : Suppression where
  reason := "r"
  package := some "q"
  version := some ⟨[[⟨.lt, .release (Nat.pow 10 Number.digitLimit) 0 0⟩]], ""⟩
  expires := some sampleInstant
  named := rfl

/-- The dependency is exposed, and the report fails; but with the suppression, which has
nothing to do with it, there is no report. -/
theorem verdict_exact_sample :
    ∃ index, sampleFeed.load .retain = .ok index ∧
      (∃ m, matchGraph (.zoned sampleInstant) [] sampleGraph index = .ok m ∧
        (Report.of {} m.findings m.suppressed []).verdict = .fail) ∧
      ¬ ∃ m, matchGraph (.zoned sampleInstant) [sampleSuppression] sampleGraph index = .ok m := by
  have hload : sampleFeed.load .retain =
      .ok (({ kept := [sampleRecord] } : Advisory.Load).index sampleInstant "") :=
    Result.ok_of_toOption (by decide +kernel)
  refine ⟨_, hload, ?_, ?_⟩
  · have hexact := verdict_exact hload sampleInstant [] sampleGraph {}
    obtain ⟨m, hm⟩ := hexact.1.mpr (by simp)
    refine ⟨m, hm, ((hexact.2 m hm []).2).mpr ⟨_, List.mem_singleton.mpr rfl, sampleRecord, ?_⟩⟩
    refine ⟨by decide +kernel, ⟨rfl, rfl, by decide, Or.inl rfl, by simp⟩, ?_, by decide⟩
    intro n hn _ _ _ _
    obtain rfl := List.mem_singleton.mp hn
    decide +kernel
  · rw [(verdict_exact hload sampleInstant [sampleSuppression] sampleGraph {}).1]
    intro h
    rcases h (sampleSuppression, 0) (by decide +kernel) with ⟨hover, _⟩ | hwritable
    · exact absurd hover (by decide)
    · exact absurd hwritable (by decide +kernel)

end Report

end LockAudit
