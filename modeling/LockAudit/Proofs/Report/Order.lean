import LockAudit.Proofs.Lockfile.Canonical
import LockAudit.Proofs.Report.Verdict
import LockAudit.Proofs.Sorting

/-!
# What a report owes to the order of the findings

A report sorts what it is given: entries by severity and then by finding, suppressed
findings by finding alone. The order of findings looks at the package as it is looked up,
at the record's id, and at the version and the source of the dependency. It looks neither
at the spelling of the dependency's name nor at that of the record's package, and so two
different findings can tie: those of two dependencies whose names differ in a hyphen, or
those of two records with one id. Ties stay in the order in which they were given.

So a report shows nothing of that order exactly if the findings are told apart by what
the order looks at. What is counted never depends on it.
-/

namespace LockAudit

open Lockfile (Node Graph)
open Advisory (Record Index)

/-- What the order of findings looks at. -/
def Finding.rank (f : Finding) : String × String × Precedence × String :=
  (f.node.group, f.record.id, f.node.version.toPrecedence, f.node.source)

namespace Report

namespace Entry

/-! ## The comparisons -/

/-- The order of findings compares one part after the other. -/
theorem orderFindings_eq_compareLex :
    orderFindings = compareLex (compareOn fun f => f.node.group)
      (compareLex (compareOn fun f => f.record.id)
        (compareLex (fun a b => a.node.version.order b.node.version.toPrecedence)
          (compareOn fun f => f.node.source))) := rfl

instance : Std.TransCmp orderFindings := by
  have : Std.TransCmp fun a b : Finding => a.node.version.order b.node.version.toPrecedence :=
    Sorting.transCmp_on Precedence.order fun f : Finding => f.node.version.toPrecedence
  rw [orderFindings_eq_compareLex]
  infer_instance

/-- Findings tie that are of one rank. -/
theorem orderFindings_eq {a b : Finding} : orderFindings a b = .eq ↔ a.rank = b.rank := by
  unfold orderFindings Finding.rank
  rw [Ordering.then_eq_eq, Ordering.then_eq_eq, Ordering.then_eq_eq,
    Std.LawfulEqCmp.compare_eq_iff_eq, Std.LawfulEqCmp.compare_eq_iff_eq,
    Std.LawfulEqCmp.compare_eq_iff_eq, Std.LawfulEqCmp.compare_eq_iff_eq, Prod.mk.injEq,
    Prod.mk.injEq, Prod.mk.injEq]

/-- Entries are compared by severity, the worst first, and then by finding. -/
theorem order_eq_compareLex :
    order = compareLex (fun a b => compare b.severity.rank a.severity.rank)
      (fun a b => orderFindings a.finding b.finding) := rfl

instance : Std.TransCmp fun a b : Entry => orderFindings a.finding b.finding :=
  Sorting.transCmp_on orderFindings Entry.finding

instance : Std.TransCmp order := by
  have : Std.TransCmp fun a b : Entry => compare b.severity.rank a.severity.rank :=
    Sorting.transCmp_on (fun a b : Nat => compare b a) fun e : Entry => e.severity.rank
  rw [order_eq_compareLex]
  infer_instance

instance : Std.TransCmp fun a b : SuppressedFinding => orderFindings a.finding b.finding :=
  Sorting.transCmp_on orderFindings SuppressedFinding.finding

/-- Entries tie that are of one severity and whose findings are of one rank. -/
theorem order_eq {a b : Entry} :
    a.order b = .eq ↔ a.severity = b.severity ∧ a.finding.rank = b.finding.rank := by
  have hseverity : compare b.severity.rank a.severity.rank = .eq ↔ a.severity = b.severity := by
    rw [Std.LawfulEqCmp.compare_eq_iff_eq]
    cases a.severity <;> cases b.severity <;> decide
  unfold order
  rw [Ordering.then_eq_eq, hseverity, orderFindings_eq]

end Entry

/-! ## Findings that are told apart -/

/-- The findings are told apart by the severities they count as and by their ranks. -/
def TellsApart (s : Setting) (findings : List Finding) : Prop :=
  ∀ f ∈ findings, ∀ f' ∈ findings,
    effectiveSeverity s.escalateDirect f = effectiveSeverity s.escalateDirect f' →
      f.rank = f'.rank → f = f'

/-- The suppressed findings are told apart by the ranks of their findings. -/
def TellsApartSuppressed (suppressed : List SuppressedFinding) : Prop :=
  ∀ a ∈ suppressed, ∀ b ∈ suppressed, a.finding.rank = b.finding.rank → a = b

variable {s : Setting} {findings : List Finding} {suppressed : List SuppressedFinding}

theorem separates_entries :
    Sorting.Separates Entry.order (findings.map (Entry.of s)) ↔ TellsApart s findings := by
  unfold Sorting.Separates TellsApart
  rw [List.forall_mem_map]
  refine forall₂_congr fun f _ => ?_
  rw [List.forall_mem_map]
  refine forall₂_congr fun f' _ => ?_
  rw [Entry.order_eq]
  refine ⟨?_, ?_⟩
  · intro h hseverity hrank
    exact congrArg Entry.finding (h ⟨hseverity, hrank⟩)
  · intro h htie
    rw [h htie.1 htie.2]

theorem separates_suppressed :
    Sorting.Separates (fun a b : SuppressedFinding => Entry.orderFindings a.finding b.finding)
      suppressed ↔ TellsApartSuppressed suppressed := by
  unfold Sorting.Separates TellsApartSuppressed
  simp only [Entry.orderFindings_eq]

/-! ## Another order of the same findings -/

section Reordering

variable {findings' : List Finding} {suppressed' : List SuppressedFinding}
  {diagnostics : List Diagnostic}

/-- What a report counts depends on which entries it has, in whatever order. -/
theorem count_of_perm {r r' : Report} (h : r'.entries.Perm r.entries) (severity : Severity) :
    r'.count severity = r.count severity :=
  h.countP_eq _

theorem verdict_of_perm {r r' : Report} (h : r'.entries.Perm r.entries)
    (hthreshold : r'.threshold = r.threshold) :
    r'.verdict = r.verdict := by
  have hempty : r'.failing.isEmpty = r.failing.isEmpty := by
    unfold failing
    rw [hthreshold]
    exact (h.filter _).isEmpty_eq
  unfold verdict
  rw [hempty]

theorem entries_perm (hf : findings'.Perm findings) :
    (Report.of s findings' suppressed' diagnostics).entries.Perm
      (Report.of s findings suppressed diagnostics).entries :=
  ((List.mergeSort_perm _ _).trans (hf.map _)).trans (List.mergeSort_perm _ _).symm

theorem suppressed_perm (hs : suppressed'.Perm suppressed) :
    (Report.of s findings' suppressed' diagnostics).suppressed.Perm
      (Report.of s findings suppressed diagnostics).suppressed :=
  ((List.mergeSort_perm _ _).trans hs).trans (List.mergeSort_perm _ _).symm

/-- Two reports on one setting with the same sequences are the same. -/
theorem of_eq_iff :
    Report.of s findings' suppressed' diagnostics = Report.of s findings suppressed diagnostics ↔
      (Report.of s findings' suppressed' diagnostics).entries =
          (Report.of s findings suppressed diagnostics).entries ∧
        (Report.of s findings' suppressed' diagnostics).suppressed =
          (Report.of s findings suppressed diagnostics).suppressed := by
  simp [Report.of]

theorem exists_perm_of_entries {entries : List Entry}
    (h : entries.Perm (findings.map (Entry.of s))) :
    ∃ findings' : List Finding, findings'.Perm findings ∧ entries = findings'.map (Entry.of s) := by
  have hentry : ∀ e ∈ entries, Entry.of s e.finding = e := by
    intro e he
    obtain ⟨f, _, rfl⟩ := List.mem_map.mp (h.mem_iff.mp he)
    rfl
  refine ⟨entries.map Entry.finding, ?_, ?_⟩
  · have hfindings := h.map Entry.finding
    rwa [List.map_map, show Entry.finding ∘ Entry.of s = id from rfl, List.map_id] at hfindings
  · rw [List.map_map]
    exact (List.map_id' entries).symm.trans (List.map_congr_left fun e he => (hentry e he).symm)

/-- The report is the same for every order exactly if what it is given is told apart. -/
theorem forall_perm_iff (diagnostics : List Diagnostic) :
    (∀ findings' suppressed', findings'.Perm findings → suppressed'.Perm suppressed →
      Report.of s findings' suppressed' diagnostics = Report.of s findings suppressed diagnostics) ↔
      TellsApart s findings ∧ TellsApartSuppressed suppressed := by
  rw [← separates_entries, ← separates_suppressed, ← Sorting.perm_iff, ← Sorting.perm_iff]
  refine ⟨?_, ?_⟩
  · intro h
    refine ⟨?_, ?_⟩
    · intro entries hentries
      -- an order of the entries comes from one of the findings
      obtain ⟨findings', hf, rfl⟩ := exists_perm_of_entries hentries
      exact (of_eq_iff.mp (h findings' suppressed hf (.refl _))).1
    · intro suppressed' hs
      exact (of_eq_iff.mp (h findings suppressed' (.refl _) hs)).2
  · intro h findings' suppressed' hf hs
    exact of_eq_iff.mpr ⟨h.1 _ (hf.map _), h.2 _ hs⟩

end Reordering

/-! ## What a match hands over -/

section Match

variable {clock : Calendar.ClockReading} {suppressions : List Suppression} {g : Graph}
  {index : Index} {m : Matching}

/-- A finding of a match is about a dependency of the graph and a record for its package,
and comes to what the judge says. -/
theorem findings_sound (hm : matchGraph clock suppressions g index = .ok m) {f : Finding}
    (hf : f ∈ m.findings) :
    f.node ∈ g.nodes ∧ f.record ∈ index.query f.node.name := by
  obtain ⟨about, _, rfl⟩ := matchWith_ok.mp hm
  obtain ⟨j, hj, hvulnerable⟩ := List.mem_filterMap.mp hf
  obtain ⟨hn, hr, _⟩ := judgements_sound hj
  unfold Judgement.vulnerable? at hvulnerable
  split at hvulnerable
  · cases hvulnerable
    exact ⟨hn, hr⟩
  · exact absurd hvulnerable (by simp)

theorem suppressed_sound (hm : matchGraph clock suppressions g index = .ok m)
    {x : SuppressedFinding} (hx : x ∈ m.suppressed) :
    x.finding.node ∈ g.nodes ∧ x.finding.record ∈ index.query x.finding.node.name ∧
      ∃ position, Judge.standard clock suppressions x.finding.node x.finding.record =
        .ok (.suppressed position x.suppression) := by
  obtain ⟨about, _, rfl⟩ := matchWith_ok.mp hm
  obtain ⟨j, hj, hsuppressed⟩ := List.mem_filterMap.mp hx
  obtain ⟨hn, hr, hjudge⟩ := judgements_sound hj
  unfold Judgement.suppressed? at hsuppressed
  split at hsuppressed
  · rename_i position cause houtcome
    cases hsuppressed
    rw [houtcome] at hjudge
    exact ⟨hn, hr, position, hjudge⟩
  · exact absurd hsuppressed (by simp)

/-- No two records that a dependency is judged against have one id. -/
def IdsDiffer (g : Graph) (index : Index) : Prop :=
  ∀ n ∈ g.nodes, ∀ r ∈ index.query n.name, ∀ r' ∈ index.query n.name, r.id = r'.id → r = r'

/-- Where dependencies have different ranks and records different ids, findings do not
tie. -/
theorem eq_of_rank_eq (hg : Lockfile.Separated g.nodes) (hindex : IdsDiffer g index)
    {f f' : Finding} (hn : f.node ∈ g.nodes) (hr : f.record ∈ index.query f.node.name)
    (hn' : f'.node ∈ g.nodes) (hr' : f'.record ∈ index.query f'.node.name)
    (hrank : f.rank = f'.rank) :
    f = f' := by
  obtain ⟨n, r⟩ := f
  obtain ⟨n', r'⟩ := f'
  simp only [Finding.rank, Prod.mk.injEq] at hrank
  obtain ⟨hgroup, hid, hversion, hsource⟩ := hrank
  have hnode : n.rank = n'.rank := Prod.ext hgroup (Prod.ext hversion hsource)
  obtain rfl : n = n' := List.inj_on_of_nodup_map hg hn hn' hnode
  obtain rfl : r = r' := hindex n hn r hr r' hr' hid
  rfl

theorem tellsApart_of_match (hm : matchGraph clock suppressions g index = .ok m) (s : Setting)
    (hg : Lockfile.Separated g.nodes) (hindex : IdsDiffer g index) :
    TellsApart s m.findings ∧ TellsApartSuppressed m.suppressed := by
  refine ⟨?_, ?_⟩
  · intro f hf f' hf' _ hrank
    obtain ⟨hn, hr⟩ := findings_sound hm hf
    obtain ⟨hn', hr'⟩ := findings_sound hm hf'
    exact eq_of_rank_eq hg hindex hn hr hn' hr' hrank
  · intro a ha b hb hrank
    obtain ⟨hn, hr, position, hjudge⟩ := suppressed_sound hm ha
    obtain ⟨hn', hr', position', hjudge'⟩ := suppressed_sound hm hb
    have hfinding : a.finding = b.finding := eq_of_rank_eq hg hindex hn hr hn' hr' hrank
    -- the same finding is judged the same way
    rw [hfinding, hjudge'] at hjudge
    simp only [Except.ok.injEq, Outcome.suppressed.injEq] at hjudge
    obtain ⟨x, cause⟩ := a
    obtain ⟨y, cause'⟩ := b
    simp_all

/--
**What a report owes to the order in which a match is handed over.** Take the findings and
the suppressed findings of any match, and any other order of the two.

The reports on them hold the same entries and count the same, and so agree on the verdict.
They are the same report, with the same text, if the findings are told apart by severity
and rank and the suppressed ones by rank; and if not, some order gives another sequence.
It is enough that no two dependencies of the graph are of one rank and no two records for
a dependency have one id.
-/
theorem input_order_exact (hm : matchGraph clock suppressions g index = .ok m) (s : Setting)
    (diagnostics : List Diagnostic) :
    let report := Report.of s m.findings m.suppressed diagnostics
    (∀ findings suppressed, findings.Perm m.findings → suppressed.Perm m.suppressed →
      let other := Report.of s findings suppressed diagnostics
      other.entries.Perm report.entries ∧ other.suppressed.Perm report.suppressed ∧
        other.counts = report.counts ∧ other.verdict = report.verdict ∧
        other.exitCode = report.exitCode ∧
        other = { report with entries := other.entries, suppressed := other.suppressed } ∧
        (TellsApart s m.findings ∧ TellsApartSuppressed m.suppressed →
          other = report ∧ other.dump = report.dump)) ∧
    (¬ (TellsApart s m.findings ∧ TellsApartSuppressed m.suppressed) →
      ∃ findings suppressed, findings.Perm m.findings ∧ suppressed.Perm m.suppressed ∧
        let other := Report.of s findings suppressed diagnostics
        other.entries ≠ report.entries ∨ other.suppressed ≠ report.suppressed) ∧
    (Lockfile.Separated g.nodes → IdsDiffer g index →
      TellsApart s m.findings ∧ TellsApartSuppressed m.suppressed) := by
  refine ⟨?_, ?_, tellsApart_of_match hm s⟩
  · intro findings suppressed hf hs
    have hentries : (Report.of s findings suppressed diagnostics).entries.Perm
        (Report.of s m.findings m.suppressed diagnostics).entries := entries_perm hf
    have hverdict : (Report.of s findings suppressed diagnostics).verdict =
        (Report.of s m.findings m.suppressed diagnostics).verdict := verdict_of_perm hentries rfl
    refine ⟨hentries, suppressed_perm hs, ?_, hverdict, ?_, rfl, ?_⟩
    · unfold counts
      simp only [count_of_perm hentries]
    · unfold exitCode
      rw [hverdict]
    · intro h
      have hsame : Report.of s findings suppressed diagnostics =
          Report.of s m.findings m.suppressed diagnostics :=
        (forall_perm_iff diagnostics).mpr h findings suppressed hf hs
      exact ⟨hsame, congrArg dump hsame⟩
  · intro htied
    by_contra hnone
    -- if no order of the findings changed either list, all would give the same report
    refine htied ((forall_perm_iff diagnostics).mp fun findings suppressed hf hs => ?_)
    by_contra hne
    rw [of_eq_iff, not_and_or] at hne
    exact hnone ⟨findings, suppressed, hf, hs, hne⟩

/-- Two dependencies whose names differ in a hyphen. -/
def hyphenNodes : List Node :=
  [⟨"a-b", .release 1 0 0, "s", true⟩, ⟨"a_b", .release 1 0 0, "s", true⟩]

/-- The graph of the two. -/
def hyphenGraph : Graph where
  nodes := hyphenNodes
  distinct := by decide

/-- A record that is about both. -/
def hyphenRecord : Record := { sampleRecord with package := "a-b" }

/-- Both dependencies are found, and the two orders of them give different reports. -/
theorem input_order_exact_hyphen :
    ∃ m, matchGraph (.zoned sampleInstant) [] hyphenGraph
        (({ kept := [hyphenRecord] } : Advisory.Load).index sampleInstant "") = .ok m ∧
      ∃ findings suppressed, findings.Perm m.findings ∧ suppressed.Perm m.suppressed ∧
        ((Report.of {} findings suppressed []).entries ≠
            (Report.of {} m.findings m.suppressed []).entries ∨
          (Report.of {} findings suppressed []).suppressed ≠
            (Report.of {} m.findings m.suppressed []).suppressed) := by
  have hfindings : (matchGraph (.zoned sampleInstant) [] hyphenGraph
      (({ kept := [hyphenRecord] } : Advisory.Load).index sampleInstant "")).toOption.map
        (·.findings) = some (hyphenNodes.map fun n => ⟨n, hyphenRecord⟩) := by decide +kernel
  obtain ⟨m, hm, hfound⟩ := Option.map_eq_some_iff.mp hfindings
  have hm := Result.ok_of_toOption hm
  refine ⟨m, hm, (input_order_exact hm {} []).2.1 ?_⟩
  intro h
  obtain ⟨hapart, _⟩ := h
  rw [hfound] at hapart
  have hsame := hapart _ List.mem_cons_self _ (List.mem_cons_of_mem _ List.mem_cons_self) rfl
    (by decide +kernel)
  exact absurd hsame (by decide)

end Match

end Report

end LockAudit
