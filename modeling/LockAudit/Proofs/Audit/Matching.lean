import LockAudit.Proofs.Advisory.Index
import LockAudit.Proofs.Audit.Outcome
import LockAudit.Proofs.Sorting

/-!
# What matching finds

Matching goes package by package. It joins what it finds, and a package that
cannot be judged takes only its own findings with it. Two lemmas carry this module:
`mem_judgements` says what is in the joined list, and `suppressionDiagnostics_ok`
says when the diagnostics at the end can be written. From them it follows when
matching gives a result at all, and which findings are in it.

Two things are written out on the way, and either may hold a number that is over the
limit. The version of a vulnerable dependency goes to the log, where a failure costs
the package its findings. The label of a suppression goes into a diagnostic, where a
failure costs the whole match.
-/

namespace LockAudit

open Lockfile (Node Graph)
open Advisory (Record Index)

variable {now : Calendar.Instant} {suppressions : List Suppression} {g : Graph} {index : Index}
  {package : String}

/-! ## One dependency, one record -/

/-- All exposed dependencies on a package have versions that can be logged. -/
def CanLog (now : Calendar.Instant) (suppressions : List Suppression) (g : Graph) (index : Index)
    (package : String) : Prop :=
  ∀ n ∈ g.nodes, n.group = package → ∀ r ∈ index.records,
    Exposes now suppressions n r → n.version.isWritable = true

/-- What a finding comes to. -/
def judged (now : Calendar.Instant) (suppressions : List Suppression) (f : Finding) : Judgement :=
  ⟨f, outcome now suppressions f.node f.record⟩

theorem standard_ok {n : Node} {r : Record}
    (h : outcome now suppressions n r = .vulnerable → n.version.isWritable = true) :
    Judge.standard (.zoned now) suppressions n r = .ok (outcome now suppressions n r) := by
  unfold Judge.standard evaluate
  by_cases hv : outcome now suppressions n r = .vulnerable
  · simp [hv, h hv]
  · simp [hv]

theorem standard_error {n : Node} {r : Record}
    (hv : outcome now suppressions n r = .vulnerable) (hw : n.version.isWritable = false) :
    Judge.standard (.zoned now) suppressions n r = .error (.oversized .written) := by
  unfold Judge.standard evaluate
  simp [hv, hw]

/-! ## One package -/

theorem canonical_group (n : Node) : PackageName.canonical n.group = n.group :=
  PackageName.canonical_canonical n.name

/-- The records for the group of a dependency are those for the dependency. -/
theorem query_group (n : Node) : index.query n.group = index.query n.name :=
  Index.query_canonical

theorem mem_packageFindings (h : index.IsGrouped) {f : Finding} :
    f ∈ packageFindings g index package ↔
      f.node ∈ g.nodes ∧ f.node.group = package ∧ f.record ∈ index.records ∧
        f.record.group = f.node.group := by
  obtain ⟨n, r⟩ := f
  unfold packageFindings
  simp only [List.mem_flatMap, List.mem_filter, List.mem_map, beq_iff_eq]
  refine ⟨?_, ?_⟩
  · intro h
    obtain ⟨n', ⟨hn, rfl⟩, r', hr, heq⟩ := h
    cases heq
    rw [Index.mem_query h, canonical_group] at hr
    exact ⟨hn, rfl, hr.1, hr.2⟩
  · intro h
    obtain ⟨hn, rfl, hr, hgroup⟩ := h
    refine ⟨n, ⟨hn, rfl⟩, r, ?_, rfl⟩
    rw [Index.mem_query h, canonical_group]
    exact ⟨hr, hgroup⟩

theorem judgePackage_ok (h : index.IsGrouped) (hlog : CanLog now suppressions g index package) :
    judgePackage (.standard (.zoned now) suppressions) g index package =
      .ok ((packageFindings g index package).map (judged now suppressions)) := by
  refine Result.mapM_eq_map fun f hf => ?_
  obtain ⟨hn, hpackage, hr, hgroup⟩ := (mem_packageFindings h).mp hf
  have hwritable : outcome now suppressions f.node f.record = .vulnerable →
      f.node.version.isWritable = true := by
    intro hv
    have hexposes := (exposes_iff hgroup).mpr hv
    exact hlog f.node hn hpackage f.record hr hexposes
  rw [standard_ok hwritable]
  rfl

theorem judgePackage_error (h : index.IsGrouped) (hlog : ¬ CanLog now suppressions g index package) :
    ∃ cause, judgePackage (.standard (.zoned now) suppressions) g index package = .error cause := by
  cases hjudge : judgePackage (.standard (.zoned now) suppressions) g index package with
  | error cause => exact ⟨cause, rfl⟩
  | ok judgements =>
      -- a package that is judged has no version that stops the log
      refine absurd ?_ hlog
      intro n hn hpackage r hr hexposes
      have hf : ⟨n, r⟩ ∈ packageFindings g index package :=
        (mem_packageFindings h).mpr ⟨hn, hpackage, hr, hexposes.samePackage⟩
      obtain ⟨j, hj⟩ := Result.mapM_ok.mp ⟨judgements, hjudge⟩ _ hf
      have hv : outcome now suppressions n r = .vulnerable :=
        (exposes_iff hexposes.samePackage).mp hexposes
      cases hw : n.version.isWritable with
      | true => rfl
      | false =>
          rw [standard_error hv hw] at hj
          exact absurd hj (by simp)

theorem mem_packageResult (h : index.IsGrouped) {j : Judgement} :
    j ∈ (packageResult (.standard (.zoned now) suppressions) g index package).1 ↔
      CanLog now suppressions g index package ∧ j.finding ∈ packageFindings g index package ∧
        j = judged now suppressions j.finding := by
  unfold packageResult
  by_cases hlog : CanLog now suppressions g index package
  · rw [judgePackage_ok h hlog]
    simp only [List.mem_map, hlog, true_and]
    refine ⟨?_, ?_⟩
    · intro h
      obtain ⟨f, hf, rfl⟩ := h
      exact ⟨hf, rfl⟩
    · intro h
      obtain ⟨hf, hj⟩ := h
      exact ⟨j.finding, hf, hj.symm⟩
  · obtain ⟨cause, hcause⟩ := judgePackage_error h hlog
    rw [hcause]
    simp [hlog]

/-- A package is judged by the groups of an index, whatever else there is to it. -/
theorem packageResult_congr {index' : Index} (h : index'.groups = index.groups) (judge : Judge) :
    packageResult judge g index' = packageResult judge g index := by
  have hquery : index'.query = index.query := by
    unfold Index.query
    rw [h]
  unfold packageResult judgePackage packageFindings
  rw [hquery]

/-! ## All packages -/

/-- The judgements on all packages, joined. -/
def judgements (judge : Judge) (g : Graph) (index : Index) : List Judgement :=
  ((packageNames g).map (packageResult judge g index)).flatMap (·.1)

/-- What is found is about a dependency of the graph and a record for its package, and
comes to what the judge says. -/
theorem judgements_sound {judge : Judge} {j : Judgement} (h : j ∈ judgements judge g index) :
    j.finding.node ∈ g.nodes ∧ j.finding.record ∈ index.query j.finding.node.name ∧
      judge j.finding.node j.finding.record = .ok j.outcome := by
  unfold judgements at h
  obtain ⟨_, hresult, hj⟩ := List.mem_flatMap.mp h
  obtain ⟨package, _, rfl⟩ := List.mem_map.mp hresult
  unfold packageResult at hj
  split at hj
  · rename_i js hjudged
    obtain ⟨f, hf, hjudge⟩ := (Result.mem_of_mapM hjudged).mp hj
    obtain ⟨found, hfound, hpure⟩ := Result.bind_ok.mp hjudge
    cases hpure
    obtain ⟨n, hn, hr⟩ := List.mem_flatMap.mp hf
    obtain ⟨hmem, hpackage⟩ := List.mem_filter.mp hn
    obtain ⟨r, hrecord, rfl⟩ := List.mem_map.mp hr
    -- the package is the one of the dependency, so it finds the same records
    rw [← beq_iff_eq.mp hpackage, Lockfile.Node.group, Index.query_canonical] at hrecord
    exact ⟨hmem, hrecord, hfound⟩
  · exact absurd hj List.not_mem_nil

theorem mem_packageNames : package ∈ packageNames g ↔ ∃ n ∈ g.nodes, n.group = package := by
  simp [packageNames, List.mem_mergeSort]

theorem packageNames_nodup (g : Graph) : (packageNames g).Nodup :=
  (List.mergeSort_perm _ _).nodup_iff.mpr (Sorting.nodup_eraseDups _)

/-- **What is found in a graph**: every dependency with every record for its package,
unless the package could not be judged. -/
theorem mem_judgements (h : index.IsGrouped) {j : Judgement} :
    j ∈ judgements (.standard (.zoned now) suppressions) g index ↔
      j.finding.node ∈ g.nodes ∧ j.finding.record ∈ index.records ∧
        j.finding.record.group = j.finding.node.group ∧
        CanLog now suppressions g index j.finding.node.group ∧
        j = judged now suppressions j.finding := by
  unfold judgements
  simp only [List.mem_flatMap, List.mem_map]
  refine ⟨?_, ?_⟩
  · intro h
    obtain ⟨_, ⟨package, _, rfl⟩, hj⟩ := h
    obtain ⟨hlog, hf, hjudged⟩ := (mem_packageResult h).mp hj
    obtain ⟨hn, rfl, hr, hgroup⟩ := (mem_packageFindings h).mp hf
    exact ⟨hn, hr, hgroup, hlog, hjudged⟩
  · intro h
    obtain ⟨hn, hr, hgroup, hlog, hjudged⟩ := h
    -- a node's own package is walked, and there the finding is met
    have hpackage : j.finding.node.group ∈ packageNames g :=
      mem_packageNames.mpr ⟨j.finding.node, hn, rfl⟩
    have hf : j.finding ∈ packageFindings g index j.finding.node.group :=
      (mem_packageFindings h).mpr ⟨hn, rfl, hr, hgroup⟩
    refine ⟨_, ⟨j.finding.node.group, hpackage, rfl⟩, ?_⟩
    exact (mem_packageResult h).mpr ⟨hlog, hf, hjudged⟩

/-- The finding is a vulnerability that a match reports. -/
structure IsReported (now : Calendar.Instant) (suppressions : List Suppression) (g : Graph)
    (index : Index) (f : Finding) : Prop where
  node : f.node ∈ g.nodes
  record : f.record ∈ index.records
  exposes : Exposes now suppressions f.node f.record
  canLog : CanLog now suppressions g index f.node.group

theorem mem_vulnerable (h : index.IsGrouped) {f : Finding} :
    f ∈ (judgements (.standard (.zoned now) suppressions) g index).filterMap (·.vulnerable?) ↔
      IsReported now suppressions g index f := by
  rw [List.mem_filterMap]
  refine ⟨?_, ?_⟩
  · intro h
    obtain ⟨j, hj, hf⟩ := h
    obtain ⟨hn, hr, hgroup, hlog, hjudged⟩ := (mem_judgements h).mp hj
    unfold Judgement.vulnerable? at hf
    split at hf
    · rename_i hv
      cases hf
      rw [hjudged] at hv
      -- judged vulnerable: in the range, and no suppression in force applies
      have hexposes := (exposes_iff hgroup).mpr hv
      exact ⟨hn, hr, hexposes, hlog⟩
    · exact absurd hf (by simp)
  · intro h
    obtain ⟨hn, hr, hexposes, hlog⟩ := h
    have hv : outcome now suppressions f.node f.record = .vulnerable :=
      (exposes_iff hexposes.samePackage).mp hexposes
    refine ⟨judged now suppressions f, (mem_judgements h).mpr ?_, ?_⟩
    · exact ⟨hn, hr, hexposes.samePackage, hlog, rfl⟩
    · simp [Judgement.vulnerable?, judged, hv]

/-! ## Suppressions -/

/-- The label of the suppression can be written. -/
def Suppression.isWritable (s : Suppression) : Bool := s.version.all (·.isWritable)

theorem Suppression.label_ok {s : Suppression} :
    (∃ label, s.label = .ok label) ↔ s.isWritable = true := by
  unfold label labelParts isWritable
  cases s.version with
  | none => simp
  | some range => cases h : range.isWritable <;> simp [VersionRange.text?, h]

/-- The suppression at a position accepts some finding of a match. -/
def IsUsed (now : Calendar.Instant) (suppressions : List Suppression) (g : Graph) (index : Index)
    (position : Nat) : Prop :=
  ∃ n ∈ g.nodes, ∃ r ∈ index.records, r.group = n.group ∧
    r.concerns n.version.toPrecedence = true ∧
    (∃ s, firstInForce now suppressions n r = some (s, position)) ∧
    CanLog now suppressions g index n.group

theorem mem_used (h : index.IsGrouped) {position : Nat} :
    position ∈ (judgements (.standard (.zoned now) suppressions) g index).filterMap (·.used?) ↔
      IsUsed now suppressions g index position := by
  rw [List.mem_filterMap]
  refine ⟨?_, ?_⟩
  · intro h
    obtain ⟨j, hj, hp⟩ := h
    obtain ⟨hn, hr, hgroup, hlog, hjudged⟩ := (mem_judgements h).mp hj
    unfold Judgement.used? at hp
    split at hp
    · rename_i s hs
      cases hp
      rw [hjudged] at hs
      -- a judgement names the first suppression in force
      obtain ⟨hconcerns, hfirst⟩ := outcome_eq_suppressed.mp hs
      exact ⟨_, hn, _, hr, hgroup, hconcerns, ⟨_, hfirst⟩, hlog⟩
    · exact absurd hp (by simp)
  · intro h
    obtain ⟨n, hn, r, hr, hgroup, hconcerns, ⟨s, hfirst⟩, hlog⟩ := h
    have hs : outcome now suppressions n r = .suppressed position s :=
      outcome_eq_suppressed.mpr ⟨hconcerns, hfirst⟩
    refine ⟨judged now suppressions ⟨n, r⟩, (mem_judgements h).mpr ?_, ?_⟩
    · exact ⟨hn, hr, hgroup, hlog, rfl⟩
    · simp [Judgement.used?, judged, hs]

theorem suppressionDiagnostic_ok {used : List Nat} {s : Suppression × Nat} :
    (∃ found, suppressionDiagnostic (.zoned now) used s = .ok found) ↔
      s.1.isExpired now = false ∧ s.2 ∈ used ∨ s.1.isWritable = true := by
  rw [← Suppression.label_ok]
  unfold suppressionDiagnostic Suppression.isExpiredBy
  cases hexpired : s.1.isExpired now
  · by_cases hused : s.2 ∈ used
    · simp [hexpired, hused]
    · cases s.1.label <;> simp [hexpired, hused]
  · cases s.1.label <;> simp [hexpired]

theorem suppressionDiagnostics_ok {used : List Nat} :
    (∃ found, suppressionDiagnostics (.zoned now) suppressions used = .ok found) ↔
      ∀ s ∈ suppressions.zipIdx, s.1.isExpired now = false ∧ s.2 ∈ used ∨ s.1.isWritable = true := by
  -- the diagnostics are at hand when each suppression's is
  simp only [← suppressionDiagnostic_ok]
  rw [← Result.mapM_ok]
  unfold suppressionDiagnostics
  refine ⟨?_, ?_⟩
  · intro h
    obtain ⟨found, hfound⟩ := h
    obtain ⟨parts, hparts, _⟩ := Result.bind_ok.mp hfound
    exact ⟨parts, hparts⟩
  · intro h
    obtain ⟨parts, hparts⟩ := h
    exact ⟨parts.flatten, Result.bind_ok.mpr ⟨parts, hparts, rfl⟩⟩

/-! ## The match -/

theorem matchWith_eq (judge : Judge) (clock : Calendar.ClockReading)
    (suppressions : List Suppression) (g : Graph) (index : Index) :
    matchWith judge clock suppressions g index =
      suppressionDiagnostics clock suppressions
        ((judgements judge g index).filterMap (·.used?)) >>= fun about => .ok {
          findings := (judgements judge g index).filterMap (·.vulnerable?)
          suppressed := (judgements judge g index).filterMap (·.suppressed?)
          diagnostics :=
            ((packageNames g).map (packageResult judge g index)).flatMap (·.2) ++ about } := by
  unfold matchWith judgements
  rfl

/-- A match is what was found, with the diagnostics about the packages and then those about
the suppressions. -/
theorem matchWith_ok {judge : Judge} {clock : Calendar.ClockReading} {m : Matching} :
    matchWith judge clock suppressions g index = .ok m ↔
      ∃ about, suppressionDiagnostics clock suppressions
          ((judgements judge g index).filterMap (·.used?)) = .ok about ∧
        m = {
          findings := (judgements judge g index).filterMap (·.vulnerable?)
          suppressed := (judgements judge g index).filterMap (·.suppressed?)
          diagnostics :=
            ((packageNames g).map (packageResult judge g index)).flatMap (·.2) ++ about } := by
  rw [matchWith_eq, Result.bind_ok]
  refine exists_congr fun about => and_congr_right fun _ => ?_
  rw [Except.ok.injEq, eq_comm]

/-- Nothing but the diagnostics about suppressions can fail. -/
theorem matchWith_isOk {judge : Judge} {clock : Calendar.ClockReading} :
    (∃ m, matchWith judge clock suppressions g index = .ok m) ↔
      ∃ about, suppressionDiagnostics clock suppressions
        ((judgements judge g index).filterMap (·.used?)) = .ok about := by
  refine ⟨?_, ?_⟩
  · intro h
    obtain ⟨m, hm⟩ := h
    obtain ⟨about, habout, _⟩ := matchWith_ok.mp hm
    exact ⟨about, habout⟩
  · intro h
    obtain ⟨about, habout⟩ := h
    exact ⟨_, matchWith_ok.mpr ⟨about, habout, rfl⟩⟩

theorem matchGraph_eq_ok {m : Matching} (h : matchGraph (.zoned now) suppressions g index = .ok m) :
    m.findings =
      (judgements (.standard (.zoned now) suppressions) g index).filterMap (·.vulnerable?) := by
  obtain ⟨about, _, rfl⟩ := matchWith_ok.mp h
  rfl

/-- **When matching gives a result**: every suppression that is over, or is not used,
has a label that can be written. -/
theorem matchGraph_ok (h : index.IsGrouped) :
    (∃ m, matchGraph (.zoned now) suppressions g index = .ok m) ↔
      ∀ s ∈ suppressions.zipIdx,
        s.1.isExpired now = false ∧ IsUsed now suppressions g index s.2 ∨ s.1.isWritable = true := by
  simp only [← mem_used h]
  rw [← suppressionDiagnostics_ok]
  exact matchWith_isOk

/-- **Which findings a match has.** -/
theorem mem_findings (h : index.IsGrouped) {m : Matching}
    (hm : matchGraph (.zoned now) suppressions g index = .ok m) {f : Finding} :
    f ∈ m.findings ↔ IsReported now suppressions g index f := by
  rw [matchGraph_eq_ok hm, mem_vulnerable h]

end LockAudit
