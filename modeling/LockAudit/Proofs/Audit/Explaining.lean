import LockAudit.Proofs.Audit.Pool
import LockAudit.Proofs.Audit.Suppressing
import LockAudit.Proofs.Lockfile.Canonical
import LockAudit.Proofs.Report.Verdict

/-!
# Matching and explaining

A dependency is explained by the outcome of every record for its package. A match gets to
the same outcomes on another way: it takes the dependencies package by package, in the
order of the names by which packages are looked up, and joins what the packages leave.

The two agree because a graph is sorted, and by these names before anything else. So the
packages are runs of the graph's own order, and taking them one after the other goes
through the graph from one end to the other. What a match lacks are the packages that it
passes over, those where the version of a vulnerable dependency cannot be logged.
-/

namespace LockAudit

open Lockfile (Node Graph Coordinate)
open Advisory (Record Index)

variable {now : Calendar.Instant} {suppressions : List Suppression} {g : Graph} {index : Index}
  {n : Node} {package : String}

/-! ## Rows -/

/-- Every record for the package of a dependency, with its outcome. -/
def rows (now : Calendar.Instant) (suppressions : List Suppression) (index : Index) (n : Node) :
    List (Record × Outcome) :=
  (index.query n.name).map fun r => (r, outcome now suppressions n r)

theorem explain_eq_rows :
    explain (.zoned now) suppressions n index = .ok (rows now suppressions index n) := by
  unfold explain rows
  exact Result.mapM_eq_map fun r _ => rfl

/-- The rows of some dependencies, one dependency after the other. -/
def walk (now : Calendar.Instant) (suppressions : List Suppression) (index : Index)
    (nodes : List Node) : List Judgement :=
  nodes.flatMap fun n => (rows now suppressions index n).map fun row => ⟨⟨n, row.1⟩, row.2⟩

/-- The package of the dependency is passed over: some dependency on it is vulnerable and
its version cannot be logged. -/
def isPassedOver (now : Calendar.Instant) (suppressions : List Suppression) (g : Graph)
    (index : Index) (n : Node) : Bool :=
  g.nodes.any fun m => m.group == n.group && !m.version.isWritable &&
    (rows now suppressions index m).any fun row => decide (row.2 = .vulnerable)

/-- The dependencies whose packages are judged. -/
def walkedNodes (now : Calendar.Instant) (suppressions : List Suppression) (g : Graph)
    (index : Index) : List Node :=
  g.nodes.filter fun n => !isPassedOver now suppressions g index n

/-! ## Packages -/

/-- A package is judged unless it is passed over. -/
theorem isJudged_eq (n : Node) :
    isJudged now suppressions g index n.group = !isPassedOver now suppressions g index n := by
  rw [Bool.eq_iff_iff, isJudged_iff, Bool.not_eq_true', isPassedOver, List.any_eq_false]
  constructor
  · intro h m hm hover
    rw [Bool.and_eq_true, Bool.and_eq_true, beq_iff_eq, Bool.not_eq_true', List.any_eq_true] at hover
    -- the row that makes the package passed over is a finding that cannot be logged
    obtain ⟨⟨hgroup, hwritable⟩, row, hrow, hv⟩ := hover
    obtain ⟨r, hr, rfl⟩ := List.mem_map.mp hrow
    have hf : ⟨m, r⟩ ∈ packageFindings g index n.group := by
      refine List.mem_flatMap.mpr ⟨m, List.mem_filter.mpr ⟨hm, beq_iff_eq.mpr hgroup⟩, ?_⟩
      rw [← hgroup, query_group]
      exact List.mem_map.mpr ⟨r, hr, rfl⟩
    rw [h _ hf (of_decide_eq_true hv)] at hwritable
    exact absurd hwritable (by simp)
  · intro h f hf hv
    obtain ⟨m, hfound, hrecord⟩ := List.mem_flatMap.mp hf
    obtain ⟨r, hr, rfl⟩ := List.mem_map.mp hrecord
    obtain ⟨hm, hgroup⟩ := List.mem_filter.mp hfound
    rw [← beq_iff_eq.mp hgroup, query_group] at hr
    have hany : ((rows now suppressions index m).any fun row => decide (row.2 = .vulnerable)) =
        true :=
      List.any_eq_true.mpr ⟨_, List.mem_map.mpr ⟨r, hr, rfl⟩, decide_eq_true hv⟩
    have hnot := h m hm
    rw [hgroup, hany, Bool.and_true, Bool.true_and, Bool.not_eq_true', Bool.not_eq_false] at hnot
    exact hnot

/-- What is judged in a package are the rows of its dependencies. -/
theorem judged_package (package : String) :
    (packageFindings g index package).map (judged now suppressions) =
      walk now suppressions index (g.nodes.filter (·.group == package)) := by
  unfold packageFindings walk rows
  rw [List.map_flatMap]
  refine List.flatMap_congr fun n hn => ?_
  obtain rfl : n.group = package := beq_iff_eq.mp (List.mem_filter.mp hn).2
  rw [query_group, List.map_map, List.map_map]
  rfl

theorem packageNames_pairwise (g : Graph) :
    (packageNames g).Pairwise fun a b => compare a b = .lt :=
  Sorting.pairwise_lt (Sorting.pairwise_sorted _) (packageNames_nodup g)

/-- The canonical order puts packages one after the other. -/
theorem group_isLE {a b : Node} (h : (a.order b).isLE = true) :
    (compare a.group b.group).isLE = true := by
  unfold Lockfile.Node.order at h
  unfold Lockfile.Node.group
  rw [Ordering.isLE_then_iff_or] at h
  rcases h with hlt | ⟨heq, _⟩
  · exact Ordering.isLE_of_eq_lt hlt
  · exact Ordering.isLE_of_eq_eq heq

/-- **A match goes through the graph in its order.** -/
theorem judgements_eq_walk (hsorted : g.nodes.Pairwise fun a b => (a.order b).isLE = true) :
    judgements (.standard (.zoned now) suppressions) g index =
      walk now suppressions index (walkedNodes now suppressions g index) := by
  have hwalked : walkedNodes now suppressions g index =
      g.nodes.filter fun n => isJudged now suppressions g index n.group := by
    unfold walkedNodes
    simp only [isJudged_eq]
  -- the packages are runs of the sorted graph, so their dependencies join to all of them
  have hruns : ((packageNames g).filter (isJudged now suppressions g index)).flatMap
      (fun package => (walkedNodes now suppressions g index).filter fun n => n.group == package) =
      walkedNodes now suppressions g index := by
    rw [hwalked]
    refine Sorting.flatMap_filter_key ((packageNames_pairwise g).filter _)
      ((hsorted.imp group_isLE).filter _) fun n hn => ?_
    obtain ⟨hn, hjudged⟩ := List.mem_filter.mp hn
    exact List.mem_filter.mpr ⟨mem_packageNames.mpr ⟨n, hn, rfl⟩, hjudged⟩
  -- a package that is judged has all of its dependencies among those that are walked
  have hkept : ∀ package ∈ (packageNames g).filter (isJudged now suppressions g index),
      (walkedNodes now suppressions g index).filter (fun n => n.group == package) =
        g.nodes.filter fun n => n.group == package := by
    intro package hpackage
    rw [hwalked, List.filter_filter]
    refine List.filter_congr fun n _ => ?_
    cases hgroup : n.group == package with
    | false => exact Bool.false_and _
    | true =>
        rw [beq_iff_eq.mp hgroup, (List.mem_filter.mp hpackage).2]
        exact Bool.true_and _
  calc judgements (.standard (.zoned now) suppressions) g index
      = ((packageNames g).filter (isJudged now suppressions g index)).flatMap fun package =>
          walk now suppressions index (g.nodes.filter fun n => n.group == package) := by
        rw [judgements_eq]
        exact List.flatMap_congr fun package _ => judged_package package
    _ = ((packageNames g).filter (isJudged now suppressions g index)).flatMap fun package =>
          walk now suppressions index
            ((walkedNodes now suppressions g index).filter fun n => n.group == package) := by
        refine List.flatMap_congr fun package hpackage => ?_
        rw [hkept package hpackage]
    _ = walk now suppressions index (walkedNodes now suppressions g index) := by
        conv_rhs => rw [← hruns]
        unfold walk
        rw [List.flatMap_assoc]

/-! ## Matches -/

theorem mem_walk {nodes : List Node} {j : Judgement} :
    j ∈ walk now suppressions index nodes ↔
      j.finding.node ∈ nodes ∧
        (j.finding.record, j.outcome) ∈ rows now suppressions index j.finding.node := by
  obtain ⟨⟨n, r⟩, o⟩ := j
  unfold walk
  simp only [List.mem_flatMap, List.mem_map, Judgement.mk.injEq, Finding.mk.injEq]
  constructor
  · intro h
    obtain ⟨m, hm, row, hrow, ⟨rfl, rfl⟩, rfl⟩ := h
    exact ⟨hm, hrow⟩
  · intro h
    obtain ⟨hn, hrow⟩ := h
    exact ⟨n, hn, (r, o), hrow, ⟨rfl, rfl⟩, rfl⟩

/-- A position counts as used if some row says so. -/
theorem mem_used_walk {nodes : List Node} {position : Nat} :
    position ∈ (walk now suppressions index nodes).filterMap (·.used?) ↔
      ∃ n ∈ nodes, ∃ row ∈ rows now suppressions index n, ∃ s, row.2 = .suppressed position s := by
  rw [List.mem_filterMap]
  constructor
  · intro h
    obtain ⟨j, hj, hused⟩ := h
    obtain ⟨hn, hrow⟩ := mem_walk.mp hj
    refine ⟨_, hn, _, hrow, ?_⟩
    unfold Judgement.used? at hused
    split at hused
    · rename_i s hs
      cases hused
      exact ⟨s, hs⟩
    · exact absurd hused (by simp)
  · intro h
    obtain ⟨n, hn, row, hrow, s, hs⟩ := h
    refine ⟨⟨⟨n, row.1⟩, row.2⟩, mem_walk.mpr ⟨hn, hrow⟩, ?_⟩
    unfold Judgement.used?
    dsimp only
    rw [hs]

/--
**A match is the explanations of the dependencies, one after the other.**

Take any graph, suppressions and index, at any time. Every dependency is explained. If a
match comes to a result, its findings are the rows that are vulnerable, in the order in
which the graph holds the dependencies and the index the records, each as often as it is
there; and so are the suppressed findings, each with the suppression that its row names.
What is left out are the dependencies on packages that are passed over, and these are none
if all versions can be written. A match comes to a result if every suppression that is
named by no row that is gone through has a label that can be written. And spread over
workers a match comes to the same, for every number of them and in whatever order they
finish.
-/
theorem matching_explained {nodes : List Node} {edges : List (Coordinate × Coordinate)} {g : Graph}
    (hg : Graph.of nodes edges = .ok g) (now : Calendar.Instant) (suppressions : List Suppression)
    (index : Index) :
    (∀ n, explain (.zoned now) suppressions n index = .ok (rows now suppressions index n)) ∧
    ((∃ m, matchGraph (.zoned now) suppressions g index = .ok m) ↔
      ∀ s ∈ suppressions.zipIdx, s.1.isWritable = true ∨
        s.1.isExpired now = false ∧ ∃ n ∈ walkedNodes now suppressions g index,
          ∃ row ∈ rows now suppressions index n, ∃ cause, row.2 = .suppressed s.2 cause) ∧
    (∀ m, matchGraph (.zoned now) suppressions g index = .ok m →
      m.findings = (walk now suppressions index
        (walkedNodes now suppressions g index)).filterMap (·.vulnerable?) ∧
      m.suppressed = (walk now suppressions index
        (walkedNodes now suppressions g index)).filterMap (·.suppressed?)) ∧
    ((∀ n ∈ g.nodes, n.version.isWritable = true) →
      walkedNodes now suppressions g index = g.nodes) ∧
    ∀ maxWorkers result,
      SpreadMatch maxWorkers (.standard (.zoned now) suppressions) (.zoned now) suppressions g index
        result ↔ result = matchGraph (.zoned now) suppressions g index := by
  -- the nodes of a graph come group by group, so a walk over them meets the same judgements
  have hwalk : judgements (.standard (.zoned now) suppressions) g index = _ :=
    judgements_eq_walk (Graph.of_pairwise hg)
  refine ⟨fun n => explain_eq_rows, ?_, ?_, ?_, fun maxWorkers result => spreadMatch_iff⟩
  · unfold matchGraph
    rw [matchWith_isOk, suppressionDiagnostics_ok, hwalk]
    refine forall₂_congr fun s _ => ?_
    rw [mem_used_walk, or_comm]
  · intro m hm
    obtain ⟨about, _, rfl⟩ := matchWith_ok.mp hm
    rw [hwalk]
    exact ⟨rfl, rfl⟩
  · intro hwritable
    refine List.filter_eq_self.mpr fun n hn => ?_
    rw [← isJudged_eq]
    exact isJudged_of_writable hwritable

/-- Two versions of a package, the later one first. -/
def unsortedNodes : List Node :=
  [⟨"p", .release 2 0 0, "s", true⟩, ⟨"p", .release 1 0 0, "s", true⟩]

/-- The two in canonical order. -/
def sortedNodes : List Node :=
  [⟨"p", .release 1 0 0, "s", true⟩, ⟨"p", .release 2 0 0, "s", true⟩]

/-- An index with a record for the package. -/
def packageIndex : Index :=
  ({ kept := [Report.sampleRecord] } : Advisory.Load).index Report.sampleInstant ""

/-- Both versions are found, in canonical order, as they are explained. -/
theorem matching_explained_unsorted :
    ∃ g m, Graph.of unsortedNodes [] = .ok g ∧
      matchGraph (.zoned Report.sampleInstant) [] g packageIndex = .ok m ∧
      m.findings = (walk Report.sampleInstant [] packageIndex g.nodes).filterMap (·.vulnerable?) ∧
      m.findings = sortedNodes.map fun n => ⟨n, Report.sampleRecord⟩ := by
  have hmade : ∃ g, Graph.of unsortedNodes [] = .ok g ∧ g.nodes = Graph.sortNodes unsortedNodes ∧
      g.links = [] := Graph.of_ok (by decide) (by simp)
  obtain ⟨g, hg, hnodes, _⟩ := hmade
  have hseparated : Lockfile.Separated sortedNodes := by
    unfold Lockfile.Separated
    decide +kernel
  have hperm : unsortedNodes.Perm sortedNodes := .swap _ _ _
  -- the two versions differ, so there is one way to sort them
  have hsorted : g.nodes = sortedNodes := by
    rw [hnodes, Graph.sortNodes_eq_of_perm hseparated hperm]
    exact Graph.sortNodes_of_pairwise (by decide +kernel)
  obtain ⟨_, hok, hfound, hall, _⟩ := matching_explained hg Report.sampleInstant [] packageIndex
  obtain ⟨m, hm⟩ := hok.mpr (by simp)
  have hfindings := (hfound m hm).1
  rw [hall (by rw [hsorted]; decide +kernel)] at hfindings
  refine ⟨g, m, hg, hm, hfindings, ?_⟩
  rw [hfindings, hsorted]
  decide +kernel

end LockAudit
