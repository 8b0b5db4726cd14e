import LockAudit.Proofs.Advisory.Overlap
import LockAudit.Proofs.Audit.Matching
import Mathlib.Data.List.Nodup

/-!
# One record, one finding

A load keeps no two records with one key, which is an id and a package as it is spelled.
An index groups records by the package as it is looked up, and that form is shared by
several spellings. So among the records for a package a key stands once, and an id once
for each spelling of the package that it came with.

A match goes through the records for each dependency once. What it says of a dependency,
reported or suppressed, is therefore a part of these records, and repeats nothing that
they do not repeat.
-/

namespace LockAudit

open Lockfile (Node Graph)
open Advisory (Record Index Feed WithdrawnPolicy)

/-! ## Records -/

namespace Advisory

variable {f : Feed} {policy : WithdrawnPolicy} {index : Index}

/-- **The records for a package have keys of their own.** -/
theorem Feed.nodup_keys (h : f.load policy = .ok index) (package : String) :
    ((index.query package).map Record.key).Nodup := by
  obtain ⟨_, l, _, hl, rfl⟩ := exists_load h
  have hdistinct := (Load.steps_accounts .empty hl).distinct
  have hquery : (l.index f.fetchedAt f.origin).query package =
      groupRecords l.kept (PackageName.canonical package) := Index.query_of_groups rfl package
  rw [hquery]
  unfold groupRecords
  rw [((List.mergeSort_perm _ _).map Record.key).nodup_iff]
  exact (List.filter_sublist.map Record.key).nodup hdistinct

/-- An id stands once exactly if it comes with one spelling of the package. -/
theorem nodup_ids {records : List Record} (h : (records.map Record.key).Nodup) :
    (records.map (·.id)).Nodup ↔
      ∀ r ∈ records, ∀ r' ∈ records, r.id = r'.id → r.package = r'.package := by
  rw [List.nodup_map_iff_inj_on (List.Nodup.of_map _ h)]
  constructor
  · intro hinj r hr r' hr' hid
    rw [hinj r hr r' hr' hid]
  · intro hspelled r hr r' hr' hid
    exact List.inj_on_of_nodup_map h hr hr' (Prod.ext hid (hspelled r hr r' hr' hid))

end Advisory

/-! ## Findings -/

section Findings

variable {g : Graph} {index : Index} {n : Node}

/-- Among things with different keys, what belongs to one is what its key picks. -/
theorem flatMap_of_key {α β κ : Type} [DecidableEq κ] (key : α → κ) {items : List α} {a : α}
    (hkeys : (items.map key).Nodup) (ha : a ∈ items) (f : α → List β) :
    (items.flatMap fun b => if key b = key a then f b else []) = f a := by
  induction items with
  | nil => exact absurd ha List.not_mem_nil
  | cons b items ih =>
      rw [List.map_cons, List.nodup_cons] at hkeys
      obtain ⟨hfirst, hkeys⟩ := hkeys
      rw [List.flatMap_cons]
      rcases List.mem_cons.mp ha with rfl | ha
      · have hnone : (items.flatMap fun c => if key c = key a then f c else []) = [] := by
          rw [List.flatMap_eq_nil_iff]
          intro c hc
          refine if_neg fun heq => hfirst ?_
          rw [← heq]
          exact List.mem_map_of_mem hc
        rw [if_pos rfl, hnone, List.append_nil]
      · have hne : key b ≠ key a := fun heq => hfirst (heq ▸ List.mem_map_of_mem ha)
        rw [if_neg hne, List.nil_append, ih hkeys ha]

/-- All findings of a graph, in the order in which they are gone through. -/
def allFindings (g : Graph) (index : Index) : List Finding :=
  (packageNames g).flatMap (packageFindings g index)

theorem packageFindings_filter (hn : n ∈ g.nodes) (package : String) :
    (packageFindings g index package).filter (·.node == n) =
      if package = n.group then (index.query package).map fun r => ⟨n, r⟩ else [] := by
  have hone : ∀ m ∈ g.nodes, ((index.query package).map fun r => (⟨m, r⟩ : Finding)).filter
      (·.node == n) = if m.key = n.key then (index.query package).map fun r => ⟨n, r⟩ else [] := by
    intro m hm
    by_cases hkey : m.key = n.key
    -- a graph has one dependency for each key
    · obtain rfl : m = n := List.inj_on_of_nodup_map g.distinct hm hn hkey
      rw [if_pos rfl, List.filter_eq_self]
      intro f hf
      obtain ⟨r, _, rfl⟩ := List.mem_map.mp hf
      exact beq_self_eq_true m
    · rw [if_neg hkey, List.filter_eq_nil_iff]
      intro f hf heq
      obtain ⟨r, _, rfl⟩ := List.mem_map.mp hf
      exact hkey (congrArg Node.key (beq_iff_eq.mp heq))
  have hsub : (g.nodes.filter (·.group == package)).Sublist g.nodes := List.filter_sublist
  have hfilter : (packageFindings g index package).filter (·.node == n) =
      (g.nodes.filter (·.group == package)).flatMap fun m =>
        if m.key = n.key then (index.query package).map fun r => ⟨n, r⟩ else [] := by
    unfold packageFindings
    rw [List.filter_flatMap]
    exact List.flatMap_congr fun m hm => hone m (hsub.subset hm)
  rw [hfilter]
  by_cases hpackage : package = n.group
  · have hmem : n ∈ g.nodes.filter (·.group == package) :=
      List.mem_filter.mpr ⟨hn, beq_iff_eq.mpr hpackage.symm⟩
    rw [if_pos hpackage]
    exact flatMap_of_key Node.key ((hsub.map Node.key).nodup g.distinct) hmem
      fun _ => (index.query package).map fun r => (⟨n, r⟩ : Finding)
  · rw [if_neg hpackage, List.flatMap_eq_nil_iff]
    intro m hm
    obtain ⟨hm, hgroup⟩ := List.mem_filter.mp hm
    refine if_neg fun hkey => hpackage ?_
    rw [← List.inj_on_of_nodup_map g.distinct hm hn hkey]
    exact (beq_iff_eq.mp hgroup).symm

/-- **A dependency is looked at once with each record for its package.** -/
theorem allFindings_filter (hn : n ∈ g.nodes) :
    (allFindings g index).filter (·.node == n) =
      (index.query n.name).map fun r => ⟨n, r⟩ := by
  have hgroup : n.group ∈ packageNames g := mem_packageNames.mpr ⟨n, hn, rfl⟩
  have hnames : ((packageNames g).map id).Nodup := by
    rw [List.map_id]
    exact packageNames_nodup g
  -- only the package of the dependency has findings about it
  have hpicked := flatMap_of_key id hnames hgroup
    fun package => (index.query package).map fun r => (⟨n, r⟩ : Finding)
  rw [query_group] at hpicked
  rw [← hpicked]
  unfold allFindings
  rw [List.filter_flatMap]
  exact List.flatMap_congr fun package _ => packageFindings_filter hn package

/-! ## Matches -/

variable {judge : Judge} {package : String}

/-- What is judged in a package is about its findings, each once. -/
theorem findings_of_judged {js : List Judgement} (h : judgePackage judge g index package = .ok js) :
    js.map (·.finding) = packageFindings g index package := by
  unfold judgePackage at h
  generalize packageFindings g index package = fs at h
  induction fs generalizing js with
  | nil => cases h; rfl
  | cons f fs ih =>
      rw [List.mapM_cons] at h
      obtain ⟨j, hj, h⟩ := Result.bind_ok.mp h
      obtain ⟨js', hjs', h⟩ := Result.bind_ok.mp h
      obtain ⟨o, _, hpure⟩ := Result.bind_ok.mp hj
      cases h
      cases hpure
      rw [List.map_cons, ih hjs']

theorem judgements_sublist :
    ((judgements judge g index).map (·.finding)).Sublist (allFindings g index) := by
  unfold judgements allFindings
  rw [List.flatMap_map, List.map_flatMap]
  induction packageNames g with
  | nil => exact .slnil
  | cons package packages ih =>
      rw [List.flatMap_cons, List.flatMap_cons]
      refine List.Sublist.append ?_ ih
      unfold packageResult
      split
      · rename_i js hjs
        rw [findings_of_judged hjs]
      · exact List.nil_sublist _

/-- The reported and the suppressed findings are parts of what is judged, and disjoint. -/
theorem subperm_judged (js : List Judgement) :
    (js.filterMap (·.vulnerable?) ++ (js.filterMap (·.suppressed?)).map (·.finding)).Subperm
      (js.map (·.finding)) := by
  induction js with
  | nil => exact List.Subperm.refl _
  | cons j js ih =>
      obtain ⟨f, o⟩ := j
      obtain ⟨l, hperm, hsub⟩ := ih
      cases o with
      | vulnerable => exact ⟨f :: l, hperm.cons f, hsub.cons_cons f⟩
      | suppressed position s =>
          exact ⟨f :: l, (hperm.cons f).trans List.perm_middle.symm, hsub.cons_cons f⟩
      | _ => exact ⟨l, hperm, hsub.cons f⟩

variable {clock : Calendar.ClockReading} {suppressions : List Suppression} {m : Matching}

/-- What a match says of a dependency, reported or suppressed. -/
def saidOf (m : Matching) (n : Node) : List Record :=
  ((m.findings ++ m.suppressed.map (·.finding)).filter (·.node == n)).map (·.record)

/-- **What a match says of a dependency is a part of the records for its package.** -/
theorem saidOf_subperm (hm : matchGraph clock suppressions g index = .ok m) (n : Node) :
    (saidOf m n).Subperm (index.query n.name) := by
  have hjudged : (m.findings ++ m.suppressed.map (·.finding)).Subperm (allFindings g index) := by
    obtain ⟨about, _, rfl⟩ := matchWith_ok.mp hm
    exact (subperm_judged _).trans judgements_sublist.subperm
  have hrecords : ((allFindings g index).filter (·.node == n)).map (·.record) =
      if n ∈ g.nodes then index.query n.name else [] := by
    split
    · rename_i hn
      rw [allFindings_filter hn, List.map_map]
      exact List.map_id' _
    · -- no finding is about anything but a dependency of the graph
      rename_i hn
      rw [List.map_eq_nil_iff, List.filter_eq_nil_iff]
      intro f hf heq
      obtain ⟨package, _, hf⟩ := List.mem_flatMap.mp hf
      obtain ⟨n', hn', hr⟩ := List.mem_flatMap.mp hf
      obtain ⟨r, _, rfl⟩ := List.mem_map.mp hr
      exact hn (beq_iff_eq.mp heq ▸ (List.mem_filter.mp hn').1)
  obtain ⟨part, hperm, hsub⟩ := hjudged
  have hpart := (hsub.filter (·.node == n)).map Finding.record
  refine ⟨_, (hperm.filter _).map Finding.record, hpart.trans ?_⟩
  rw [hrecords]
  split
  · exact List.Sublist.refl _
  · exact List.nil_sublist _

end Findings

theorem nodup_of_subperm {α β : Type} {key : α → β} {l l' : List α} (h : l.Subperm l')
    (hkeys : (l'.map key).Nodup) : (l.map key).Nodup := by
  obtain ⟨part, hperm, hsub⟩ := h
  rw [← (hperm.map key).nodup_iff]
  exact (hsub.map key).nodup hkeys

/--
**A record gives one finding at most.** Take any feed that loads.

No two of the records for a package have one id and one spelling of the package. They
have different ids exactly if no id comes with two spellings that are looked up alike.
What a match says of a dependency, reported or suppressed, is a part of these records: so
it says nothing twice for one id and one spelling, and nothing twice for one id where the
ids are different.
-/
theorem one_finding_exact {f : Feed} {policy : WithdrawnPolicy} {index : Index}
    (h : f.load policy = .ok index) :
    (∀ package, ((index.query package).map Record.key).Nodup ∧
      (((index.query package).map (·.id)).Nodup ↔ ∀ r ∈ index.query package,
        ∀ r' ∈ index.query package, r.id = r'.id → r.package = r'.package)) ∧
    ∀ clock suppressions g m, matchGraph clock suppressions g index = .ok m → ∀ n,
      (saidOf m n).Subperm (index.query n.name) ∧ ((saidOf m n).map Record.key).Nodup ∧
        (((index.query n.name).map (·.id)).Nodup → ((saidOf m n).map (·.id)).Nodup) := by
  have hkeys := Feed.nodup_keys h
  refine ⟨fun package => ⟨hkeys package, Advisory.nodup_ids (hkeys package)⟩, ?_⟩
  intro clock suppressions g m hm n
  have hpart := saidOf_subperm hm n
  exact ⟨hpart, nodup_of_subperm hpart (hkeys n.name), nodup_of_subperm hpart⟩

/-- A record for a package that is spelled in this way. -/
def spelled (package : String) : Record :=
  { id := "A", package, affected := ⟨[[]], "*"⟩, patched := .empty, severity := .low }

/-- A feed with one id for two spellings of a package. -/
def twoSpellings : Feed where
  bytes := Text.Utf8.encode
    ("[\x7b\"id\":\"A\",\"package\":\"Foo\",\"affected\":\"*\",\"severity\":\"low\"\x7d," ++
      "\x7b\"id\":\"A\",\"package\":\"foo\",\"affected\":\"*\",\"severity\":\"low\"\x7d]").toList
  fetchedAt := Feed.firstInstant
  origin := ""

/-- Both records are found under one name. -/
theorem one_finding_exact_twoSpellings :
    ∃ index, twoSpellings.load .retain = .ok index ∧
      ((index.query "foo").map Record.key).Nodup ∧ ¬ ((index.query "foo").map (·.id)).Nodup := by
  have hsteps : (twoSpellings.entries >>= Advisory.Load.steps .retain {} 0).toOption.map
      Advisory.Load.kept = some [spelled "Foo", spelled "foo"] := by decide +kernel
  obtain ⟨l, hl, hkept⟩ := Option.map_eq_some_iff.mp hsteps
  obtain ⟨entries, hentries, hl⟩ := Result.bind_ok.mp (Result.ok_of_toOption hl)
  have hload : twoSpellings.load .retain =
      .ok (l.index twoSpellings.fetchedAt twoSpellings.origin) := by
    rw [Feed.load_eq hentries, hl]
    rfl
  have hmem (r : Record) (hr : r ∈ l.kept) (hgroup : r.group = PackageName.canonical "foo") :
      r ∈ (l.index twoSpellings.fetchedAt twoSpellings.origin).query "foo" := by
    rw [Index.query_of_groups rfl, Advisory.mem_groupRecords]
    exact ⟨hr, hgroup⟩
  obtain ⟨hkeys, hids⟩ := (one_finding_exact hload).1 "foo"
  refine ⟨_, hload, hkeys, fun hnodup => ?_⟩
  have hspelled := hids.mp hnodup (spelled "Foo") (hmem _ (by rw [hkept]; simp) (by decide +kernel))
    (spelled "foo") (hmem _ (by rw [hkept]; simp) (by decide +kernel)) rfl
  exact absurd hspelled (by decide)

end LockAudit
