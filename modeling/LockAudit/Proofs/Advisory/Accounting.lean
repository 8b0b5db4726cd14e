import LockAudit.Proofs.Advisory.Distinct
import LockAudit.Proofs.Advisory.Overlap
import LockAudit.Proofs.Version.Satisfiable
import Mathlib.Data.List.Perm.Basic

/-!
# Every entry of a feed is accounted for

A record that gets lost on the way into an index is a vulnerability that nobody hears of.
So of each entry it has to be known what became of it. There are four ways: it is no
record, or repeats an earlier one, and is left out with a complaint; it is a record that
the policy leaves out as withdrawn; or it is kept. `Lands` says which, by the entry and by
those before it, and it is never two of them at once.

The invariant of the load is `Books`: what it has kept, its two counts and the complaints
among its diagnostics are what the fates of the entries so far come to. The index sorts
what was kept into groups, and that loses nothing and doubles nothing.
-/

namespace LockAudit

/-- Some well-formed version lies in the range. -/
def VersionRange.IsMet (range : VersionRange) : Prop :=
  ∃ v : Precedence, v.isWellFormed = true ∧ range.holds v = true

namespace Advisory

variable {policy : WithdrawnPolicy} {before entries : List Value} {entry : Value}
  {fate fate' : Admission} {fates : List Admission} {r : Record}

/-! ## Fates -/

namespace Admission

/-- The record that is kept. -/
def kept? : Admission → Option Record
  | .kept r => some r
  | _ => none

/-- The record is left out as withdrawn. -/
def isWithdrawn : Admission → Bool
  | .withdrawn _ => true
  | _ => false

/-- Why the entry is left out with a complaint. -/
def reason? : Admission → Option String
  | .malformed defect => some defect.message
  | .repeated => some "duplicate of an earlier record"
  | _ => none

end Admission

/-- What becomes of an entry after some others. -/
inductive Lands (policy : WithdrawnPolicy) (before : List Value) (entry : Value) :
    Admission → Prop
  | malformed {d : RecordDefect} (reads : readRecord entry = .error (.dropped d)) :
      Lands policy before entry (.malformed d)
  | repeated {r : Record} (reads : readRecord entry = .ok r)
      (earlier : ∃ e ∈ before, ∃ r', readRecord e = .ok r' ∧ r'.key = r.key) :
      Lands policy before entry .repeated
  | withdrawn {r : Record} (reads : readRecord entry = .ok r)
      (first : ∀ e ∈ before, ∀ r', readRecord e = .ok r' → r'.key ≠ r.key)
      (excluded : policy.excludes r = true) : Lands policy before entry (.withdrawn r)
  | kept {r : Record} (reads : readRecord entry = .ok r) (isKept : IsKept policy before r) :
      Lands policy before entry (.kept r)

theorem mem_keys_recordsOf {key : String × String} :
    key ∈ (recordsOf before).map Record.key ↔
      ∃ e ∈ before, ∃ r, readRecord e = .ok r ∧ r.key = key := by
  rw [List.mem_map]
  refine ⟨?_, ?_⟩
  · intro h
    obtain ⟨r, hr, hkey⟩ := h
    obtain ⟨e, he, hread⟩ := mem_recordsOf.mp hr
    exact ⟨e, he, r, hread, hkey⟩
  · intro h
    obtain ⟨e, he, r, hread, hkey⟩ := h
    exact ⟨r, mem_recordsOf.mpr ⟨e, he, hread⟩, hkey⟩

/-- An entry lands where it is put after the keys of the records before it. -/
theorem Lands.classify_eq (h : Lands policy before entry fate) :
    classify policy ((recordsOf before).map Record.key) entry = .ok fate := by
  have hnew {r : Record} (first : ∀ e ∈ before, ∀ r', readRecord e = .ok r' → r'.key ≠ r.key) :
      r.key ∉ (recordsOf before).map Record.key := by
    intro hmem
    obtain ⟨e, he, r', hr', hkey⟩ := mem_keys_recordsOf.mp hmem
    exact first e he r' hr' hkey
  unfold classify
  cases h with
  | malformed reads => rw [reads]
  | repeated reads earlier =>
      rw [reads]
      exact if_pos (List.contains_iff_mem.mpr (mem_keys_recordsOf.mpr earlier))
  | withdrawn reads first excluded =>
      rw [reads]
      simp only [List.contains_iff_mem, hnew first, excluded, if_false, if_true]
  | kept reads isKept =>
      rw [reads]
      simp only [List.contains_iff_mem, hnew isKept.first, isKept.included, if_false,
        Bool.false_eq_true]

/-- An entry lands in one place. -/
theorem Lands.unique (h : Lands policy before entry fate) (h' : Lands policy before entry fate') :
    fate = fate' :=
  Except.ok.inj (h.classify_eq.symm.trans h'.classify_eq)

/-- The fates of some entries, one for each. -/
inductive Fates (policy : WithdrawnPolicy) : List Value → List Admission → Prop
  | nil : Fates policy [] []
  | snoc {before : List Value} {fates : List Admission} {entry : Value} {fate : Admission}
      (h : Fates policy before fates) (lands : Lands policy before entry fate) :
      Fates policy (before ++ [entry]) (fates ++ [fate])

theorem Fates.length_eq (h : Fates policy entries fates) : fates.length = entries.length := by
  induction h with
  | nil => rfl
  | snoc _ _ ih => rw [List.length_append, List.length_append, ih, List.length_singleton,
      List.length_singleton]

/-- The entries decide on their fates. -/
theorem Fates.unique {others : List Admission} (h : Fates policy entries fates)
    (h' : Fates policy entries others) : fates = others := by
  induction h generalizing others with
  | nil => exact (List.eq_nil_of_length_eq_zero h'.length_eq).symm
  | @snoc before fates entry fate _ lands ih =>
      generalize hentries : before ++ [entry] = entries at h'
      cases h' with
      | nil => exact absurd hentries (by simp)
      | snoc h' lands' =>
          obtain ⟨rfl, hentry⟩ := List.append_inj' hentries rfl
          obtain rfl := List.singleton_inj.mp hentry
          rw [ih h', lands.unique lands']

theorem Fates.lands (h : Fates policy entries fates) (hfate : fate ∈ fates) :
    ∃ before entry after, entries = before ++ entry :: after ∧ Lands policy before entry fate := by
  induction h with
  | nil => exact absurd hfate List.not_mem_nil
  | @snoc before fates entry last _ lands ih =>
      rcases List.mem_append.mp hfate with hfate | hfate
      · obtain ⟨first, e, after, rfl, hlands⟩ := ih hfate
        exact ⟨first, e, after ++ [entry], by simp, hlands⟩
      · rw [List.mem_singleton.mp hfate]
        exact ⟨before, entry, [], rfl, lands⟩

theorem Fates.kept (h : Fates policy entries fates) (hr : r ∈ fates.filterMap (·.kept?)) :
    (∃ e, readRecord e = .ok r) ∧ policy.excludes r = false := by
  obtain ⟨fate, hfate, hkept⟩ := List.mem_filterMap.mp hr
  obtain ⟨before, e, _, _, hlands⟩ := h.lands hfate
  cases hlands with
  | malformed _ => exact absurd hkept (by simp [Admission.kept?])
  | repeated _ _ => exact absurd hkept (by simp [Admission.kept?])
  | withdrawn _ _ _ => exact absurd hkept (by simp [Admission.kept?])
  | kept reads isKept =>
      cases hkept
      exact ⟨⟨e, reads⟩, isKept.included⟩

/-- Only what the policy excludes is left out as withdrawn. -/
theorem Fates.withdrawn_eq_zero (h : Fates policy entries fates)
    (hpolicy : ∀ r, policy.excludes r = false) : fates.countP (·.isWithdrawn) = 0 := by
  rw [List.countP_eq_zero]
  intro fate hfate
  obtain ⟨_, _, _, _, hlands⟩ := h.lands hfate
  cases hlands with
  | malformed _ => exact Bool.false_ne_true
  | repeated _ _ => exact Bool.false_ne_true
  | withdrawn _ _ excluded => exact absurd (excluded.symm.trans (hpolicy _)) (by simp)
  | kept _ _ => exact Bool.false_ne_true

/-- Every entry is kept, or left out in one of the two ways. -/
theorem length_fates (fates : List Admission) :
    fates.length = (fates.filterMap (·.kept?)).length + fates.countP (·.reason?.isSome) +
      fates.countP (·.isWithdrawn) := by
  induction fates with
  | nil => rfl
  | cons fate fates ih =>
      rw [List.length_cons, ih]
      cases fate <;> simp [Admission.kept?, Admission.reason?, Admission.isWithdrawn] <;> omega

/-! ## Complaints -/

/-- The diagnostic is a complaint about an entry. -/
def isComplaint (d : Diagnostic) : Bool := d.kind == DiagnosticKind.malformedAdvisory.name

/-- The complaint about an entry at a position, if it is left out with one. -/
def complaint? (position : Nat) (entry : Value) (fate : Admission) : Option Diagnostic :=
  fate.reason?.map fun reason => droppedDiagnostic (entryLabel position entry) reason

/-- The complaints about some entries, in their order. -/
def complaints (entries : List Value) (fates : List Admission) : List Diagnostic :=
  (entries.zipIdx.zip fates).filterMap fun p => complaint? p.1.2 p.1.1 p.2

theorem complaints_snoc (h : fates.length = before.length) :
    complaints (before ++ [entry]) (fates ++ [fate]) =
      complaints before fates ++ (complaint? before.length entry fate).toList := by
  unfold complaints
  rw [List.zipIdx_append, List.zip_append (by rw [List.length_zipIdx, h]), List.filterMap_append,
    Nat.zero_add]
  cases hcomplaint : complaint? before.length entry fate <;> simp [hcomplaint]

theorem Fates.length_complaints (h : Fates policy entries fates) :
    (complaints entries fates).length = fates.countP (·.reason?.isSome) := by
  induction h with
  | nil => rfl
  | @snoc before fates entry fate h _ ih =>
      rw [complaints_snoc h.length_eq, List.length_append, List.countP_append, ih]
      cases fate <;> rfl

/-! ## The load -/

namespace Load

variable {l l' : Load}

/-- What the load has come to are the fates of the entries so far. -/
structure Books (l : Load) (policy : WithdrawnPolicy) (before : List Value)
    (fates : List Admission) : Prop where
  landed : Fates policy before fates
  kept : l.kept = fates.filterMap (·.kept?)
  malformed : l.malformed = fates.countP (·.reason?.isSome)
  withdrawn : l.withdrawn = fates.countP (·.isWithdrawn)
  complaints : l.diagnostics.filter isComplaint = Advisory.complaints before fates

theorem Books.empty (policy : WithdrawnPolicy) : Books {} policy [] [] where
  landed := .nil
  kept := rfl
  malformed := rfl
  withdrawn := rfl
  complaints := rfl

/-- One more entry, with what it brings along. -/
theorem Books.add (h : l.Books policy before fates) (lands : Lands policy before entry fate)
    (hkept : l'.kept = l.kept ++ fate.kept?.toList)
    (hmalformed : l'.malformed = l.malformed + [fate].countP (·.reason?.isSome))
    (hwithdrawn : l'.withdrawn = l.withdrawn + [fate].countP (·.isWithdrawn))
    (hcomplaints : l'.diagnostics.filter isComplaint =
      l.diagnostics.filter isComplaint ++ (complaint? before.length entry fate).toList) :
    l'.Books policy (before ++ [entry]) (fates ++ [fate]) where
  landed := h.landed.snoc lands
  kept := by
    rw [hkept, h.kept, List.filterMap_append]
    cases fate <;> rfl
  malformed := by rw [hmalformed, h.malformed, List.countP_append]
  withdrawn := by rw [hwithdrawn, h.withdrawn, List.countP_append]
  complaints := by rw [hcomplaints, h.complaints, complaints_snoc h.landed.length_eq]

/-- The warning about a record is no complaint. -/
theorem overlapDiagnostics_filter {found : List Diagnostic} (h : overlapDiagnostics r = .ok found) :
    found.filter isComplaint = [] := by
  rw [overlapDiagnostics_ok h]
  cases r.overlaps <;> rfl

/-- **Step.** The entry has its fate, and the books say so. -/
theorem step_books (h : l.Books policy before fates) (hseen : l.Represents before)
    (hstep : l.step policy before.length entry = .ok l') :
    ∃ fate, l'.Books policy (before ++ [entry]) (fates ++ [fate]) := by
  have hsteps := step_stepsTo policy l before.length entry
  rw [hstep] at hsteps
  cases hsteps with
  | dropped reads =>
      exact ⟨_, h.add (.malformed reads) (List.append_nil _).symm rfl rfl (List.filter_append _ _)⟩
  | @repeated r reads seen =>
      obtain ⟨e, he, r', hr', hkey⟩ := (hseen r.key).mp seen
      exact ⟨_, h.add (.repeated reads ⟨e, he, r', hr', hkey⟩) (List.append_nil _).symm rfl rfl
        (List.filter_append _ _)⟩
  | withdrawn reads unseen excluded =>
      exact ⟨_, h.add (.withdrawn reads (hseen.not_mem_seen.mp unseen) excluded)
        (List.append_nil _).symm rfl rfl (List.append_nil _).symm⟩
  | @kept r found reads unseen included diagnosed =>
      refine ⟨_, h.add (.kept reads ⟨hseen.not_mem_seen.mp unseen, included⟩) rfl rfl rfl ?_⟩
      simp only
      rw [List.filter_append, overlapDiagnostics_filter diagnosed]
      rfl

/-- **Run.** -/
theorem steps_books (h : l.Books policy before fates) (hseen : l.Represents before)
    (hsteps : steps policy l before.length entries = .ok l') :
    ∃ fates', l'.Books policy (before ++ entries) fates' := by
  induction entries generalizing l before fates with
  | nil =>
      cases hsteps
      exact ⟨fates, by rwa [List.append_nil]⟩
  | cons entry entries ih =>
      rw [steps] at hsteps
      obtain ⟨l₁, hl₁, hsteps⟩ := Result.bind_ok.mp hsteps
      obtain ⟨fate, hbooks⟩ := step_books h hseen hl₁
      rw [← List.length_singleton (a := entry), ← List.length_append] at hsteps
      rw [List.append_cons]
      exact ih hbooks (step_represents hseen hl₁) hsteps

end Load

/-! ## Records that were read -/

theorem readAffected_isSatisfiable {fields : List (String × Value)} {range : VersionRange}
    (h : readAffected fields = .ok range) : range.isSatisfiable = true := by
  unfold readAffected at h
  split at h
  · exact absurd h (by simp [drop])
  · obtain ⟨affected, _, h⟩ := Result.bind_ok.mp h
    split at h
    · rename_i hsat
      cases h
      exact hsat
    · exact absurd h refuseRange_not_ok

theorem readPatched_isSatisfiable {fields : List (String × Value)} {range : VersionRange}
    (h : readPatched fields = .ok range) :
    range.isEmpty = true ∨ range.isSatisfiable = true := by
  unfold readPatched at h
  obtain ⟨patched, _, h⟩ := Result.bind_ok.mp h
  split at h
  · rename_i hsat
    cases h
    exact Bool.or_eq_true _ _ ▸ hsat
  · exact absurd h refuseRange_not_ok

/-- The ranges of a record that was read are not there for nothing. -/
theorem readRecord_isMet (h : readRecord entry = .ok r) :
    r.affected.IsMet ∧ (r.patched.isEmpty = true ∨ r.patched.IsMet) := by
  obtain ⟨fields, haffected, hpatched⟩ := readRecord_ranges h
  refine ⟨?_, ?_⟩
  · exact (VersionRange.isSatisfiable_iff (readAffected_isWellFormed haffected)).mp
      (readAffected_isSatisfiable haffected)
  · exact (readPatched_isSatisfiable hpatched).imp_right
      (VersionRange.isSatisfiable_iff (readPatched_isWellFormed hpatched)).mp

/-! ## Groups -/

variable {kept : List Record} {i : Index}

instance : Std.TransCmp fun a b : Record => compare a.group b.group :=
  Sorting.transCmp_on compare Record.group

theorem groupNames_pairwise (kept : List Record) :
    (groupNames kept).Pairwise fun a b => compare a b = .lt := by
  refine Sorting.pairwise_lt (Sorting.pairwise_sorted _) ?_
  exact (List.mergeSort_perm _ _).nodup_iff.mpr (Sorting.nodup_eraseDups _)

/-- **Putting records into groups loses none and doubles none.** -/
theorem Index.records_perm (h : i.groups = grouped kept) : i.records.Perm kept := by
  -- sorted by group first, the records are their groups one after the other
  let sorted := kept.mergeSort fun a b => (compare a.group b.group).isLE
  have hruns : (groupNames kept).flatMap (fun name => sorted.filter (·.group == name)) = sorted :=
    Sorting.flatMap_filter_key (groupNames_pairwise kept) (Sorting.pairwise_sorted _)
      fun r hr => mem_groupNames.mpr ⟨r, List.mem_mergeSort.mp hr, rfl⟩
  have hperm : sorted.Perm kept := List.mergeSort_perm _ _
  unfold records
  rw [h, grouped, List.flatMap_map]
  refine (List.Perm.flatMap_left _ fun name _ => ?_).trans (hruns ▸ hperm)
  exact (List.mergeSort_perm _ _).trans (hperm.filter _).symm

/-- The records for a package, by their ids. -/
theorem Index.query_sorted (h : i.groups = grouped kept) (package : String) :
    (i.query package).Pairwise fun r s => (compare r.id s.id).isLE = true := by
  rw [query_of_groups h]
  exact Sorting.pairwise_sorted _

theorem Index.query_perm (h : i.groups = grouped kept) (package : String) :
    (i.query package).Perm (i.records.filter (·.group == PackageName.canonical package)) := by
  rw [query_of_groups h]
  exact (List.mergeSort_perm _ _).trans ((records_perm h).filter _).symm

/-! ## Feeds -/

namespace Feed

/-- **Every entry is accounted for.** Take any feed that loads. Each of its entries has one
fate, by what it is and what is before it. The records of the index, the entries left out
with a complaint and the records left out as withdrawn are as many as there are entries;
the complaints in the index are those about the entries that are left out with one, in
their order; and the records of the index are those that were kept. Withdrawn records are
left out only if the policy says so, and then none of them is kept. In every affected range
that is kept lies some well-formed version, and in every patched range that is not empty.
For a package the index finds its records, each once, by their ids. -/
theorem load_accounts {f : Feed} (h : f.load policy = .ok i) :
    ∃ entries fates, f.entries = .ok entries ∧
      (∀ others, Fates policy entries others ↔ others = fates) ∧
      entries.length = i.size + i.malformed + i.withdrawnDropped ∧
      i.diagnostics.filter isComplaint = complaints entries fates ∧
      (complaints entries fates).length = i.malformed ∧
      i.records.Perm (fates.filterMap (·.kept?)) ∧
      (policy = .retain → i.withdrawnDropped = 0) ∧
      (policy = .drop → ∀ r ∈ i.records, r.isWithdrawn = false) ∧
      (∀ r ∈ i.records, r.affected.IsMet ∧ (r.patched.isEmpty = true ∨ r.patched.IsMet)) ∧
      ∀ package,
        (i.query package).Perm (i.records.filter (·.group == PackageName.canonical package)) ∧
        (i.query package).Pairwise (fun r s => (compare r.id s.id).isLE = true) ∧
        (i.query package).Nodup := by
  obtain ⟨entries, l, hentries, hl, rfl⟩ := exists_load h
  -- the books that are kept along the entries have one fate for each of them
  obtain ⟨fates, hbooks⟩ : ∃ fates, l.Books policy ([] ++ entries) fates :=
    Load.steps_books (.empty policy) .empty hl
  rw [List.nil_append] at hbooks
  have hrecords : (l.index f.fetchedAt f.origin).records.Perm l.kept := Index.records_perm rfl
  have hkept {r : Record} (hr : r ∈ (l.index f.fetchedAt f.origin).records) :
      (∃ e, readRecord e = .ok r) ∧ policy.excludes r = false := by
    rw [hrecords.mem_iff, hbooks.kept] at hr
    exact hbooks.landed.kept hr
  refine ⟨entries, fates, hentries, fun others => ?_, ?_, ?_, ?_, ?_, ?_, ?_, ?_, fun package => ?_⟩
  · refine ⟨fun hothers => hothers.unique hbooks.landed, fun heq => ?_⟩
    rw [heq]
    exact hbooks.landed
  · -- the three counts add up to the fates, since each fate is counted once
    have hsize : (l.index f.fetchedAt f.origin).size = (fates.filterMap (·.kept?)).length := by
      rw [← hbooks.kept]
      exact hrecords.length_eq
    rw [hsize, ← hbooks.landed.length_eq, length_fates, ← hbooks.malformed, ← hbooks.withdrawn]
    rfl
  · exact (l.filter_allDiagnostics fun _ => rfl).trans hbooks.complaints
  · rw [hbooks.landed.length_complaints, ← hbooks.malformed]
    rfl
  · rw [← hbooks.kept]
    exact hrecords
  · intro hpolicy
    have hnone : ∀ r, policy.excludes r = false := fun r => by rw [hpolicy]; rfl
    exact hbooks.withdrawn.trans (hbooks.landed.withdrawn_eq_zero hnone)
  · intro hpolicy r hr
    -- what the policy excludes is not kept
    have hincluded := (hkept hr).2
    rw [hpolicy] at hincluded
    exact hincluded
  · intro r hr
    obtain ⟨e, hread⟩ := (hkept hr).1
    exact readRecord_isMet hread
  · -- the records of an index are those that were kept, in another order
    have hnodup : l.kept.Nodup := List.Nodup.of_map _ (Load.steps_accounts .empty hl).distinct
    have hquery := Index.query_perm (i := l.index f.fetchedAt f.origin) rfl package
    refine ⟨hquery, Index.query_sorted rfl package, ?_⟩
    exact hquery.nodup_iff.mpr ((hrecords.nodup_iff.mpr hnodup).filter _)

/-- A feed in which a record is followed by a number, the record again, and one that was
withdrawn. -/
def everyFate : Feed :=
  withEntry <|
    "0,\x7b\"id\":\"A\",\"package\":\"p\",\"affected\":\"<2\",\"severity\":\"low\"\x7d," ++
    "\x7b\"id\":\"B\",\"package\":\"p\",\"affected\":\"*\",\"severity\":\"low\"," ++
      "\"withdrawn\":\"2020-01-01\"\x7d"

/-- Of the four entries one is kept, two have complaints and one is left out as withdrawn. -/
theorem load_accounts_everyFate :
    ∃ i entries, everyFate.load .drop = .ok i ∧ everyFate.entries = .ok entries ∧
      entries.length = 1 + 2 + 1 ∧ (i.diagnostics.filter isComplaint).length = 2 ∧
      (i.query "P").Nodup := by
  have hload : (everyFate.load .drop).toOption.map (fun i =>
      (i.size, i.malformed, i.withdrawnDropped)) = some (1, 2, 1) := by decide +kernel
  obtain ⟨i, hi, hcounts⟩ := Option.map_eq_some_iff.mp hload
  have hi := Result.ok_of_toOption hi
  simp only [Prod.mk.injEq] at hcounts
  obtain ⟨hsize, hmalformed, hwithdrawn⟩ := hcounts
  obtain ⟨entries, fates, hentries, _, htotal, hcomplaints, hlength, _, _, _, _, hquery⟩ :=
    load_accounts hi
  refine ⟨i, entries, hi, hentries, ?_, ?_, (hquery "P").2.2⟩
  · rw [htotal, hsize, hmalformed, hwithdrawn]
  · rw [hcomplaints, hlength, hmalformed]

end Feed

end Advisory

end LockAudit
