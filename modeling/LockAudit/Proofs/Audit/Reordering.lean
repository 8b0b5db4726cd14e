import LockAudit.Proofs.Advisory.Distinct
import LockAudit.Proofs.Audit.Matching

/-!
# The order of a feed

A feed lists its entries in some order, and its publisher may well change it. Where no
two records have both the id and the package in common, that does not show: the index
is the same up to where its diagnostics name entries by their position, and a match
looks at nothing of it but its groups.
-/

namespace LockAudit

open Lockfile (Node Graph)
open Advisory (Record Index Feed WithdrawnPolicy)

variable {index index' : Index} {g : Graph}

/-- A match looks at the groups of an index, and at nothing else of it. -/
theorem matchGraph_congr (h : index'.groups = index.groups) (clock : Calendar.ClockReading)
    (suppressions : List Suppression) (g : Graph) :
    matchGraph clock suppressions g index' = matchGraph clock suppressions g index := by
  unfold matchGraph matchWith
  rw [packageResult_congr h]

/-- The same entries in another order make the same groups and counts. -/
theorem Advisory.Feed.load_perm {f f' : Feed} {policy : WithdrawnPolicy}
    {entries entries' : List Value} (hentries : f.entries = .ok entries)
    (hentries' : f'.entries = .ok entries')
    (hperm : entries'.Perm entries) (hdistinct : Advisory.AreDistinct entries)
    (h : f.load policy = .ok index) :
    ∃ index', f'.load policy = .ok index' ∧ index'.groups = index.groups ∧
      index'.malformed = index.malformed ∧ index'.withdrawnDropped = index.withdrawnDropped := by
  have hdistinct' := hdistinct.perm hperm
  -- what each entry does by itself it does in any place
  have hadmissible := (load_ok_of_distinct hentries hdistinct).mp ⟨index, h⟩
  obtain ⟨index', h'⟩ := (load_ok_of_distinct hentries' hdistinct').mpr fun e he =>
    hadmissible e (hperm.mem_iff.mp he)
  have htallies := load_tallies hentries hdistinct h
  have htallies' := load_tallies hentries' hdistinct' h'
  have hrecords : (Advisory.recordsOf entries').Perm (Advisory.recordsOf entries) :=
    hperm.filterMap _
  refine ⟨index', h', ?_, ?_, ?_⟩
  · rw [htallies.groups, htallies'.groups]
    refine Advisory.grouped_perm ?_ (hrecords.filter _)
    exact (List.filter_sublist.map Record.identity).nodup hdistinct
  · have hcount := htallies.malformed
    have hcount' := htallies'.malformed
    rw [hrecords.length_eq, hperm.length_eq] at hcount'
    omega
  · rw [htallies.withdrawn, htallies'.withdrawn, hrecords.countP_eq]

/--
**The order of a feed does not show.** Take any feed that loads, in which no two records
have one id and one package, as packages are looked up, and any other feed with the same
entries in another order.

It loads as well. Its index has the same packages in the same order, and for each of them
the same records in the same order; as many entries were left out, and as many records as
withdrawn. So a match comes to the same, whatever the graph, the suppressions and the
clock.
-/
theorem entry_order_unobservable {f f' : Feed} {policy : WithdrawnPolicy}
    {entries entries' : List Value} (hentries : f.entries = .ok entries)
    (hentries' : f'.entries = .ok entries') (hperm : entries'.Perm entries)
    (hdistinct : Advisory.AreDistinct entries) {index : Index}
    (h : f.load policy = .ok index) :
    ∃ index', f'.load policy = .ok index' ∧ index'.groups = index.groups ∧
      index'.malformed = index.malformed ∧ index'.withdrawnDropped = index.withdrawnDropped ∧
      ∀ clock suppressions g,
        matchGraph clock suppressions g index' = matchGraph clock suppressions g index := by
  obtain ⟨index', h', hgroups, hmalformed, hwithdrawn⟩ :=
    Feed.load_perm hentries hentries' hperm hdistinct h
  exact ⟨index', h', hgroups, hmalformed, hwithdrawn, matchGraph_congr hgroups⟩

/-- Three records, two of them with one id, and an entry that is no record. -/
def sampleEntries : List Value := [
  Advisory.plainEntry "B" "Left_Pad", .null, Advisory.plainEntry "A" "left-pad",
  Advisory.plainEntry "A" "other"]

/-- Read from the end, the sample makes the same index. -/
theorem entry_order_unobservable_sample :
    ∃ index index', (Feed.listing sampleEntries).load .retain = .ok index ∧
      (Feed.listing sampleEntries.reverse).load .retain = .ok index' ∧
      (∃ r ∈ index.records, r.id = "B") ∧ index.malformed = 1 ∧ index'.groups = index.groups ∧
      ∀ clock suppressions g,
        matchGraph clock suppressions g index' = matchGraph clock suppressions g index := by
  have hplain : ∀ e ∈ sampleEntries, Json.IsPlain e := by
    simp [sampleEntries, Advisory.isPlain_plainEntry, Json.IsPlain.null]
  have hplain' : ∀ e ∈ sampleEntries.reverse, Json.IsPlain e :=
    fun e he => hplain e (List.mem_reverse.mp he)
  have hsteps : (Advisory.Load.steps .retain {} 0 sampleEntries).toOption.map
      (fun l => (l.kept.map (·.id), l.malformed)) = some (["B", "A", "A"], 1) := by decide +kernel
  obtain ⟨l, hl, hparts⟩ := Option.map_eq_some_iff.mp hsteps
  obtain ⟨hids, hmalformed⟩ := Prod.mk.inj hparts
  have hload : (Feed.listing sampleEntries).load .retain = .ok (l.index Feed.firstInstant "") := by
    rw [Feed.load_eq (Feed.entries_listing hplain), Result.ok_of_toOption hl]
    rfl
  obtain ⟨index', hload', hgroups, _, _, hmatch⟩ :=
    entry_order_unobservable (Feed.entries_listing hplain) (Feed.entries_listing hplain')
      (List.reverse_perm _) (by decide +kernel) hload
  have hmem : "B" ∈ l.kept.map (·.id) := by rw [hids]; simp
  obtain ⟨r, hr, hid⟩ := List.mem_map.mp hmem
  have hrecord : r ∈ (l.index Feed.firstInstant "").records :=
    (Index.mem_records_of_groups rfl).mpr hr
  exact ⟨_, index', hload, hload', ⟨r, hrecord, hid⟩, hmalformed, hgroups, hmatch⟩

end LockAudit
