import LockAudit.Advisory.Feed
import LockAudit.Proofs.PackageName
import LockAudit.Proofs.Result
import LockAudit.Proofs.Sorting

/-!
# What an index finds

An index that was made by loading a feed keeps its records in groups. Asked for a
package, it gives the records whose package is looked up alike, all of them and no
others.
-/

namespace LockAudit.Advisory

variable {kept : List Record} {r : Record} {name : String}

/-! ## Groups -/

theorem mem_groupNames : name ∈ groupNames kept ↔ ∃ r ∈ kept, r.group = name := by
  simp [groupNames, List.mem_mergeSort]

theorem mem_groupRecords : r ∈ groupRecords kept name ↔ r ∈ kept ∧ r.group = name := by
  simp [groupRecords, List.mem_mergeSort]

instance : Std.TransCmp fun a b : Record => compare a.id b.id :=
  Sorting.transCmp_on compare Record.id

/-- The records of a package are sorted alike, with or without some of them. -/
theorem groupRecords_filter (p : Record → Bool) (records : List Record) (name : String) :
    groupRecords (records.filter p) name = (groupRecords records name).filter p := by
  unfold groupRecords
  rw [Sorting.filter_mergeSort, List.filter_filter, List.filter_filter]
  simp only [Bool.and_comm]

/-- Looking up a name among pairs that a function makes of names. -/
theorem lookup_pairs {α : Type} (f : String → α) (names : List String) (name : String) :
    (names.map fun n => (n, f n)).lookup name = if name ∈ names then some (f name) else none := by
  induction names with
  | nil => rfl
  | cons n names ih =>
      rw [List.map_cons, List.lookup_cons]
      by_cases h : name = n
      · subst h; simp
      · have hdiffers : (name == n) = false := beq_eq_false_iff_ne.mpr h
        rw [hdiffers, ih]
        simp [h]

theorem lookup_grouped : ((grouped kept).lookup name).getD [] = groupRecords kept name := by
  unfold grouped
  rw [lookup_pairs]
  split
  · rfl
  · rename_i h
    -- a name that has no group has no records either
    symm
    rw [Option.getD_none, List.eq_nil_iff_forall_not_mem]
    intro r hr
    obtain ⟨hkept, hgroup⟩ := mem_groupRecords.mp hr
    have hname : name ∈ groupNames kept := mem_groupNames.mpr ⟨r, hkept, hgroup⟩
    exact h hname

namespace Index

variable {i : Index} {package : String}

/-- The groups of the index are those of some records. -/
def IsGrouped (i : Index) : Prop := ∃ kept, i.groups = grouped kept

theorem mem_records_of_groups (h : i.groups = grouped kept) : r ∈ i.records ↔ r ∈ kept := by
  unfold records
  rw [h, List.mem_flatMap]
  refine ⟨?_, ?_⟩
  · intro h
    obtain ⟨g, hg, hr⟩ := h
    obtain ⟨name, _, rfl⟩ := List.mem_map.mp hg
    exact (mem_groupRecords.mp hr).1
  · intro hr
    have hname : r.group ∈ groupNames kept := mem_groupNames.mpr ⟨r, hr, rfl⟩
    have hrecord : r ∈ groupRecords kept r.group := mem_groupRecords.mpr ⟨hr, rfl⟩
    exact ⟨_, List.mem_map_of_mem hname, hrecord⟩

/-- What an index finds are the records of one group. -/
theorem query_of_groups (h : i.groups = grouped kept) (package : String) :
    i.query package = groupRecords kept (PackageName.canonical package) := by
  unfold query
  rw [h, lookup_grouped]

/-- **An index finds the records for a package**, by whatever spelling it is asked. -/
theorem mem_query (h : i.IsGrouped) :
    r ∈ i.query package ↔ r ∈ i.records ∧ r.group = PackageName.canonical package := by
  obtain ⟨kept, hkept⟩ := h
  rw [query_of_groups hkept, mem_groupRecords, mem_records_of_groups hkept]

/-- Asking by the form in which a name is looked up is the same as asking by the name. -/
theorem query_canonical : i.query (PackageName.canonical package) = i.query package := by
  unfold query
  rw [PackageName.canonical_canonical]

end Index

namespace Feed

variable {policy : WithdrawnPolicy} {f : Feed} {i : Index}

/-- The index of a feed is that of a load that went through its entries. -/
theorem exists_load (h : f.load policy = .ok i) :
    ∃ entries l, f.entries = .ok entries ∧ Load.steps policy {} 0 entries = .ok l ∧
      l.index f.fetchedAt f.origin = i := by
  unfold load at h
  obtain ⟨entries, hentries, h⟩ := Result.bind_ok.mp h
  obtain ⟨l, hl, h⟩ := Result.bind_ok.mp h
  exact ⟨entries, l, hentries, hl, Except.ok.inj h⟩

/-- Loading a feed makes an index of groups. -/
theorem load_isGrouped (h : f.load policy = .ok i) : i.IsGrouped := by
  obtain ⟨_, l, _, _, rfl⟩ := exists_load h
  exact ⟨l.kept, rfl⟩

end Feed

end LockAudit.Advisory
