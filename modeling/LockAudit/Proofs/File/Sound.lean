import LockAudit.Proofs.File.Path
import LockAudit.Proofs.File.Tree
import LockAudit.Proofs.Sorting
import Mathlib.Data.List.Induction

/-!
# Trees of files

A tree of files is a list of places, and not every such list is a tree. In a tree every
place comes once, and its last name leads to it from a directory. It follows that all that
is passed on the way to a place is directories (`entry_above`), so a path continued by
names leads where the names say (`lookup_continued`), and that what lies below a place can
be listed (`mem_below`), each thing once and in the order of the names.

Operations on files keep this. What they put goes under a name into a directory, and what
they remove is a file, in which nothing stands. So every tree that operations make is
sound (`IsMade.isSound`).
-/

namespace LockAudit.File.Tree

variable {t t' : Tree} {p : Path} {at_ : Place} {e : Entry} {name : String} {names : List String}

/-! ## Trees -/

/-- The name leads to something in a directory. -/
def IsName (name : String) : Prop := name ≠ "" ∧ '/' ∉ name.toList ∧ name ≠ "." ∧ name ≠ ".."

instance : DecidablePred IsName := fun _ => inferInstanceAs (Decidable (_ ∧ _))

/-- The places of the tree come once each, and each of them is in a directory. -/
structure IsSound (t : Tree) : Prop where
  distinct : (t.entries.map (·.1)).Nodup
  placed : ∀ place ∈ t.entries.map (·.1), ∃ above name, place = above ++ [name] ∧ IsName name ∧
    t.entry? above = some .directory

theorem IsName.ne_slash (h : IsName name) : name ≠ "/" := by
  rintro rfl
  exact h.2.1 (by decide)

theorem isOutside_append : isOutside (at_ ++ [name]) = true ↔
    isOutside at_ = true ∧ (name = ".." ∨ name = "/") := by
  simp [isOutside]

theorem isOutside_of_isName (h : IsName name) : isOutside (at_ ++ [name]) = false := by
  rw [← Bool.not_eq_true, isOutside_append]
  rintro ⟨_, rfl | rfl⟩
  · exact h.2.2.2 rfl
  · exact h.ne_slash rfl

/-- What a list holds at a key that comes once is found. -/
theorem lookup_of_mem {entries : List (Place × Entry)} (h : (entries.map (·.1)).Nodup)
    (hmem : (at_, e) ∈ entries) : entries.lookup at_ = some e := by
  induction entries with
  | nil => exact absurd hmem (by simp)
  | cons entry entries ih =>
      rw [List.map_cons, List.nodup_cons] at h
      rcases List.mem_cons.mp hmem with rfl | hmem
      · exact List.lookup_cons_self
      · have hne : at_ ≠ entry.1 := by
          rintro rfl
          exact h.1 (List.mem_map.mpr ⟨_, hmem, rfl⟩)
        rw [lookup_cons_of_ne hne, ih h.2 hmem]

namespace IsSound

/-- What the tree holds stands at its place. -/
theorem entry_of_mem (h : t.IsSound) (hmem : (at_, e) ∈ t.entries) : t.entry? at_ = some e := by
  obtain ⟨above, name, rfl, hname, _⟩ := h.placed _ (List.mem_map_of_mem hmem)
  rw [inside_entry (isOutside_of_isName hname)]
  exact lookup_of_mem h.distinct hmem

/-- What stands inside the working directory stands under a name, in a directory. -/
theorem of_inside (h : t.IsSound) (houtside : isOutside (at_ ++ [name]) = false)
    (hentry : t.entry? (at_ ++ [name]) = some e) :
    (at_ ++ [name], e) ∈ t.entries ∧ IsName name ∧ t.entry? at_ = some .directory := by
  rw [inside_entry houtside] at hentry
  have hmem : (at_ ++ [name], e) ∈ t.entries := by
    obtain ⟨before, after, heq, _⟩ := List.lookup_eq_some_iff.mp hentry
    rw [heq]
    simp
  obtain ⟨above, name', heq, hname, hdirectory⟩ := h.placed _ (List.mem_map_of_mem hmem)
  obtain ⟨rfl, hsame⟩ := List.append_inj' heq rfl
  obtain rfl := List.singleton_inj.mp hsame
  exact ⟨hmem, hname, hdirectory⟩

/-- Where names lead to something, they lead to it from a directory. -/
theorem entry_above (h : t.IsSound) (hnames : ∀ n ∈ names, IsName n) (hne : names ≠ [])
    (hentry : t.entry? (at_ ++ names) = some e) : t.entry? at_ = some .directory := by
  induction names using List.reverseRecOn generalizing e with
  | nil => exact absurd rfl hne
  | append_singleton names name ih =>
      rw [List.forall_mem_append, List.forall_mem_singleton] at hnames
      rw [← List.append_assoc] at hentry
      obtain ⟨_, _, hdirectory⟩ := h.of_inside (isOutside_of_isName hnames.2) hentry
      by_cases hnil : names = []
      · rwa [hnil, List.append_nil] at hdirectory
      · exact ih hnames.1 hnil hdirectory

end IsSound

/-! ## Paths continued by names -/

theorem foldl_step (hnames : ∀ n ∈ names, IsName n) : names.foldl step at_ = at_ ++ names := by
  induction names generalizing at_ with
  | nil => simp
  | cons name names ih =>
      rw [List.forall_mem_cons] at hnames
      have hstep : step at_ name = at_ ++ [name] := if_neg hnames.1.2.2.2
      rw [List.foldl_cons, hstep, ih hnames.2, List.append_assoc]
      rfl

/-- Names are followed to where something stands. -/
theorem IsSound.follow_names (h : t.IsSound) (hnames : ∀ n ∈ names, IsName n)
    (hentry : t.entry? (at_ ++ names) = some e) : t.follow at_ names = .ok (at_ ++ names) := by
  induction names generalizing at_ with
  | nil => rw [follow, List.append_nil]
  | cons name names ih =>
      have hdirectory := h.entry_above hnames (by simp) hentry
      rw [List.forall_mem_cons] at hnames
      rw [← List.singleton_append, ← List.append_assoc] at hentry ⊢
      have hstep : step at_ name = at_ ++ [name] := if_neg hnames.1.2.2.2
      have hnext : (t.entry? (at_ ++ [name])).isSome = true := by
        cases names with
        | nil =>
            rw [List.append_nil] at hentry
            rw [hentry]
            rfl
        | cons name' names =>
            rw [h.entry_above hnames.2 (by simp) hentry]
            rfl
      rw [List.singleton_append, follow_cons, hstep]
      exact ⟨hdirectory, hnext, ih hnames.2 hentry⟩

/-- **A path continued by names leads where the names say.** -/
theorem IsSound.lookup_continued (h : t.IsSound) (hp : t.find p = .ok at_)
    (hnames : ∀ n ∈ names, IsName n) :
    t.lookup? ⟨p.root, p.names ++ names⟩ = t.entry? (at_ ++ names) := by
  -- the names below are followed from where the path leads, never from its text
  have hfind (other : Place) :
      t.find ⟨p.root, p.names ++ names⟩ = .ok other ↔ t.follow at_ names = .ok other := by
    unfold find
    rw [follow_append]
    refine ⟨?_, fun h => ⟨at_, hp, h⟩⟩
    rintro ⟨between, hbetween, hother⟩
    obtain rfl : between = at_ := Except.ok.inj (hbetween.symm.trans hp)
    exact hother
  unfold lookup?
  cases hentry : t.entry? (at_ ++ names) with
  | some e =>
      rw [(hfind _).mpr (h.follow_names hnames hentry)]
      exact hentry
  | none =>
      cases hother : t.find ⟨p.root, p.names ++ names⟩ with
      | error cause => rfl
      | ok other =>
          have hother := follow_ok ((hfind other).mp hother)
          rw [foldl_step hnames] at hother
          rw [hother]
          exact hentry

/-! ## What is listed -/

/-- Names none of which leads out are names of things in directories, if something stands
there. -/
theorem IsSound.isName_of_entry (h : t.IsSound) (hne : names ≠ [])
    (hinside : ∀ n ∈ names, n ≠ ".." ∧ n ≠ "/") (hentry : t.entry? (at_ ++ names) = some e) :
    ∀ n ∈ names, IsName n := by
  induction names using List.reverseRecOn generalizing e with
  | nil => exact absurd rfl hne
  | append_singleton names name ih =>
      rw [List.forall_mem_append, List.forall_mem_singleton] at hinside ⊢
      rw [← List.append_assoc] at hentry
      have houtside : isOutside (at_ ++ names ++ [name]) = false := by
        rw [← Bool.not_eq_true, isOutside_append]
        rintro ⟨_, hname | hname⟩
        · exact hinside.2.1 hname
        · exact hinside.2.2 hname
      obtain ⟨_, hname, hdirectory⟩ := h.of_inside houtside hentry
      refine ⟨?_, hname⟩
      by_cases hnil : names = []
      · rw [hnil]
        simp
      · exact ih hnil hinside.1 hdirectory

/-- What names lead to is held by the tree. -/
theorem IsSound.mem_of_entry (h : t.IsSound) (hne : names ≠ []) (hnames : ∀ n ∈ names, IsName n)
    (hentry : t.entry? (at_ ++ names) = some e) : (at_ ++ names, e) ∈ t.entries := by
  rcases List.eq_nil_or_concat' names with hnil | ⟨init, name, rfl⟩
  · exact absurd hnil hne
  · rw [List.forall_mem_append, List.forall_mem_singleton] at hnames
    rw [← List.append_assoc] at hentry ⊢
    exact (h.of_inside (isOutside_of_isName hnames.2) hentry).1

theorem namesFrom?_iff {whole : Place} :
    namesFrom? at_ whole = some names ↔
      whole = at_ ++ names ∧ names ≠ [] ∧ ∀ n ∈ names, n ≠ ".." ∧ n ≠ "/" := by
  unfold namesFrom?
  simp only [Option.ite_none_right_eq_some, Bool.and_eq_true, Bool.not_eq_true',
    List.isEmpty_eq_false_iff, List.all_eq_true, decide_eq_true_iff, List.isPrefixOf_iff_prefix,
    Option.some.injEq]
  refine ⟨?_, ?_⟩
  · rintro ⟨⟨⟨⟨rest, rfl⟩, hne⟩, hinside⟩, hnames⟩
    rw [List.drop_left] at hne hinside hnames
    subst hnames
    exact ⟨rfl, hne, hinside⟩
  · rintro ⟨rfl, hne, hinside⟩
    rw [List.drop_left]
    exact ⟨⟨⟨List.prefix_append _ _, hne⟩, hinside⟩, rfl⟩

/-- **What is listed below a place** is what names lead to from there. -/
theorem IsSound.mem_below (h : t.IsSound) :
    (names, e) ∈ t.below at_ ↔
      names ≠ [] ∧ (∀ n ∈ names, IsName n) ∧ t.entry? (at_ ++ names) = some e := by
  unfold below
  simp only [List.mem_mergeSort, List.mem_filterMap, Option.map_eq_some_iff, namesFrom?_iff,
    Prod.mk.injEq]
  refine ⟨?_, ?_⟩
  · rintro ⟨⟨_, _⟩, hmem, _, ⟨rfl, hne, hinside⟩, rfl, rfl⟩
    have hentry := h.entry_of_mem hmem
    exact ⟨hne, h.isName_of_entry hne hinside hentry, hentry⟩
  · rintro ⟨hne, hnames, hentry⟩
    have hinside : ∀ n ∈ names, n ≠ ".." ∧ n ≠ "/" := fun n hn =>
      ⟨(hnames n hn).2.2.2, (hnames n hn).ne_slash⟩
    exact ⟨_, h.mem_of_entry hne hnames hentry, _, ⟨rfl, hne, hinside⟩, rfl, rfl⟩

/-! ## The order of the list -/

theorem orderNames_eq (as bs : List String) :
    Path.orderNames as bs = List.compareLex compare as bs := by
  induction as generalizing bs with
  | nil => cases bs <;> rfl
  | cons a as ih =>
      cases bs with
      | nil => rfl
      | cons b bs => rw [Path.orderNames, List.compareLex_cons_cons, ih]

instance : Std.TransCmp Path.orderNames := by
  rw [funext₂ orderNames_eq]
  infer_instance

instance : Std.LawfulEqCmp Path.orderNames := by
  rw [funext₂ orderNames_eq]
  infer_instance

/-- The same names at the front do not change the order. -/
theorem orderNames_append (as bs cs : List String) :
    Path.orderNames (as ++ bs) (as ++ cs) = Path.orderNames bs cs := by
  induction as with
  | nil => rfl
  | cons a as ih =>
      have hself : compare a a = .eq := Std.ReflCmp.compare_self
      rw [List.cons_append, List.cons_append, Path.orderNames, hself, ih]
      rfl

instance {α : Type} : Std.TransCmp fun a b : List String × α => Path.orderNames a.1 b.1 :=
  Sorting.transCmp_on Path.orderNames Prod.fst

/-- **The list is in the order of the names**, and nothing comes twice. -/
theorem IsSound.below_sorted (h : t.IsSound) (at_ : Place) :
    (t.below at_).Pairwise fun a b => Path.orderNames a.1 b.1 = .lt := by
  have hsorted : (t.below at_).Pairwise fun a b => (Path.orderNames a.1 b.1).isLE = true :=
    Sorting.pairwise_sorted _
  have hdistinct : ((t.below at_).map (·.1)).Nodup := by
    have hplaces : t.entries.Pairwise fun a b => a.1 ≠ b.1 := List.pairwise_map.mp h.distinct
    unfold below
    rw [((List.mergeSort_perm _ _).map _).nodup_iff]
    refine List.pairwise_map.mpr (hplaces.filterMap _ fun a b hne x hx y hy => ?_)
    obtain ⟨names, hnames, rfl⟩ := Option.map_eq_some_iff.mp hx
    obtain ⟨names', hnames', rfl⟩ := Option.map_eq_some_iff.mp hy
    rintro rfl
    exact hne ((namesFrom?_iff.mp hnames).1.trans (namesFrom?_iff.mp hnames').1.symm)
  exact List.pairwise_map.mp (Sorting.pairwise_lt (List.pairwise_map.mpr hsorted) hdistinct)

/-! ## Operations keep trees sound -/

/-- The names of the path lead into directories or back out of them. -/
def Leads (p : Path) : Prop := ∀ n ∈ p.names, n = ".." ∨ IsName n

theorem isSound_empty : ({} : Tree).IsSound := ⟨by simp, by simp⟩

/-- What takes the place of a directory is a directory. -/
theorem keepsDirectories_replaced (hkind : e = .directory ∨ t.entry? at_ ≠ some .directory)
    (houtside : isOutside at_ = false) : KeepsDirectories t (t.put at_ e) := by
  intro other hother
  by_cases heq : other = at_
  · rw [heq, put_entry houtside]
    rcases hkind with rfl | hnot
    · rfl
    · exact absurd (heq ▸ hother) hnot
  · rw [put_entry_of_ne heq, hother]

theorem places_put (t : Tree) (at_ : Place) (e : Entry) :
    (t.put at_ e).entries.map (·.1) = t.entries.map (·.1) ∨
      at_ ∉ t.entries.map (·.1) ∧ (t.put at_ e).entries.map (·.1) = t.entries.map (·.1) ++ [at_] := by
  unfold Tree.put
  split
  · refine Or.inl ?_
    rw [List.map_map]
    refine List.map_congr_left fun old _ => ?_
    by_cases hold : old.1 = at_
    · simp [hold]
    · simp [hold]
  · rename_i hany
    refine Or.inr ⟨?_, by simp⟩
    simpa using hany

/-- **Step.** What is put under a name into a directory stands there. -/
theorem IsSound.put (h : t.IsSound) (hname : IsName name) (habove : t.entry? at_ = some .directory)
    (hkind : e = .directory ∨ t.entry? (at_ ++ [name]) ≠ some .directory) :
    (t.put (at_ ++ [name]) e).IsSound := by
  -- writing at a place changes no directory into anything else
  have hkept : KeepsDirectories t (t.put (at_ ++ [name]) e) :=
    keepsDirectories_replaced hkind (isOutside_of_isName hname)
  have hold : ∀ place ∈ t.entries.map (·.1), ∃ above name', place = above ++ [name'] ∧
      IsName name' ∧ Tree.entry? (t.put (at_ ++ [name]) e) above = some .directory := by
    intro place hplace
    obtain ⟨above, name', rfl, hname', hdirectory⟩ := h.placed place hplace
    exact ⟨above, name', rfl, hname', hkept above hdirectory⟩
  -- a place that was there keeps its position, a new one comes last
  rcases places_put t (at_ ++ [name]) e with hsame | ⟨hnew, hmore⟩
  · refine ⟨?_, ?_⟩
    · rw [hsame]
      exact h.distinct
    · rw [hsame]
      exact hold
  · refine ⟨?_, ?_⟩
    · rw [hmore, List.nodup_append]
      refine ⟨h.distinct, by simp, fun place hplace other hother => ?_⟩
      rw [List.mem_singleton.mp hother]
      rintro rfl
      exact hnew hplace
    · rw [hmore, List.forall_mem_append, List.forall_mem_singleton]
      exact ⟨hold, at_, name, rfl, hname, hkept at_ habove⟩

/-- **Step.** Where a file is removed, nothing stood in it. -/
theorem IsSound.remove (h : t.IsSound) (hfile : t.entry? at_ ≠ some .directory) :
    (t.remove at_).IsSound where
  distinct := h.distinct.sublist (List.filter_sublist.map _)
  placed := by
    intro place hplace
    obtain ⟨entry, hentry, rfl⟩ := List.mem_map.mp hplace
    obtain ⟨above, name, heq, hname, hdirectory⟩ :=
      h.placed _ (List.mem_map_of_mem (List.mem_filter.mp hentry).1)
    refine ⟨above, name, heq, hname, ?_⟩
    rw [remove_entry_of_ne, hdirectory]
    rintro rfl
    exact hfile hdirectory

/-- The way back out of a directory leads to a directory. -/
theorem IsSound.step_back (h : t.IsSound) (hdirectory : t.entry? at_ = some .directory) :
    t.entry? (step at_ "..") = some .directory := by
  unfold step
  rw [if_pos rfl]
  split
  · exact hdirectory
  · cases houtside : isOutside at_ with
    | true =>
        refine outside_entry (isOutside_append.mpr ⟨houtside, Or.inl rfl⟩)
    | false =>
        rcases List.eq_nil_or_concat' at_ with rfl | ⟨above, name, rfl⟩
        · exact absurd houtside (by decide)
        · rw [if_neg (by simp), List.dropLast_concat]
          exact (h.of_inside houtside hdirectory).2.2

/-- A path leads to a directory, or to a name in a directory. -/
theorem IsSound.target_cases (h : t.IsSound) (hp : Leads p) (htarget : t.target p = .ok at_) :
    t.entry? at_ = some .directory ∨
      ∃ above name, at_ = above ++ [name] ∧ IsName name ∧ t.entry? above = some .directory := by
  by_cases hnames : p.names = []
  · rw [target_eq htarget, place_of_nil hnames]
    exact Or.inl (outside_entry isOutside_origin)
  · obtain ⟨_, hdirectory, rfl⟩ := (target_iff hnames).mp htarget
    rw [place_eq hnames]
    have hlast : p.name ∈ p.names := by
      rw [names_eq hnames]
      simp
    rcases hp _ hlast with hback | hname
    · rw [hback]
      exact Or.inl (h.step_back hdirectory)
    · refine Or.inr ⟨_, p.name, ?_, hname, hdirectory⟩
      unfold step
      rw [if_neg hname.2.2.2]

/-- **Writing a file keeps the tree sound.** -/
theorem IsSound.write (h : t.IsSound) (hp : Leads p) {bytes : List UInt8} {changed : Int}
    (hwrite : t.write p bytes changed = .ok t') : t'.IsSound := by
  unfold Tree.write at hwrite
  split at hwrite
  · exact absurd hwrite (by simp)
  · rename_i at_ htarget
    split at hwrite
    · exact absurd hwrite (by simp)
    · rename_i hentry
      cases hwrite
      rcases h.target_cases hp htarget with hdirectory | ⟨above, name, rfl, hname, hdirectory⟩
      · exact absurd hdirectory hentry
      · exact h.put hname hdirectory (Or.inr hentry)

/-- **Deleting a file keeps the tree sound.** -/
theorem IsSound.delete (h : t.IsSound) (hdelete : t.delete p = .ok t') : t'.IsSound := by
  unfold Tree.delete at hdelete
  split at hdelete
  · exact absurd hdelete (by simp)
  · split at hdelete
    · rename_i hfile
      cases hdelete
      refine h.remove ?_
      rw [hfile]
      simp
    · exact absurd hdelete (by simp)

theorem IsSound.ensureOne (h : t.IsSound) (hp : Leads p) : (t.ensureOne p).1.IsSound := by
  unfold Tree.ensureOne
  split
  · rename_i t' hmade
    obtain ⟨at_, htarget, hnone, rfl⟩ := makeOne_ok hmade
    rcases h.target_cases hp htarget with hdirectory | ⟨above, name, rfl, hname, hdirectory⟩
    · exact absurd (hnone.symm.trans hdirectory) (by simp)
    · exact h.put hname hdirectory (Or.inl rfl)
  · exact h

/-- **Making directories keeps the tree sound**, also where not all of them can be made. -/
theorem IsSound.makeDirectories (h : t.IsSound) (hp : Leads p) :
    (t.makeDirectories p).1.IsSound := by
  have hwithin (fuel : Nat) {t : Tree} {p : Path} (h : t.IsSound) (hp : Leads p) :
      (t.makeDirectoriesWithin fuel p).1.IsSound := by
    induction fuel generalizing t p with
    | zero => exact h
    | succ fuel ih =>
        unfold makeDirectoriesWithin
        split
        · split
          · exact h
          · have hparent : Leads p.parent := fun n hn => hp n (List.dropLast_subset _ hn)
            have habove := ih h hparent
            split
            · rename_i hmade
              rw [hmade] at habove
              exact habove.ensureOne hp
            · rename_i hmade
              rwa [hmade] at habove
        · exact h.ensureOne hp
  exact hwithin _ h hp

theorem leads_ofText (s : String) : Leads (.ofText s) := by
  intro n hn
  obtain ⟨hempty, hslash, hdot⟩ := (Path.ofText_isSpelled s).names n hn
  by_cases hback : n = ".."
  · exact Or.inl hback
  · exact Or.inr ⟨hempty, hslash, hdot, hback⟩

/-- The tree came about by operations on files. -/
inductive IsMade : Tree → Prop
  | empty : IsMade {}
  | wrote {t t' : Tree} {s : String} {bytes : List UInt8} {changed : Int} (before : IsMade t)
      (write : t.write (.ofText s) bytes changed = .ok t') : IsMade t'
  | deleted {t t' : Tree} {s : String} (before : IsMade t)
      (delete : t.delete (.ofText s) = .ok t') : IsMade t'
  | madeDirectories {t : Tree} {s : String} (before : IsMade t) :
      IsMade (t.makeDirectories (.ofText s)).1

/-- **Run.** All that operations on files make is trees. -/
theorem IsMade.isSound (h : IsMade t) : t.IsSound := by
  induction h with
  | empty => exact isSound_empty
  | wrote _ hwrite ih => exact ih.write (leads_ofText _) hwrite
  | deleted _ hdelete ih => exact ih.delete hdelete
  | madeDirectories _ ih => exact ih.makeDirectories (leads_ofText _)

end LockAudit.File.Tree
