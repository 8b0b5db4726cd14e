import LockAudit.File.Tree
import LockAudit.Proofs.Result
import Mathlib.Data.List.Perm.Subperm
import Mathlib.Data.List.Nodup

/-!
# What file operations leave alone

A path leads to one place, or to none for the moment. Which one it is follows from its
names alone: `place` goes from name to name without asking what stands there. So one can
speak of the file at a path's place also while the path does not lead to it.

An operation is described by what it keeps, place by place. Making directories leaves a
place `Undisturbed`, or makes a directory on the path's way there, whether all of them can
be made or not. So the tree `Grows`: all that stood somewhere still stands there, and
nothing but directories is new.
-/

namespace LockAudit.File.Tree

variable {t t' t'' : Tree} {p : Path} {at_ other : Place} {e : Entry}

/-! ## One place -/

/-- What stands outside is a directory, whatever the tree holds. -/
theorem outside_entry (h : isOutside at_ = true) : t.entry? at_ = some .directory := by
  simp [Tree.entry?, h]

theorem inside_entry (h : isOutside at_ = false) : t.entry? at_ = t.entries.lookup at_ := by
  simp [Tree.entry?, h]

section Entries

variable {entries : List (Place × Entry)}

theorem lookup_cons_of_ne {entry : Place × Entry} (h : other ≠ entry.1) :
    (entry :: entries).lookup other = entries.lookup other := by
  have hne : (other == entry.1) = false := beq_eq_false_iff_ne.mpr h
  rw [List.lookup_cons, hne]

theorem lookup_replaced (hany : entries.any (·.1 == at_) = true) :
    (entries.map fun old => if old.1 == at_ then (at_, e) else old).lookup at_ = some e := by
  induction entries with
  | nil => exact absurd hany (by simp)
  | cons old entries ih =>
      rw [List.map_cons]
      by_cases hold : old.1 = at_
      · rw [if_pos (beq_iff_eq.mpr hold), List.lookup_cons_self]
      · have hany : entries.any (·.1 == at_) = true := by simpa [hold] using hany
        rw [if_neg (by simpa using hold), lookup_cons_of_ne (Ne.symm hold)]
        exact ih hany

theorem lookup_replaced_of_ne (h : other ≠ at_) :
    (entries.map fun old => if old.1 == at_ then (at_, e) else old).lookup other =
      entries.lookup other := by
  induction entries with
  | nil => rfl
  | cons old entries ih =>
      rw [List.map_cons]
      by_cases hold : old.1 = at_
      · rw [if_pos (beq_iff_eq.mpr hold), lookup_cons_of_ne h, lookup_cons_of_ne (hold ▸ h), ih]
      · rw [if_neg (by simpa using hold), List.lookup_cons, List.lookup_cons, ih]

theorem lookup_kept (h : other ≠ at_) :
    (entries.filter (·.1 != at_)).lookup other = entries.lookup other := by
  induction entries with
  | nil => rfl
  | cons old entries ih =>
      rw [List.filter_cons]
      by_cases hold : old.1 = at_
      · rw [if_neg (by simpa using hold), lookup_cons_of_ne (hold ▸ h), ih]
      · rw [if_pos (by simpa using hold), List.lookup_cons, List.lookup_cons, ih]

theorem lookup_dropped : (entries.filter (·.1 != at_)).lookup at_ = none := by
  rw [List.lookup_eq_none_iff]
  intro entry hentry
  rw [bne_comm]
  exact (List.mem_filter.mp hentry).2

end Entries

theorem put_entry (h : isOutside at_ = false) : Tree.entry? (t.put at_ e) at_ = some e := by
  rw [inside_entry h]
  unfold put
  cases hany : t.entries.any (·.1 == at_) with
  | true => exact lookup_replaced hany
  | false =>
      have hnew : t.entries.lookup at_ = none := by
        rw [List.lookup_eq_none_iff]
        intro entry hentry
        refine bne_iff_ne.mpr fun heq => ?_
        exact List.any_eq_false.mp hany entry hentry (beq_iff_eq.mpr heq.symm)
      simp only [Bool.false_eq_true, if_false, List.lookup_append, hnew, Option.none_or,
        List.lookup_cons_self]

theorem put_entry_of_ne (h : other ≠ at_) :
    Tree.entry? (t.put at_ e) other = t.entry? other := by
  cases houtside : isOutside other with
  | true => rw [outside_entry houtside, outside_entry houtside]
  | false =>
      rw [inside_entry houtside, inside_entry houtside]
      unfold put
      split
      · exact lookup_replaced_of_ne h
      · rw [List.lookup_append, lookup_cons_of_ne h, List.lookup_nil, Option.or_none]

/-- A free place is none where something stands. -/
theorem ne_of_free (hfree : t.entry? at_ = none) (h : t.entry? other = some e) : other ≠ at_ := by
  rintro rfl
  exact absurd (hfree.symm.trans h) (by simp)

theorem remove_entry (h : isOutside at_ = false) : Tree.entry? (t.remove at_) at_ = none := by
  rw [inside_entry h]
  exact lookup_dropped

theorem remove_entry_of_ne (h : other ≠ at_) :
    Tree.entry? (t.remove at_) other = t.entry? other := by
  cases houtside : isOutside other with
  | true => rw [outside_entry houtside, outside_entry houtside]
  | false =>
      rw [inside_entry houtside, inside_entry houtside]
      exact lookup_kept h

/-- What is put at a free place and removed again leaves nothing behind. -/
theorem put_remove_entry (h : isOutside at_ = false) (hfree : t.entry? at_ = none) :
    Tree.entry? ((t.put at_ e).remove at_) other = t.entry? other := by
  by_cases hother : other = at_
  · rw [hother, remove_entry h, hfree]
  · rw [remove_entry_of_ne hother, put_entry_of_ne hother]

/-- The tree holds the places inside at which something stands. -/
theorem mem_of_occupied (h : isOutside at_ = false) (hsome : t.entry? at_ ≠ none) :
    at_ ∈ t.entries.map (·.1) := by
  rw [inside_entry h] at hsome
  by_contra hnot
  refine hsome (List.lookup_eq_none_iff.mpr fun entry hentry => bne_iff_ne.mpr ?_)
  rintro rfl
  exact hnot (List.mem_map_of_mem hentry)

/-- Where nothing or a file stands is inside the working directory. -/
theorem isOutside_eq_false (h : t.entry? at_ ≠ some .directory) : isOutside at_ = false := by
  rw [← Bool.not_eq_true]
  exact fun houtside => h (outside_entry houtside)

/-! ## Paths -/

/-- The place of a path, whatever stands there. -/
def place (p : Path) : Place := p.names.foldl step (origin p)

theorem isOutside_origin : isOutside (origin p) = true := by
  unfold origin
  split <;> rfl

theorem place_of_nil (h : p.names = []) : place p = origin p := by rw [place, h, List.foldl_nil]

/-- The names that are followed lead from place to place. -/
theorem follow_ok {names : List String} (h : t.follow at_ names = .ok other) :
    other = names.foldl step at_ := by
  induction names generalizing at_ with
  | nil =>
      cases h
      rfl
  | cons name names ih =>
      unfold follow at h
      split at h
      · simp only at h
        split at h
        · exact ih h
        · exact absurd h (by simp)
      · exact absurd h (by simp)
      · exact absurd h (by simp)

theorem follow_cons {name : String} {names : List String} :
    t.follow at_ (name :: names) = .ok other ↔
      t.entry? at_ = some .directory ∧ (t.entry? (step at_ name)).isSome = true ∧
        t.follow (step at_ name) names = .ok other := by
  rw [follow]
  split
  · rename_i hdirectory
    by_cases hnext : (t.entry? (step at_ name)).isSome = true
    · simp [hdirectory, hnext]
    · simp [hdirectory, hnext]
  · rename_i hfile
    simp [hfile]
  · rename_i hnone
    simp [hnone]

theorem follow_append {names names' : List String} :
    t.follow at_ (names ++ names') = .ok other ↔
      ∃ between, t.follow at_ names = .ok between ∧ t.follow between names' = .ok other := by
  induction names generalizing at_ with
  | nil => simp [follow]
  | cons name names ih =>
      rw [List.cons_append, follow_cons, ih]
      simp only [follow_cons]
      refine ⟨?_, ?_⟩
      · intro h
        obtain ⟨hdirectory, hnext, between, hbetween, hother⟩ := h
        exact ⟨between, ⟨hdirectory, hnext, hbetween⟩, hother⟩
      · intro h
        obtain ⟨between, ⟨hdirectory, hnext, hbetween⟩, hother⟩ := h
        exact ⟨hdirectory, hnext, between, hbetween, hother⟩

/-- The tree has all the directories of another one. -/
def KeepsDirectories (t t' : Tree) : Prop :=
  ∀ at_, t.entry? at_ = some .directory → t'.entry? at_ = some .directory

/-- All that is passed on the way to a directory is directories. -/
theorem follow_kept (hkept : KeepsDirectories t t') {names : List String}
    (h : t.follow at_ names = .ok other) (hother : t.entry? other = some .directory) :
    t'.follow at_ names = .ok other := by
  induction names generalizing at_ with
  | nil => simpa [follow] using h
  | cons name names ih =>
      obtain ⟨hdirectory, _, hrest⟩ := follow_cons.mp h
      -- where more names follow, a directory stands
      have hnext : t.entry? (step at_ name) = some .directory := by
        cases names with
        | nil =>
            cases hrest
            exact hother
        | cons name' names' => exact (follow_cons.mp hrest).1
      refine follow_cons.mpr ⟨hkept _ hdirectory, ?_, ih hrest⟩
      rw [hkept _ hnext]
      rfl

theorem find_ok (h : t.find p = .ok at_) : at_ = place p := follow_ok h

theorem names_eq (h : p.names ≠ []) : p.names = p.parent.names ++ [p.name] := by
  unfold Path.parent Path.name
  rw [List.getLast?_eq_getLast_of_ne_nil h, Option.getD_some]
  exact (List.dropLast_append_getLast h).symm

theorem place_eq (h : p.names ≠ []) : place p = step (place p.parent) p.name := by
  unfold place
  rw [names_eq h, List.foldl_append]
  rfl

/-- A path leads to its place through the directory above it. -/
theorem find_iff (h : p.names ≠ []) :
    t.find p = .ok at_ ↔ t.find p.parent = .ok (place p.parent) ∧
      t.entry? (place p.parent) = some .directory ∧ (t.entry? (place p)).isSome = true ∧
        at_ = place p := by
  unfold find
  rw [names_eq h, follow_append]
  simp only [follow_cons, place_eq h]
  refine ⟨?_, ?_⟩
  · intro h
    obtain ⟨above, habove, hdirectory, hsome, hat⟩ := h
    obtain rfl : above = place p.parent := follow_ok habove
    cases hat
    exact ⟨habove, hdirectory, hsome, rfl⟩
  · intro h
    obtain ⟨habove, hdirectory, hsome, rfl⟩ := h
    exact ⟨_, habove, hdirectory, hsome, rfl⟩

theorem target_iff (h : p.names ≠ []) :
    t.target p = .ok at_ ↔ t.find p.parent = .ok (place p.parent) ∧
      t.entry? (place p.parent) = some .directory ∧ at_ = place p := by
  have hlast : p.names.getLast? = some p.name := by
    rw [names_eq h, List.getLast?_concat]
  unfold target
  rw [hlast]
  simp only [Result.bind_ok, place_eq h]
  refine ⟨?_, ?_⟩
  · intro h
    obtain ⟨above, habove, h⟩ := h
    -- a path that is found leads to its own place
    obtain rfl : above = place p.parent := find_ok habove
    split at h
    · rename_i hdirectory
      cases h
      exact ⟨habove, hdirectory, rfl⟩
    · exact absurd h (by simp)
  · intro h
    obtain ⟨habove, hdirectory, rfl⟩ := h
    refine ⟨_, habove, ?_⟩
    rw [hdirectory]
    rfl

/-- Where a path would lead is its place, whatever stands there. -/
theorem target_eq (h : t.target p = .ok at_) : at_ = place p := by
  by_cases hnames : p.names = []
  · rw [target, hnames] at h
    cases h
    exact (place_of_nil hnames).symm
  · exact ((target_iff hnames).mp h).2.2

theorem read_iff {bytes : List UInt8} {changed : Int} :
    t.read p = .ok (bytes, changed) ↔
      t.find p = .ok (place p) ∧ t.entry? (place p) = some (.file bytes changed) := by
  unfold read
  refine ⟨?_, ?_⟩
  · intro h
    split at h
    · exact absurd h (by simp)
    · rename_i found hfound
      obtain rfl : found = place p := find_ok hfound
      split at h
      · rename_i hentry
        cases h
        exact ⟨hfound, hentry⟩
      · exact absurd h (by simp)
  · intro h
    obtain ⟨hfound, hentry⟩ := h
    rw [hfound]
    simp only [hentry]

/-- A file is still read where it and all directories are still there. -/
theorem read_kept {bytes : List UInt8} {changed : Int} (hkept : KeepsDirectories t t')
    (hfile : t'.entry? (place p) = t.entry? (place p)) (h : t.read p = .ok (bytes, changed)) :
    t'.read p = .ok (bytes, changed) := by
  obtain ⟨hfound, hentry⟩ := read_iff.mp h
  refine read_iff.mpr ⟨?_, hfile.trans hentry⟩
  have hnames : p.names ≠ [] := by
    intro hnil
    rw [place_of_nil hnil, outside_entry isOutside_origin] at hentry
    exact absurd hentry (by simp)
  obtain ⟨habove, hdirectory, hsome, _⟩ := (find_iff hnames).mp hfound
  exact (find_iff hnames).mpr
    ⟨follow_kept hkept habove hdirectory, hkept _ hdirectory, hfile ▸ hsome, rfl⟩

/-! ## Making directories -/

/-- What stood somewhere still stands there, and nothing but directories is new. -/
structure Grows (t t' : Tree) : Prop where
  keeps : ∀ at_ e, t.entry? at_ = some e → t'.entry? at_ = some e
  adds : ∀ at_, t.entry? at_ = none → t'.entry? at_ = none ∨ t'.entry? at_ = some .directory

theorem makeOne_ok (h : t.makeOne p = .ok t') :
    ∃ at_, t.target p = .ok at_ ∧ t.entry? at_ = none ∧ t' = t.put at_ .directory := by
  obtain ⟨at_, htarget, h⟩ := Result.bind_ok.mp h
  split at h
  · exact absurd h (by simp)
  · rename_i hnone
    cases h
    exact ⟨at_, htarget, by simpa using hnone, rfl⟩

/-- A directory stands at the path. -/
def HasDirectory (t : Tree) (p : Path) : Prop :=
  t.find p = .ok (place p) ∧ t.entry? (place p) = some .directory

theorem HasDirectory.kept (h : HasDirectory t p) (hkept : KeepsDirectories t t') :
    HasDirectory t' p :=
  ⟨follow_kept hkept h.1 h.2, hkept _ h.2⟩

/-- What is put into a free place takes no directory away. -/
theorem keepsDirectories_put (h : t.entry? at_ = none) : KeepsDirectories t (t.put at_ e) := by
  intro other hdirectory
  rw [put_entry_of_ne (ne_of_free h hdirectory), hdirectory]

theorem isDirectory_iff : t.isDirectory p = true ↔ HasDirectory t p := by
  unfold isDirectory lookup? HasDirectory
  refine ⟨?_, ?_⟩
  · intro h
    split at h
    · rename_i found hfound
      obtain rfl : found = place p := find_ok hfound
      exact ⟨hfound, beq_iff_eq.mp h⟩
    · exact absurd h (by decide)
  · intro h
    rw [h.1]
    exact beq_iff_eq.mpr h.2

theorem makeOne_hasDirectory (h : t.makeOne p = .ok t') : HasDirectory t' p := by
  obtain ⟨at_, htarget, hnone, rfl⟩ := makeOne_ok h
  have hinside : isOutside at_ = false := isOutside_eq_false (by rw [hnone]; simp)
  -- a path without names leads outside, where nothing is ever made
  have hnames : p.names ≠ [] := by
    intro hnil
    rw [target, hnil] at htarget
    cases htarget
    rw [isOutside_origin] at hinside
    exact absurd hinside (by simp)
  obtain ⟨habove, hdirectory, rfl⟩ := (target_iff hnames).mp htarget
  have hput : Tree.entry? (t.put (place p) .directory) (place p) = some .directory :=
    put_entry hinside
  have hparent : HasDirectory (t.put (place p) .directory) p.parent :=
    HasDirectory.kept ⟨habove, hdirectory⟩ (keepsDirectories_put hnone)
  exact ⟨(find_iff hnames).mpr ⟨hparent.1, hparent.2, by rw [hput]; rfl, rfl⟩, hput⟩

/-- The place is as it was, or nothing was there and a directory is made, on the way of
the path. -/
inductive Undisturbed (p : Path) (t t' : Tree) (at_ : Place) : Prop
  | same (h : t'.entry? at_ = t.entry? at_) : Undisturbed p t t' at_
  | made (count : Nat) (way : at_ = place (p.upTo count)) (free : t.entry? at_ = none)
      (directory : t'.entry? at_ = some .directory) : Undisturbed p t t' at_

namespace Undisturbed

theorem trans (h : Undisturbed p t t' at_) (h' : Undisturbed p t' t'' at_) :
    Undisturbed p t t'' at_ := by
  cases h with
  | same heq =>
      cases h' with
      | same heq' => exact .same (heq'.trans heq)
      | made count way free directory => exact .made count way (heq ▸ free) directory
  | made count way free directory =>
      cases h' with
      | same heq' => exact .made count way free (heq'.trans directory)
      | made _ _ free' _ => exact absurd (free'.symm.trans directory) (by simp)

/-- The way of a path leads over the ways of those above it. -/
theorem of_upTo {count : Nat} (h : Undisturbed (p.upTo count) t t' at_) :
    Undisturbed p t t' at_ := by
  cases h with
  | same heq => exact .same heq
  | made count' way free directory =>
      refine .made (min count' count) ?_ free directory
      rw [way, Path.upTo, Path.upTo, Path.upTo, List.take_take]

theorem of_parent (h : Undisturbed p.parent t t' at_) : Undisturbed p t t' at_ := by
  have hparent : p.parent = p.upTo (p.names.length - 1) := by
    rw [Path.parent, Path.upTo, List.dropLast_eq_take]
  rw [hparent] at h
  exact h.of_upTo

/-- What stood there still stands there. -/
theorem keeps (h : Undisturbed p t t' at_) (he : t.entry? at_ = some e) :
    t'.entry? at_ = some e := by
  cases h with
  | same heq => rw [heq, he]
  | made _ _ free _ => exact absurd (free.symm.trans he) (by simp)

/-- A file that stands there stood there before. -/
theorem file {bytes : List UInt8} {changed : Int} (h : Undisturbed p t t' at_)
    (hfile : t'.entry? at_ = some (.file bytes changed)) :
    t.entry? at_ = some (.file bytes changed) := by
  cases h with
  | same heq => rw [← heq, hfile]
  | made _ _ _ directory => exact absurd (directory.symm.trans hfile) (by simp)

end Undisturbed

theorem Grows.of_undisturbed (h : ∀ at_, Undisturbed p t t' at_) : Grows t t' := by
  refine ⟨fun at_ e he => (h at_).keeps he, fun at_ hnone => ?_⟩
  cases h at_ with
  | same heq => exact Or.inl (heq.trans hnone)
  | made _ _ _ directory => exact Or.inr directory

theorem makeOne_undisturbed (h : t.makeOne p = .ok t') (at_ : Place) :
    Undisturbed p t t' at_ := by
  obtain ⟨new, htarget, hfree, rfl⟩ := makeOne_ok h
  have hinside : isOutside new = false := isOutside_eq_false (by rw [hfree]; simp)
  by_cases hat : at_ = new
  · subst hat
    refine .made p.names.length ?_ hfree (put_entry hinside)
    rw [target_eq htarget, Path.upTo, List.take_length]
  · exact .same (put_entry_of_ne hat)

theorem ensureOne_undisturbed (at_ : Place) : Undisturbed p t (t.ensureOne p).1 at_ := by
  unfold ensureOne
  split
  · rename_i t' hmade
    exact makeOne_undisturbed hmade at_
  · exact .same rfl

theorem makeDirectoriesWithin_undisturbed {fuel : Nat} (at_ : Place) :
    Undisturbed p t (t.makeDirectoriesWithin fuel p).1 at_ := by
  induction fuel generalizing t p with
  | zero => exact .same rfl
  | succ fuel ih =>
      unfold makeDirectoriesWithin
      split
      · split
        · exact .same rfl
        · -- the directories above come first, in a tree that has grown by then
          have habove := (ih (t := t) (p := p.parent)).of_parent
          split
          · rename_i t' hmade
            rw [hmade] at habove
            exact habove.trans (ensureOne_undisturbed at_)
          · rename_i t' fault hmade
            rwa [hmade] at habove
      · exact ensureOne_undisturbed at_

/-- **Making directories makes directories on the way, and does nothing else.** -/
theorem makeDirectories_undisturbed (at_ : Place) :
    Undisturbed p t (t.makeDirectories p).1 at_ :=
  makeDirectoriesWithin_undisturbed at_

/-- What making directories comes to: the tree has grown, and if nothing went wrong the
directory is there. -/
def Makes (t : Tree) (p : Path) (made : Tree × Except Fault Unit) : Prop :=
  Grows t made.1 ∧ (made.2 = .ok () → HasDirectory made.1 p)

theorem ensureOne_hasDirectory (h : (t.ensureOne p).2 = .ok ()) :
    HasDirectory (t.ensureOne p).1 p := by
  unfold ensureOne at h ⊢
  split at h
  · rename_i t' hmade
    exact makeOne_hasDirectory hmade
  · split at h
    · rename_i hdirectory
      exact isDirectory_iff.mp hdirectory
    · exact absurd h (by simp)

theorem makeDirectoriesWithin_hasDirectory {fuel : Nat}
    (h : (t.makeDirectoriesWithin fuel p).2 = .ok ()) :
    HasDirectory (t.makeDirectoriesWithin fuel p).1 p := by
  cases fuel with
  | zero => exact absurd h (by simp [makeDirectoriesWithin])
  | succ fuel =>
      generalize hmade : t.makeDirectoriesWithin (fuel + 1) p = made at h ⊢
      -- the directory itself comes last
      unfold makeDirectoriesWithin at hmade
      split at hmade
      · split at hmade
        · subst hmade
          exact absurd h (by simp)
        · split at hmade
          · subst hmade
            exact ensureOne_hasDirectory h
          · subst hmade
            exact absurd h (by simp)
      · subst hmade
        exact ensureOne_hasDirectory h

theorem makeDirectories_makes : Makes t p (t.makeDirectories p) :=
  ⟨.of_undisturbed makeDirectories_undisturbed, makeDirectoriesWithin_hasDirectory⟩

/-! ## Renaming -/

theorem rename_ok {source : Place} (h : t.rename source p = .ok t') :
    HasDirectory t p.parent ∧ t.entry? (place p) ≠ some .directory ∧ p.names ≠ [] ∧
      ∃ e, t.entry? source = some e ∧ t' = (t.remove source).put (place p) e := by
  unfold rename at h
  have hnames : p.names ≠ [] := by
    intro hnil
    have hname : p.name = "" := by rw [Path.name, hnil]; rfl
    rw [hname] at h
    exact absurd h (by simp)
  split at h
  · exact absurd h (by simp)
  obtain ⟨at_, htarget, h⟩ := Result.bind_ok.mp h
  obtain ⟨habove, hdirectory, rfl⟩ := (target_iff hnames).mp htarget
  split at h
  · exact absurd h (by simp)
  · exact absurd h (by simp)
  · rename_i e hsource hfree
    cases h
    exact ⟨⟨habove, hdirectory⟩, hfree, hnames, e, hsource, rfl⟩

/-- Only the two places of a renaming change. -/
theorem rename_entry_of_ne {source : Place} (h : t.rename source p = .ok t')
    (hsource : at_ ≠ source) (hplace : at_ ≠ place p) : t'.entry? at_ = t.entry? at_ := by
  obtain ⟨_, _, _, e, _, rfl⟩ := rename_ok h
  rw [put_entry_of_ne hplace, remove_entry_of_ne hsource]

/-- A file that was renamed to a path is read there. -/
theorem rename_reads {source : Place} {bytes : List UInt8} {changed : Int}
    (h : t.rename source p = .ok t') (hfile : t.entry? source = some (.file bytes changed)) :
    t'.read p = .ok (bytes, changed) := by
  obtain ⟨⟨habove, hdirectory⟩, hfree, hnames, e, hsource, heq⟩ := rename_ok h
  obtain rfl : .file bytes changed = e := Option.some.inj (hfile.symm.trans hsource)
  have hnew : t'.entry? (place p) = some (.file bytes changed) := by
    rw [heq, put_entry (isOutside_eq_false hfree)]
  -- neither of the two places holds a directory before
  have hdirectories : KeepsDirectories t t' := by
    intro at_ hat
    have hnotplace : at_ ≠ place p := by
      rintro rfl
      exact hfree hat
    have hnotsource : at_ ≠ source := by
      rintro rfl
      exact absurd (hfile.symm.trans hat) (by simp)
    rw [rename_entry_of_ne h hnotsource hnotplace, hat]
  refine read_iff.mpr ⟨(find_iff hnames).mpr ⟨?_, hdirectories _ hdirectory, ?_, rfl⟩, hnew⟩
  · exact follow_kept hdirectories habove hdirectory
  · rw [hnew]
    rfl

end LockAudit.File.Tree
