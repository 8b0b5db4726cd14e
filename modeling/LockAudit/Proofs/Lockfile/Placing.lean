import LockAudit.Proofs.Lockfile.Failing

/-!
# Which entry a failure is about

A failure of a lock file that lists its entries is about one of them. If an entry is refused
it is that entry. If a reference means nothing it is the first entry for the dependency that
refers, because entries for one dependency merge and the first one gives the line. `StopsAt`
says which entry it is, and a failure that has a line has the line of that entry, whichever
way the lines of the entries were found.

That need not be the entry in which the failure stands (`StandsIn`): a reference in a later
entry for the same dependency is blamed on the first one as well. An entry with a dependency
of its own gets its own line.
-/

namespace LockAudit.Lockfile

variable {f : Format} {b c : Builder} {i : Nat} {value : Value} {values done : List Value}
  {lines : List Nat} {e : Failure} {path : Option String} {cs : List Char}

/-- The entry states a dependency with this key. -/
def Format.states (f : Format) (key : NodeKey) (value : Value) : Bool :=
  (f.part? value).any (·.node.key == key)

/-- What a lock file with these entries, found on these lines, is refused for, and which of its
entries that is about. -/
inductive Format.StopsAt (f : Format) (values : List Value) (lines : List Nat)
    (path : Option String) (i : Nat) (e : Failure) : Prop
  /-- The entry is refused, and those before it are not. -/
  | entry {value : Value} {b : Builder} (here : values[i]? = some value)
      (added : f.addEntries { path } 0 (values.take i) lines = .ok b)
      (refused : f.addEntry b i value lines[i]? = .error e)
  /-- A reference means nothing. It stands in an entry for the dependency for which this is the
  first one. -/
  | reference {b : Builder} {entry : Entry} {reference : String}
      (added : f.addEntries { path } 0 values lines = .ok b)
      (unresolved : b.FirstUnresolved entry reference)
      (first : values.findIdx? (f.states entry.node.key) = some i)
      (own : ∃ value ∈ values, ∃ p, f.part? value = some p ∧ p.node.key = entry.node.key ∧
        reference ∈ p.references)
      (refused : b.resolve reference entry.line = .error e)

/-! ## The lines that a builder holds -/

/-- What the builder holds of a dependency has the line of the first entry for it. -/
def Builder.IsPlaced (b : Builder) (f : Format) (values : List Value) (lines : List Nat) : Prop :=
  ∀ e ∈ b.entries, ∃ i, values.findIdx? (f.states e.node.key) = some i ∧ e.line = lines[i]?

theorem Format.states_of_part {p : Part} (h : f.part? value = some p) (key : NodeKey) :
    f.states key value = (p.node.key == key) := by
  rw [states, h, Option.any_some]

/-- **Step.** One more entry leaves the lines as they are, and a new dependency has its line. -/
theorem Builder.IsPlaced.insert {p : Part} (hb : b.Holds (done.filterMap f.part?))
    (h : b.IsPlaced f done lines) (hp : f.part? value = some p) :
    (b.insert p.node p.references lines[done.length]?).IsPlaced f (done ++ [value]) lines := by
  -- an entry of before is still the first one
  have hkept {d : Entry} (hd : d ∈ b.entries) : ∃ i,
      (done ++ [value]).findIdx? (f.states d.node.key) = some i ∧ d.line = lines[i]? := by
    obtain ⟨i, hfirst, hline⟩ := h d hd
    refine ⟨i, ?_, hline⟩
    rw [List.findIdx?_append, hfirst]
    rfl
  refine forall_mem_insert _ (fun d hd _ => hkept hd) ?_ ?_
  · intro d hd hsame
    obtain ⟨i, hfirst, hline⟩ := hkept hd
    exact ⟨i, by rw [merge_key hsame]; exact hfirst, hline⟩
  · intro hnew
    refine ⟨done.length, ?_, rfl⟩
    have hnone : done.findIdx? (f.states p.node.key) = none := by
      rw [List.findIdx?_eq_none_iff]
      intro earlier hmem
      cases hearlier : f.part? earlier with
      | none => rw [Format.states, hearlier, Option.any_none]
      | some q =>
          rw [Format.states_of_part hearlier, beq_eq_false_iff_ne]
          intro heq
          refine hnew ((hb.keys p.node.key).mpr ⟨q, ?_, heq⟩)
          exact List.mem_filterMap.mpr ⟨earlier, hmem, hearlier⟩
    rw [List.findIdx?_append, hnone, List.findIdx?_singleton, Format.states_of_part hp]
    simp

/-- **Run.** In the end all dependencies have the lines of their first entries. -/
theorem Builder.IsPlaced.addEntries (hb : b.Holds (done.filterMap f.part?))
    (h : b.IsPlaced f done lines)
    (hadd : f.addEntries b done.length values (lines.drop done.length) = .ok c) :
    c.IsPlaced f (done ++ values) lines := by
  induction values generalizing b done with
  | nil =>
      rw [Format.addEntries_nil] at hadd
      cases hadd
      rwa [List.append_nil]
  | cons value values ih =>
      rw [Format.addEntries_cons, List.head?_drop, List.tail_drop] at hadd
      obtain ⟨next, hnext, hadd⟩ := Result.bind_ok.mp hadd
      obtain ⟨p, hp⟩ := Format.part?_of_addEntry hnext
      rw [Format.addEntry_of_part hp] at hnext
      cases hnext
      obtain ⟨a, _, ha⟩ := Option.bind_eq_some_iff.mp hp
      -- the entry's part joins those held, and its line is the next one
      have hheld : (b.insert p.node p.references lines[done.length]?).Holds
          ((done ++ [value]).filterMap f.part?) := by
        rw [List.filterMap_append, List.filterMap_cons_some hp, List.filterMap_nil]
        exact hb.insert_part ha _
      rw [List.append_cons]
      refine ih hheld (h.insert hb hp) ?_
      rw [List.length_append, List.length_singleton]
      exact hadd

theorem Builder.isPlaced_of_addEntries (h : f.addEntries { path } 0 values lines = .ok b) :
    b.IsPlaced f values lines := by
  have hempty : Builder.IsPlaced { path } f [] lines := by
    intro d hd
    exact absurd hd List.not_mem_nil
  exact hempty.addEntries (.empty path) h

/-! ## Failures -/

/-- What a lock file is refused for is about an entry. -/
theorem Format.Stops.stopsAt (h : f.Stops values lines path e) :
    ∃ i, f.StopsAt values lines path i e := by
  cases h with
  | @entry before after value b values_eq added refused =>
      refine ⟨before.length, .entry ?_ ?_ refused⟩
      · rw [values_eq]
        simp
      · rw [values_eq, List.take_left]
        exact added
  | reference added first refused =>
      obtain ⟨i, hfirst, _⟩ := Builder.isPlaced_of_addEntries added _ first.mem
      exact ⟨i, .reference added first hfirst (first.stated added) refused⟩

theorem Format.StopsAt.stops (h : f.StopsAt values lines path i e) :
    f.Stops values lines path e := by
  cases h with
  | @entry value b here added refused =>
      obtain ⟨hi, rfl⟩ := List.getElem?_eq_some_iff.mp here
      have hlength : (values.take i).length = i := List.length_take_of_le (Nat.le_of_lt hi)
      have hsplit : values = values.take i ++ values[i] :: values.drop (i + 1) := by
        rw [List.getElem_cons_drop hi, List.take_append_drop]
      exact .entry hsplit added (by rw [hlength]; exact refused)
  | reference added unresolved first own refused => exact .reference added unresolved refused

/-- **What a lock file is refused for, and which of its entries that is about.** -/
theorem Format.parseText_error_at (h : f.listed? cs = some values) :
    f.parseText cs path = .error e ↔ ∃ i, f.StopsAt values (f.entryLines cs) path i e := by
  rw [parseText_error h]
  constructor
  · exact Stops.stopsAt
  · rintro ⟨i, hi⟩
    exact hi.stops

namespace Format.StopsAt

theorem lt_length (h : f.StopsAt values lines path i e) : i < values.length := by
  cases h with
  | entry here added refused => exact (List.getElem?_eq_some_iff.mp here).choose
  | reference added unresolved first own refused =>
      exact (List.findIdx?_eq_some_iff_findIdx_eq.mp first).1

/-- **A failure has the line of its entry**, unless it is that of a number. -/
theorem isAt (h : f.StopsAt values lines path i e) : IsAt lines[i]? path e ∨ IsNumber e := by
  cases h with
  | entry here added refused =>
      rcases addEntry_isAt_or refused with hat | ⟨hnumber, _⟩
      · rw [addEntries_path added] at hat
        exact .inl hat
      · exact .inr hnumber
  | reference added unresolved first own refused =>
      obtain ⟨j, hj, hline⟩ := Builder.isPlaced_of_addEntries added _ unresolved.mem
      obtain rfl := Option.some.inj (first.symm.trans hj)
      rcases Builder.resolve_error refused with hat | ⟨hnumber, _⟩
      · rw [addEntries_path added, hline] at hat
        exact .inl hat
      · exact .inr hnumber

end Format.StopsAt

/-! ## The entry in which the failure stands -/

/-- The two entries state one dependency. -/
def Format.AreSame (f : Format) (values : List Value) (i j : Nat) : Prop :=
  ∃ p q, values[i]?.bind f.part? = some p ∧ values[j]?.bind f.part? = some q ∧
    p.node.key = q.node.key

/-- Of the entries that state what entry `j` states the first one is entry `i`. -/
structure Format.IsFirst (f : Format) (values : List Value) (i j : Nat) : Prop where
  le : i ≤ j
  same : i = j ∨ f.AreSame values i j
  first : ∀ k < i, ¬ f.AreSame values k j

/-- What a lock file with these entries is refused for, and in which of its entries that stands:
the entry that is refused, or one with the reference that means nothing. -/
inductive Format.StandsIn (f : Format) (values : List Value) (lines : List Nat)
    (path : Option String) (j : Nat) (e : Failure) : Prop
  | entry {value : Value} {b : Builder} (here : values[j]? = some value)
      (added : f.addEntries { path } 0 (values.take j) lines = .ok b)
      (refused : f.addEntry b j value lines[j]? = .error e)
  | reference {b : Builder} {entry : Entry} {reference : String} {p : Part}
      (added : f.addEntries { path } 0 values lines = .ok b)
      (unresolved : b.FirstUnresolved entry reference)
      (here : values[j]?.bind f.part? = some p) (own : p.node.key = entry.node.key)
      (refers : reference ∈ p.references)
      (refused : b.resolve reference entry.line = .error e)

/-- An entry with a dependency of its own is the first one for it. -/
theorem Format.IsFirst.eq_of_new {j : Nat} (h : f.IsFirst values i j)
    (hnew : ∀ k < j, ¬ f.AreSame values k j) : i = j := by
  rcases h.same with rfl | hsame
  · rfl
  · by_contra hne
    have hle := h.le
    exact hnew i (by omega) hsame

/-- What is said about the first entry stands in one that states the same. -/
theorem Format.StandsIn.stopsAt {j : Nat} (h : f.StandsIn values lines path j e) :
    ∃ i, f.IsFirst values i j ∧ f.StopsAt values lines path i e := by
  cases h with
  | @entry value b here added refused =>
      refine ⟨j, ⟨Nat.le_refl j, .inl rfl, ?_⟩, .entry here added refused⟩
      -- an entry that is refused states nothing
      rintro k _ ⟨_, q, _, hq, _⟩
      rw [here, Option.bind_some] at hq
      rw [addEntry_of_part hq] at refused
      exact absurd refused (by simp)
  | @reference b entry reference p added unresolved here own refers refused =>
      obtain ⟨i, hfirst, _⟩ := Builder.isPlaced_of_addEntries added _ unresolved.mem
      obtain ⟨value, hvalue, hp⟩ := Option.bind_eq_some_iff.mp here
      have hmem : value ∈ values := List.mem_of_getElem? hvalue
      refine ⟨i, ?_, .reference added unresolved hfirst ⟨value, hmem, p, hp, own, refers⟩ refused⟩
      obtain ⟨hi, hstates, hbefore⟩ := List.findIdx?_eq_some_iff_getElem.mp hfirst
      have hstates_iff {k : Nat} (hk : k < values.length) :
          f.states entry.node.key values[k] = true ↔ f.AreSame values k j := by
        unfold states AreSame
        rw [List.getElem?_eq_getElem hk, here, Option.bind_some, Option.any_eq_true]
        constructor
        · rintro ⟨q, hq, hkey⟩
          exact ⟨q, p, hq, rfl, (beq_iff_eq.mp hkey).trans own.symm⟩
        · rintro ⟨q, p', hq, hp', hkey⟩
          obtain rfl := Option.some.inj hp'
          exact ⟨q, hq, beq_iff_eq.mpr (hkey.trans own)⟩
      refine ⟨?_, .inr ((hstates_iff hi).mp hstates), fun k hk hsame => ?_⟩
      · by_contra hle
        obtain ⟨hj, rfl⟩ := List.getElem?_eq_some_iff.mp hvalue
        refine hbefore j (by omega) ?_
        rw [states_of_part hp, own]
        exact beq_self_eq_true _
      · exact hbefore k hk ((hstates_iff (by omega)).mpr hsame)

/-- **What a lock file is refused for, and in which of its entries that stands.** -/
theorem Format.parseText_error_in (h : f.listed? cs = some values) :
    f.parseText cs path = .error e ↔ ∃ j, f.StandsIn values (f.entryLines cs) path j e := by
  rw [parseText_error_at h]
  constructor
  · rintro ⟨i, hi⟩
    cases hi with
    | entry here added refused => exact ⟨i, .entry here added refused⟩
    | reference added unresolved first own refused =>
        obtain ⟨value, hvalue, p, hp, hkey, hmem⟩ := own
        obtain ⟨j, hj⟩ := List.getElem?_of_mem hvalue
        have hhere : values[j]?.bind f.part? = some p := by rw [hj, Option.bind_some, hp]
        exact ⟨j, .reference added unresolved hhere hkey hmem refused⟩
  · rintro ⟨j, hj⟩
    obtain ⟨i, _, hi⟩ := hj.stopsAt
    exact ⟨i, hi⟩

end LockAudit.Lockfile
