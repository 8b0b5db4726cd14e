import LockAudit.Proofs.Lockfile.Listing

/-!
# What a lock file is refused for

Once the entries of a lock file are listed, they are added one after the other and then
their references are resolved, also one after the other. So a failure is that of the first
entry that cannot be added, or else of the first reference that means nothing. `Stops` says
which it is, and with which line; everything about failures is read off it.

An entry is added in two steps. What its fields say of a dependency does not depend on
anything but the entry, and then the builder takes it.
-/

namespace LockAudit.Lockfile

variable {f : Format} {b c : Builder} {index : Nat} {value : Value} {values : List Value}
  {line : Option Nat} {lines : List Nat} {e : Failure} {a : Addition} {path : Option String}
  {cs : List Char}

/-! ## Texts -/

/-- The graph of a lock file's text. -/
def Format.parseText (f : Format) (cs : List Char) (path : Option String) : Except Failure Graph :=
  match f with
  | .cargo => Cargo.parseText cs path
  | .json => Object.parseText cs path

/-- The lines of the entries in a text, as far as they are found. -/
def Format.entryLines (f : Format) (cs : List Char) : List Nat :=
  match f with
  | .cargo => Cargo.headerLines cs
  | .json => Object.entryLines cs

theorem Format.parse_of_decode {bytes : List UInt8} (h : Text.Utf8.decode bytes = .ok cs) :
    f.parse bytes path = f.parseText cs path := by
  unfold parse
  rw [h]
  rfl

/-- What is done with the entries that are listed. -/
theorem Format.parseText_listed (h : f.listed? cs = some values) :
    f.parseText cs path =
      (do (← f.addEntries { path } 0 values (f.entryLines cs)).build) := by
  unfold listed? at h
  cases f with
  | cargo =>
      dsimp only at h
      split at h
      · rename_i fields hdecode
        change Cargo.parseText cs path = _
        unfold Cargo.parseText
        rw [hdecode]
        dsimp only
        -- both readers look the list up the same way, so its value decides both at once
        generalize (Value.lookup? "package" fields).getD (.list []) = packages at h ⊢
        cases packages with
        | list values' =>
            obtain rfl := Option.some.inj h
            rfl
        | _ => exact absurd h (by simp [Value.list?])
      · exact absurd h (by simp)
  | json =>
      dsimp only at h
      split at h
      · rename_i fields hdecode
        change Object.parseText cs path = _
        unfold Object.parseText
        rw [hdecode]
        dsimp only
        generalize Value.field "packages" fields = packages at h ⊢
        cases packages with
        | list values' =>
            obtain rfl := Option.some.inj h
            rfl
        | _ => exact absurd h (by simp [Value.list?])
      · exact absurd h (by simp)

/-! ## One entry -/

/-- The failure is that of a lock file, at a line of the file at a path. -/
def IsAt (line : Option Nat) (path : Option String) (e : Failure) : Prop :=
  ∃ d, e = .lockfile d ⟨line, path⟩

theorem Builder.isAt_of_fail {α : Type} {d : Defect}
    (h : (b.fail line d : Except Failure α) = .error e) : IsAt line b.path e :=
  ⟨d, (Except.error.inj h).symm⟩

theorem Builder.readSource_error {label : EntryLabel} {name : String}
    {fields : List (String × Value)} (h : b.readSource line label name fields = .error e) :
    IsAt line b.path e := by
  unfold readSource at h
  split at h
  · exact absurd h (by simp)
  · exact absurd h (by simp)
  · exact isAt_of_fail h

theorem Builder.readReferences_error {label : EntryLabel} {name : String}
    {fields : List (String × Value)} (h : b.readReferences line label name fields = .error e) :
    IsAt line b.path e := by
  unfold readReferences at h
  split at h
  · exact absurd h (by simp)
  · split at h
    · exact absurd h (by simp)
    · exact isAt_of_fail h

theorem Object.readDirect_error {name : String} {fields : List (String × Value)}
    (h : readDirect b index line name fields = .error e) : IsAt line b.path e := by
  unfold readDirect at h
  split at h
  · exact absurd h (by simp)
  · exact absurd h (by simp)
  · exact Builder.isAt_of_fail h

/-- An entry says something of a dependency, or it is refused on its line. -/
theorem Format.addition?_or_refused (f : Format) (b : Builder) (index : Nat) (value : Value)
    (line : Option Nat) :
    (∃ a, f.addition? value = some a) ∨
      ∃ e, f.addEntry b index value line = .error e ∧ IsAt line b.path e := by
  cases f with
  | cargo =>
      unfold addEntry Cargo.addEntry
      dsimp only
      -- name, version, source and references are asked for in this order, and each refusal
      -- carries the line of the entry
      split
      · split
        · rename_i name hname
          split
          · exact .inr ⟨_, rfl, _, rfl⟩
          · rename_i hblank
            split
            · rename_i version hversion
              cases hsource : b.readSource line .table name _ with
              | error e => exact .inr ⟨e, rfl, Builder.readSource_error hsource⟩
              | ok source =>
                  cases hreferences : b.readReferences line .table name _ with
                  | error e => exact .inr ⟨e, rfl, Builder.readReferences_error hreferences⟩
                  | ok references =>
                      exact .inl ⟨_, addition?_of_fields hname hblank hversion hsource rfl hreferences⟩
            · exact .inr ⟨_, rfl, _, rfl⟩
        · exact .inr ⟨_, rfl, _, rfl⟩
      · exact .inr ⟨_, rfl, _, rfl⟩
  | json =>
      unfold addEntry Object.addEntry
      dsimp only
      split
      · split
        · rename_i name hname
          split
          · exact .inr ⟨_, rfl, _, rfl⟩
          · rename_i hblank
            split
            · rename_i version hversion
              cases hsource : b.readSource line (.object index) name _ with
              | error e => exact .inr ⟨e, rfl, Builder.readSource_error hsource⟩
              | ok source =>
                  -- this format has a flag beside, which is asked for between the two
                  cases hdirect : Object.readDirect b index line name _ with
                  | error e => exact .inr ⟨e, rfl, Object.readDirect_error hdirect⟩
                  | ok direct =>
                      cases hreferences : b.readReferences line (.object index) name _ with
                      | error e => exact .inr ⟨e, rfl, Builder.readReferences_error hreferences⟩
                      | ok references =>
                          have hdirect : Format.json.direct? name _ = some direct :=
                            Result.toOption_of_ok (readDirect_congr hdirect)
                          exact .inl ⟨_, addition?_of_fields hname hblank hversion hsource hdirect
                            hreferences⟩
            · exact .inr ⟨_, rfl, _, rfl⟩
        · exact .inr ⟨_, rfl, _, rfl⟩
      · exact .inr ⟨_, rfl, _, rfl⟩

/-- **What an entry is refused for**: its fields, on its line, or the dependency that they
state. -/
theorem Format.addEntry_error (h : f.addEntry b index value line = .error e) :
    f.addition? value = none ∧ IsAt line b.path e ∨
      ∃ a, f.addition? value = some a ∧
        b.readNode a.name a.version a.source a.direct line = .error e := by
  cases ha : f.addition? value with
  | none =>
      rcases f.addition?_or_refused b index value line with ⟨a, ha'⟩ | ⟨e', he', hat⟩
      · rw [ha] at ha'
        exact absurd ha' (by simp)
      · rw [h] at he'
        cases he'
        exact .inl ⟨rfl, hat⟩
  | some a =>
      rw [addEntry_of_addition ha] at h
      rcases Result.bind_error.mp h with h | ⟨added, _, h⟩
      · rcases Result.bind_error.mp h with h | ⟨n, _, h⟩
        · exact .inr ⟨a, rfl, h⟩
        · exact absurd h (by simp)
      · exact absurd h (by simp)

theorem Format.addEntry_of_readNode (ha : f.addition? value = some a)
    (h : b.readNode a.name a.version a.source a.direct line = .error e) :
    f.addEntry b index value line = .error e := by
  rw [addEntry_of_addition ha]
  unfold Builder.add
  rw [h]
  rfl

/-! ## One entry after the other -/

/-- **The failure of all entries is that of the first one that is refused.** -/
theorem Format.addEntries_error : f.addEntries b index values lines = .error e ↔
    ∃ before value after c, values = before ++ value :: after ∧
      f.addEntries b index before lines = .ok c ∧
      f.addEntry c (index + before.length) value lines[before.length]? = .error e := by
  induction values generalizing b index lines with
  | nil => simp [addEntries_nil]
  | cons first values ih =>
      rw [addEntries_cons, Result.bind_error]
      constructor
      · -- the failure is of the first entry, or of a later one behind a step that went well
        rintro (h | ⟨next, hnext, h⟩)
        · refine ⟨[], first, values, b, rfl, addEntries_nil f b index lines, ?_⟩
          rwa [List.head?_eq_getElem?] at h
        · obtain ⟨before, value, after, c, rfl, hc, h⟩ := ih.mp h
          refine ⟨first :: before, value, after, c, rfl, ?_, ?_⟩
          · rw [addEntries_cons, hnext]
            exact hc
          · rw [List.getElem?_tail] at h
            rwa [List.length_cons, Nat.add_comm before.length, ← Nat.add_assoc, Nat.add_comm 1]
      · rintro ⟨before, value, after, c, heq, hc, h⟩
        cases before with
        | nil =>
            obtain ⟨rfl, rfl⟩ := List.cons.inj heq
            rw [addEntries_nil] at hc
            cases hc
            rw [List.head?_eq_getElem?]
            exact .inl h
        | cons first' before =>
            obtain ⟨rfl, rfl⟩ := List.cons.inj heq
            rw [addEntries_cons] at hc
            obtain ⟨next, hnext, hc⟩ := Result.bind_ok.mp hc
            refine .inr ⟨next, hnext, ih.mpr ⟨before, value, after, c, rfl, hc, ?_⟩⟩
            rw [List.getElem?_tail]
            rwa [List.length_cons, Nat.add_comm before.length, ← Nat.add_assoc, Nat.add_comm 1] at h

/-- The reference of the entry is the first one that means nothing, entry by entry. -/
structure Builder.FirstUnresolved (b : Builder) (entry : Entry) (reference : String) : Prop where
  entries : ∃ before after, b.entries = before ++ entry :: after ∧
    ∀ d ∈ before, ∀ r ∈ d.references, ∃ c, b.resolve r d.line = .ok c
  references : ∃ before after, entry.references = before ++ reference :: after ∧
    ∀ r ∈ before, ∃ c, b.resolve r entry.line = .ok c

theorem Builder.entryEdges_ok (b : Builder) (d : Entry) :
    (∃ own, b.entryEdges d = .ok own) ↔ ∀ r ∈ d.references, ∃ c, b.resolve r d.line = .ok c := by
  unfold entryEdges
  rw [Result.mapM_ok]
  refine forall_congr' fun r => imp_congr_right fun _ => ?_
  cases b.resolve r d.line <;> simp

theorem Builder.entryEdges_error (b : Builder) (d : Entry) :
    b.entryEdges d = .error e ↔ ∃ before reference after,
      d.references = before ++ reference :: after ∧
      (∀ r ∈ before, ∃ c, b.resolve r d.line = .ok c) ∧ b.resolve reference d.line = .error e := by
  have hone (r : String) : (do pure (d.coordinate, ← b.resolve r d.line) :
      Except Failure (Coordinate × Coordinate)) = .error e ↔ b.resolve r d.line = .error e := by
    cases b.resolve r d.line <;> simp
  have hone' (r : String) : (∃ link, (do pure (d.coordinate, ← b.resolve r d.line) :
      Except Failure (Coordinate × Coordinate)) = .ok link) ↔ ∃ c, b.resolve r d.line = .ok c := by
    cases b.resolve r d.line <;> simp
  unfold entryEdges
  rw [Result.mapM_error]
  simp only [hone, hone']

/-- **The failure of all references is that of the first one that means nothing.** -/
theorem Builder.edges_error : b.edges = .error e ↔
    ∃ entry reference, b.FirstUnresolved entry reference ∧
      b.resolve reference entry.line = .error e := by
  unfold edges
  rw [Result.bind_error]
  simp only [Result.mapM_error, Result.pure_eq, reduceCtorEq, and_false, exists_false, or_false,
    entryEdges_ok, entryEdges_error]
  constructor
  · rintro ⟨before, entry, after, hentries, hbefore, before', reference, after', hrefs, hrest, h⟩
    exact ⟨entry, reference, ⟨⟨before, after, hentries, hbefore⟩, before', after', hrefs, hrest⟩, h⟩
  · rintro ⟨entry, reference, ⟨⟨before, after, hentries, hbefore⟩, before', after', hrefs, hrest⟩, h⟩
    exact ⟨before, entry, after, hentries, hbefore, before', reference, after', hrefs, hrest, h⟩

theorem Builder.FirstUnresolved.mem {entry : Entry} {reference : String}
    (h : b.FirstUnresolved entry reference) : entry ∈ b.entries := by
  obtain ⟨before, after, hentries, _⟩ := h.entries
  rw [hentries]
  simp

/-- A reference that means nothing stands in an entry of the file. -/
theorem Builder.FirstUnresolved.stated {entry : Entry} {reference : String}
    (h : b.FirstUnresolved entry reference)
    (hadded : f.addEntries { path } 0 values lines = .ok b) :
    ∃ value ∈ values, ∃ p, f.part? value = some p ∧ p.node.key = entry.node.key ∧
      reference ∈ p.references := by
  obtain ⟨before, after, hreferences, _⟩ := h.references
  have hown : reference ∈ entry.references := by
    rw [hreferences]
    simp
  have hholds := (Builder.Holds.empty path).addEntries hadded
  obtain ⟨p, hp, hkey, hmem⟩ := (hholds.references entry h.mem reference).mp hown
  rw [List.nil_append, List.mem_filterMap] at hp
  obtain ⟨value, hvalue, hpart⟩ := hp
  exact ⟨value, hvalue, p, hpart, hkey, hmem⟩

/-! ## Lock files -/

/-- What a lock file with these entries is refused for. -/
inductive Format.Stops (f : Format) (values : List Value) (lines : List Nat) (path : Option String)
    (e : Failure) : Prop
  | entry {before after : List Value} {value : Value} {b : Builder}
      (values_eq : values = before ++ value :: after)
      (added : f.addEntries { path } 0 before lines = .ok b)
      (refused : f.addEntry b before.length value lines[before.length]? = .error e)
  | reference {b : Builder} {entry : Entry} {reference : String}
      (added : f.addEntries { path } 0 values lines = .ok b)
      (first : b.FirstUnresolved entry reference)
      (refused : b.resolve reference entry.line = .error e)

/-- A builder that holds entries fails for its references only. -/
theorem Builder.Holds.build_error {parts : List Part} (h : b.Holds parts) :
    b.build = .error e ↔ b.edges = .error e := by
  constructor
  · intro hbuild
    cases hedges : b.edges with
    | error e' =>
        rw [build_eq, hedges, Result.error_bind] at hbuild
        cases hbuild
        rfl
    | ok links =>
        obtain ⟨g, hg, _⟩ := h.build_of_edges hedges
        rw [hg] at hbuild
        exact absurd hbuild (by simp)
  · intro hedges
    rw [build_eq, hedges]
    rfl

/-- **What a lock file is refused for.** -/
theorem Format.parseText_error (h : f.listed? cs = some values) :
    f.parseText cs path = .error e ↔ f.Stops values (f.entryLines cs) path e := by
  rw [parseText_listed h, Result.bind_error]
  constructor
  · rintro (hadd | ⟨b, hb, hbuild⟩)
    · obtain ⟨before, value, after, c, heq, hc, he⟩ := addEntries_error.mp hadd
      rw [Nat.zero_add] at he
      exact .entry heq hc he
    · rw [((Builder.Holds.empty path).addEntries hb).build_error, Builder.edges_error] at hbuild
      obtain ⟨entry, reference, hfirst, he⟩ := hbuild
      exact .reference hb hfirst he
  · intro hstops
    cases hstops with
    | entry values_eq added refused =>
        refine .inl (addEntries_error.mpr ⟨_, _, _, _, values_eq, added, ?_⟩)
        rwa [Nat.zero_add]
    | reference added first refused =>
        refine .inr ⟨_, added, ?_⟩
        rw [((Builder.Holds.empty path).addEntries added).build_error, Builder.edges_error]
        exact ⟨_, _, first, refused⟩

end LockAudit.Lockfile
