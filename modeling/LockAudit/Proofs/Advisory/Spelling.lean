import LockAudit.Proofs.Advisory.Distinct

/-!
# How the packages of a feed are spelled

Records for one package come under many spellings of its name. This module forgets them:
the unspelled form of an entry, a record or an index has each package as it is looked up.
Everything that happens to a feed commutes with that, one lemma for each step: reading an
entry, choosing the records to keep, and putting them into groups. So feeds with the
same unspelled entries load alike, and the indexes differ in nothing but the spellings.
-/

namespace LockAudit.Advisory

variable {policy : WithdrawnPolicy} {entry : Value} {entries entries' : List Value} {r : Record}
  {records : List Record} {fields : List (String × Value)} {name : String}

/-! ## Records -/

/-- The record with its package as it is looked up. -/
def Record.unspelled (r : Record) : Record := { r with package := r.group }

@[simp]
theorem Record.group_unspelled (r : Record) : r.unspelled.group = r.group :=
  PackageName.canonical_canonical r.package

@[simp]
theorem Record.id_unspelled (r : Record) : r.unspelled.id = r.id := by
  unfold Record.unspelled
  rfl

@[simp]
theorem Record.identity_unspelled (r : Record) : r.unspelled.identity = r.identity := by
  unfold Record.identity
  rw [Record.group_unspelled, Record.id_unspelled]

@[simp]
theorem Record.isWithdrawn_unspelled (r : Record) : r.unspelled.isWithdrawn = r.isWithdrawn := by
  unfold Record.isWithdrawn Record.unspelled
  rfl

@[simp]
theorem Record.hasIdentifier_unspelled (r : Record) (id : String) :
    r.unspelled.hasIdentifier id = r.hasIdentifier id := by
  unfold Record.hasIdentifier Record.unspelled
  rfl

@[simp]
theorem excludes_unspelled (r : Record) : policy.excludes r.unspelled = policy.excludes r := by
  unfold WithdrawnPolicy.excludes
  rw [Record.isWithdrawn_unspelled]

@[simp]
theorem Record.overlaps_unspelled (r : Record) : r.unspelled.overlaps = r.overlaps := by
  unfold Record.overlaps Record.unspelled
  rfl

@[simp]
theorem Record.isWritable_unspelled (r : Record) : r.unspelled.isWritable = r.isWritable := by
  unfold Record.isWritable Record.unspelled
  rfl

/-! ## Entries -/

/-- A name as it is looked up; other values are left alone. -/
def unspelledName : Value → Value
  | .text name => .text (PackageName.canonical name)
  | v => v

/-- The value of a field of an entry, as it is looked up if it is the package. -/
def unspelledField (name : String) (v : Value) : Value :=
  if name = "package" then unspelledName v else v

/-- The fields of an entry, with the package as it is looked up. -/
def unspelledFields (fields : List (String × Value)) : List (String × Value) :=
  fields.map fun f => (f.1, unspelledField f.1 f.2)

/-- The entry with its package as it is looked up. -/
def unspelledEntry : Value → Value
  | .table fields => .table (unspelledFields fields)
  | v => v

theorem lookup?_unspelled :
    Value.lookup? name (unspelledFields fields) =
      (Value.lookup? name fields).map (unspelledField name) := by
  unfold unspelledFields
  induction fields with
  | nil => rfl
  | cons f fields ih =>
      obtain ⟨key, v⟩ := f
      rw [List.map_cons, Value.lookup?, Value.lookup?]
      by_cases hkey : key = name
      · rw [if_pos hkey, if_pos hkey, hkey]
        rfl
      · rw [if_neg hkey, if_neg hkey, ih]

theorem field_unspelled :
    Value.field name (unspelledFields fields) =
      unspelledField name (Value.field name fields) := by
  unfold Value.field
  rw [lookup?_unspelled]
  cases Value.lookup? name fields with
  | none =>
      unfold unspelledField
      split <;> rfl
  | some v => rfl

/-- Fields other than the package are as they were. -/
theorem field_unspelled_of_ne (h : name ≠ "package") :
    Value.field name (unspelledFields fields) =
      Value.field name fields := by
  rw [field_unspelled, unspelledField, if_neg h]

theorem readRequired_unspelled_of_ne (h : name ≠ "package") :
    readRequired (unspelledFields fields) name =
      readRequired fields name := by
  unfold readRequired
  rw [field_unspelled_of_ne h]

theorem readRequired_unspelled :
    readRequired (unspelledFields fields) "package" =
      (readRequired fields "package").map PackageName.canonical := by
  unfold readRequired
  rw [field_unspelled, unspelledField, if_pos rfl]
  cases Value.field "package" fields with
  | text s =>
      -- a blank name is no name in either form
      simp only [unspelledName, PackageName.isBlankText_canonical]
      split
      · rfl
      · rw [PackageName.strip_canonical, ← PackageName.canonical_strip]
        rfl
  | _ => rfl

theorem readRange_unspelled (h : name ≠ "package") :
    readRange (unspelledFields fields) name = readRange fields name := by
  unfold readRange
  rw [field_unspelled_of_ne h]

/-- **Reading an entry commutes with forgetting the spelling.** -/
theorem readRecord_unspelled (entry : Value) :
    readRecord (unspelledEntry entry) = (readRecord entry).map Record.unspelled := by
  cases entry with
  | table fields =>
      -- only the package is spelled another way: every other field reads the same
      have hfield {name : String} (h : name ≠ "package") :
          Value.field name (unspelledFields fields) = Value.field name fields :=
        field_unspelled_of_ne h
      have haffected : readAffected (unspelledFields fields) =
          readAffected fields := by
        unfold readAffected
        rw [hfield (by decide), readRange_unspelled (by decide)]
      have hpatched : readPatched (unspelledFields fields) =
          readPatched fields := by
        unfold readPatched
        rw [readRange_unspelled (by decide)]
      have htitle : readTitleAndUrl (unspelledFields fields) =
          readTitleAndUrl fields := by
        unfold readTitleAndUrl
        rw [hfield (by decide), hfield (by decide)]
      unfold unspelledEntry readRecord
      simp only [Result.map_bind]
      rw [readRequired_unspelled_of_ne (by decide), readRequired_unspelled, haffected, hpatched,
        hfield (by decide), hfield (by decide), hfield (by decide), htitle]
      simp only [Result.bind_map]
      rfl
  | _ => rfl

theorem recordsOf_unspelled (entries : List Value) :
    recordsOf (entries.map unspelledEntry) = (recordsOf entries).map Record.unspelled := by
  unfold recordsOf
  rw [List.filterMap_map, List.map_filterMap]
  refine List.filterMap_congr fun e _ => ?_
  change (readRecord (unspelledEntry e)).toOption = _
  rw [readRecord_unspelled, Result.toOption_map]

theorem areDistinct_unspelled : AreDistinct (entries.map unspelledEntry) ↔ AreDistinct entries := by
  have hsame : Record.identity ∘ Record.unspelled = Record.identity :=
    funext Record.identity_unspelled
  unfold AreDistinct
  rw [recordsOf_unspelled, List.map_map, hsame]

/-- Whether an entry stops a load does not depend on the spelling. -/
theorem isAdmissible_unspelled :
    IsAdmissible policy (unspelledEntry entry) ↔ IsAdmissible policy entry := by
  have hread := readRecord_unspelled entry
  cases hentry : readRecord entry with
  | error fault =>
      -- the same fault in both forms
      rw [hentry] at hread
      have hsame : readRecord (unspelledEntry entry) = readRecord entry := hread.trans hentry.symm
      exact ⟨fun h => ⟨hsame ▸ h.reads, hsame ▸ h.writable⟩,
        fun h => ⟨hsame ▸ h.reads, hsame ▸ h.writable⟩⟩
  | ok r =>
      rw [hentry] at hread
      have hunspelled : readRecord (unspelledEntry entry) = .ok r.unspelled := hread
      refine ⟨?_, ?_⟩
      · intro h
        refine ⟨by simp [hentry], fun r' hr' => ?_⟩
        rw [hentry] at hr'
        cases hr'
        simpa using h.writable r.unspelled hunspelled
      · intro h
        refine ⟨by simp [hunspelled], fun r' hr' => ?_⟩
        rw [hunspelled] at hr'
        cases hr'
        simpa using h.writable r hentry

/-! ## Indexes -/

theorem groupNames_unspelled : groupNames (records.map Record.unspelled) = groupNames records := by
  have hsame : Record.group ∘ Record.unspelled = Record.group := funext Record.group_unspelled
  unfold groupNames
  rw [List.map_map, hsame]

/-- The ids by which a group is sorted are not touched. -/
theorem groupRecords_unspelled (records : List Record) (name : String) :
    groupRecords (records.map Record.unspelled) name =
      (groupRecords records name).map Record.unspelled := by
  have hsame : (fun r : Record => r.group == name) ∘ Record.unspelled =
      fun r => r.group == name := by
    funext r
    exact congrArg (· == name) (Record.group_unspelled r)
  unfold groupRecords
  rw [List.filter_map, hsame]
  refine (List.map_mergeSort fun r _ r' _ => ?_).symm
  rw [Record.id_unspelled, Record.id_unspelled]

/-- The index with each package as it is looked up. -/
def Index.unspelled (i : Index) : Index :=
  { i with groups := i.groups.map fun g => (g.1, g.2.map Record.unspelled) }

theorem grouped_unspelled (records : List Record) :
    grouped (records.map Record.unspelled) =
      (grouped records).map fun g => (g.1, g.2.map Record.unspelled) := by
  unfold grouped
  rw [groupNames_unspelled, List.map_map]
  exact List.map_congr_left fun name _ => by rw [groupRecords_unspelled]; rfl

/-- What is found in an index commutes with forgetting the spelling. -/
theorem Index.query_unspelled (i : Index) (package : String) :
    i.unspelled.query package = (i.query package).map Record.unspelled := by
  unfold query unspelled
  dsimp only
  induction i.groups with
  | nil => rfl
  | cons g groups ih =>
      obtain ⟨name, records⟩ := g
      rw [List.map_cons, List.lookup_cons, List.lookup_cons]
      cases PackageName.canonical package == name with
      | true => rfl
      | false => exact ih

/-- **Feeds that differ in spellings load alike.** -/
theorem Feed.load_unspelled {f f' : Feed} {i : Index} (hentries : f.entries = .ok entries)
    (hentries' : f'.entries = .ok entries')
    (hspelled : entries'.map unspelledEntry = entries.map unspelledEntry)
    (hdistinct : AreDistinct entries) (h : f.load policy = .ok i) :
    ∃ i', f'.load policy = .ok i' ∧ i'.unspelled.groups = i.unspelled.groups := by
  have hdistinct' : AreDistinct entries' := by
    rw [← areDistinct_unspelled, hspelled, areDistinct_unspelled]
    exact hdistinct
  have hadmissible := (load_ok_of_distinct hentries hdistinct).mp ⟨i, h⟩
  -- an entry of the one feed is, unspelled, an entry of the other
  obtain ⟨i', h'⟩ := (load_ok_of_distinct hentries' hdistinct').mpr fun e he => by
    have hmem : unspelledEntry e ∈ entries.map unspelledEntry := by
      rw [← hspelled]
      exact List.mem_map_of_mem he
    obtain ⟨e', he', heq⟩ := List.mem_map.mp hmem
    rw [← isAdmissible_unspelled, ← heq, isAdmissible_unspelled]
    exact hadmissible e' he'
  refine ⟨i', h', ?_⟩
  have hgroups {j : Index} {es : List Value} (hj : j.Tallies policy es) :
      j.unspelled.groups =
        grouped ((recordsOf (es.map unspelledEntry)).filter fun r => !policy.excludes r) := by
    have hexcludes : (fun r => !policy.excludes r) ∘ Record.unspelled =
        fun r => !policy.excludes r := by
      funext r
      exact congrArg (!·) (excludes_unspelled r)
    unfold Index.unspelled
    dsimp only
    rw [hj.groups, ← grouped_unspelled, recordsOf_unspelled, List.filter_map, hexcludes]
  rw [hgroups (load_tallies hentries hdistinct h), hgroups (load_tallies hentries' hdistinct' h'),
    hspelled]

end LockAudit.Advisory
