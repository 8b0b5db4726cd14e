import LockAudit.Proofs.Lockfile.Placing

/-!
# The lines of list entries

The entries of a document are the items of the list under `packages`, and of several fields
with that name the last one counts (`Entries`). The decoder does not say where they stand, so
a walk over the text finds that out once more. It finds as many places as there are entries,
and they are the places of the entries, in their order (`entryLines_eq`).

So a failure that stands in an entry has the line of that entry. There is one exception:
entries for one dependency merge, and what is wrong with a reference in any of them is said
on the line of the first one.
-/

namespace LockAudit.Lockfile.Object

variable {cs : List Char} {values : List Value} {items items' : List Json.Placed}

/-- The last field with the entries is a list, and these are its items. -/
inductive Entries (cs : List Char) (items : List Json.Placed) : Prop
  | listed {fields after list after' : List Char} {members : List Json.Member} {m : Json.Member}
      (opens : Json.skip cs = '\x7b' :: fields) (table : Json.Members fields members after)
      (last : Json.lastNamed? "packages" members = some m) (is_list : m.start = '[' :: list)
      (listed : Json.Items list items after')

/-! ## Where they stand -/

theorem Entries.unique (h : Entries cs items) (h' : Entries cs items') : items = items' := by
  cases h with
  | listed opens table last is_list listed =>
      cases h' with
      | listed opens' table' last' is_list' listed' =>
          obtain ⟨_, rfl⟩ := List.cons.inj (opens.symm.trans opens')
          obtain ⟨rfl, _⟩ := table.unique table'
          obtain rfl := Option.some.inj (last.symm.trans last')
          obtain ⟨_, rfl⟩ := List.cons.inj (is_list.symm.trans is_list')
          exact (listed.unique listed').1

/-- **The entries that are listed stand in the text.** -/
theorem exists_entries (h : Format.json.listed? cs = some values) :
    ∃ items, Entries cs items ∧ items.map (·.value) = values := by
  unfold Format.listed? at h
  dsimp only at h
  split at h
  · rename_i fields hdecode
    obtain ⟨inner, members, after, hopen, hmembers, rfl⟩ := Json.table_of_decode hdecode
    rw [Value.field, Json.lookup?_tableOf] at h
    -- of several members of that name the last one counts
    cases hlast : Json.lastNamed? "packages" members with
    | none =>
        rw [hlast] at h
        exact absurd h (by simp [Value.lookup?, Value.list?])
    | some m =>
        rw [hlast] at h
        have hvalue : m.value = .list values := by
          change m.value.list? = some values at h
          cases hm : m.value with
          | list items =>
              rw [hm] at h
              rw [Option.some.inj h]
          | _ => exact absurd h (by simp [hm, Value.list?])
        obtain ⟨rest, hread⟩ := hmembers.value (Json.mem_of_lastNamed? hlast)
        rw [hvalue] at hread
        rcases Json.readValue_cases hread with ⟨list, items, hlist, hitems, heq⟩ |
            ⟨_, _, _, _, heq⟩ | ⟨hflat, _⟩
        · exact ⟨items, .listed hopen hmembers hlast hlist hitems, (Value.list.inj heq).symm⟩
        · exact absurd heq (by simp)
        · exact absurd rfl (hflat values)
  · exact absurd h (by simp)

theorem Entries.start_suffix (h : Entries cs items) : ∀ item ∈ items, item.start <:+ cs := by
  cases h with
  | @listed fields after list after' members m opens table last is_list listed =>
      intro item hitem
      have hfields : fields <:+ cs := (List.suffix_cons _ _).trans (opens ▸ Json.skip_suffix cs)
      have hlist := table.start_suffix m (Json.mem_of_lastNamed? last)
      rw [is_list] at hlist
      have hitems := (listed.start_suffix item hitem).trans (List.suffix_cons '[' list)
      exact (hitems.trans hlist).trans hfields

/-- **The walk ends at the entries**, and the lines are those on which they start. -/
theorem entryLines_eq (h : Entries cs items) :
    FieldsAt [] ((Json.skip cs).drop 1) (items.map (·.start)) ∧
      entryLines cs = items.map fun item => Text.lineAt cs item.start := by
  cases h with
  | listed opens table last is_list listed =>
      obtain ⟨found, hfinds, hfields, hlines⟩ := fieldsAt_of_members opens table
      obtain rfl := hfinds.last last is_list listed
      refine ⟨hfields, ?_⟩
      rw [hlines, List.map_map]
      rfl

/-- The line of an entry is told from what goes before it. -/
theorem Entries.line (h : Entries cs items) {i : Nat} {item : Json.Placed}
    (hitem : items[i]? = some item) :
    ∃ before, cs = before ++ item.start ∧ (entryLines cs)[i]? = some (Text.newlines before + 1) := by
  obtain ⟨before, rfl⟩ := h.start_suffix item (List.mem_of_getElem? hitem)
  refine ⟨before, rfl, ?_⟩
  rw [(entryLines_eq h).2, List.getElem?_map, hitem, Option.map_some, Text.lineAt_append]

/-! ## Failures -/

/-- **The lines of the entries, and which failures have them.** The walk ends, and finds a line for
each entry: that of its first character, counted by the line feeds before it. A failure stands in
one of the entries and has the line of the first entry for the same dependency; that is the entry
itself if it cannot be read, or if no entry before it is for its dependency. Numbers that are too
long have no line. -/
theorem entryLines_exact {bytes : List UInt8} (path : Option String)
    (hbytes : Text.Utf8.decode bytes = .ok cs) (hlisted : Format.json.listed? cs = some values) :
    (∃ items, Entries cs items ∧ (∀ items', Entries cs items' → items' = items) ∧
      items.map (·.value) = values ∧
      FieldsAt [] ((Json.skip cs).drop 1) (items.map (·.start)) ∧
      ∀ (i : Nat) (item : Json.Placed), items[i]? = some item → ∃ before, cs = before ++ item.start ∧
        (entryLines cs)[i]? = some (Text.newlines before + 1)) ∧
    (entryLines cs).length = values.length ∧
    (∀ e, Format.json.parse bytes path = .error e ↔
      ∃ j, Format.json.StandsIn values (entryLines cs) path j e) ∧
    (∀ j e, Format.json.StandsIn values (entryLines cs) path j e →
      (∃ i, Format.json.IsFirst values i j ∧ IsAt (entryLines cs)[i]? path e) ∨ IsNumber e) ∧
    ∀ j e, Format.json.StandsIn values (entryLines cs) path j e →
      (∀ i < j, ¬ Format.json.AreSame values i j) →
        IsAt (entryLines cs)[j]? path e ∨ IsNumber e := by
  obtain ⟨items, hentries, hvalues⟩ := exists_entries hlisted
  have hplaced {j : Nat} {e : Failure} (h : Format.json.StandsIn values (entryLines cs) path j e) :
      ∃ i, Format.json.IsFirst values i j ∧ (IsAt (entryLines cs)[i]? path e ∨ IsNumber e) := by
    obtain ⟨i, hfirst, hstops⟩ := h.stopsAt
    exact ⟨i, hfirst, hstops.isAt⟩
  refine ⟨⟨items, hentries, fun items' h' => h'.unique hentries, hvalues,
    (entryLines_eq hentries).1, fun i item => hentries.line⟩, ?_, ?_, ?_, ?_⟩
  · rw [(entryLines_eq hentries).2, List.length_map, ← hvalues, List.length_map]
  · intro e
    rw [Format.parse_of_decode hbytes]
    exact Format.parseText_error_in hlisted
  · intro j e hstands
    obtain ⟨i, hfirst, hat | hnumber⟩ := hplaced hstands
    · exact .inl ⟨i, hfirst, hat⟩
    · exact .inr hnumber
  · -- an entry unlike all before it is its own first
    intro j e hstands hnew
    obtain ⟨i, hfirst, hat⟩ := hplaced hstands
    rwa [hfirst.eq_of_new hnew] at hat

/-- An earlier list under the name of the entries does not count, however the name is spelled, and
neither does one inside an entry. -/
def nestedEntries : List Char :=
  "\x7b\"packages\": [0], \"p\\u0061ckages\":\n[\x7b\"packages\": [\n]\x7d\n,\n1]\x7d".toList

/-- The entries start on the second line and on the fifth. The first one has no name, which is said
on the second. -/
theorem entryLines_exact_nestedEntries :
    (∃ items, Entries nestedEntries items ∧ items.length = 2) ∧
      (entryLines nestedEntries)[0]? = some 2 ∧ (entryLines nestedEntries)[1]? = some 5 ∧
      Format.json.parse (Text.Utf8.encode nestedEntries) none =
        .error (.lockfile (.entry (.object 0) .nameMissing) ⟨some 2, none⟩) := by
  have hlines : entryLines nestedEntries = [2, 5] := by decide +kernel
  have hlisted : (Format.json.listed? nestedEntries).isSome = true := by decide +kernel
  have hparse : Format.json.parseText nestedEntries none =
      .error (.lockfile (.entry (.object 0) .nameMissing) ⟨some 2, none⟩) :=
    Result.error_of_error? (by decide +kernel)
  obtain ⟨values, hvalues⟩ := Option.isSome_iff_exists.mp hlisted
  have hbytes := Text.Utf8.decode_encode nestedEntries
  obtain ⟨⟨items, hentries, _, hitems, _⟩, hlength, _⟩ := entryLines_exact none hbytes hvalues
  refine ⟨⟨items, hentries, ?_⟩, by rw [hlines]; rfl, by rw [hlines]; rfl, ?_⟩
  · rw [← List.length_map, hitems, ← hlength, hlines]
    rfl
  · rw [Format.parse_of_decode hbytes, hparse]

/-- Two entries for one dependency, the second one with a reference that means nothing. -/
def repeatedEntries : List Char :=
  ("\x7b\"packages\": [\n\x7b\"name\": \"a\", \"version\": \"1.0.0\"\x7d,\n" ++
    "\x7b\"name\": \"a\", \"version\": \"1.0.0\", \"dependencies\": [\"ghost\"]\x7d\n]\x7d").toList

/-- What is wrong with the second entry is not said on its line, but on that of the first. -/
theorem not_own_line_repeatedEntries :
    ∃ values e, Format.json.listed? repeatedEntries = some values ∧
      Format.json.parse (Text.Utf8.encode repeatedEntries) none = .error e ∧
      Format.json.StandsIn values (entryLines repeatedEntries) none 1 e ∧
      (entryLines repeatedEntries)[1]? = some 3 ∧ IsAt (some 2) none e ∧ ¬ IsAt (some 3) none e := by
  have hlines : entryLines repeatedEntries = [2, 3] := by decide +kernel
  have hparts : (Format.json.listed? repeatedEntries).map
      (List.map fun v => (Format.json.part? v).map (·.references)) = some [some [], some ["ghost"]] := by
    decide +kernel
  have hparse : Format.json.parseText repeatedEntries none =
      .error (.lockfile (.unknownReference "ghost") ⟨some 2, none⟩) :=
    Result.error_of_error? (by decide +kernel)
  obtain ⟨values, hvalues, hparts⟩ := Option.map_eq_some_iff.mp hparts
  -- only the second entry has a reference
  have hread {j : Nat} {value : Value} (hvalue : values[j]? = some value) :
      ∃ p, Format.json.part? value = some p ∧ (j = 1 ∨ p.references = []) := by
    have hget : (values.map fun v => (Format.json.part? v).map (·.references))[j]? =
        [some [], some ["ghost"]][j]? := by rw [hparts]
    rw [List.getElem?_map, hvalue, Option.map_some] at hget
    match j with
    | 0 =>
        obtain ⟨p, hp, hreferences⟩ := Option.map_eq_some_iff.mp (Option.some.inj hget)
        exact ⟨p, hp, .inr hreferences⟩
    | 1 =>
        obtain ⟨p, hp, _⟩ := Option.map_eq_some_iff.mp (Option.some.inj hget)
        exact ⟨p, hp, .inl rfl⟩
    | j + 2 => exact absurd hget (by simp)
  obtain ⟨j, hstands⟩ := (Format.parseText_error_in hvalues).mp hparse
  -- so the failure is of the second entry, and it names the line of the first
  have hj : j = 1 := by
    cases hstands with
    | entry here added refused =>
        obtain ⟨p, hp, _⟩ := hread here
        rw [Format.addEntry_of_part hp] at refused
        exact absurd refused (by simp)
    | @reference b entry reference p added unresolved here own refers refused =>
        obtain ⟨value, hvalue, hp⟩ := Option.bind_eq_some_iff.mp here
        obtain ⟨p', hp', hj | hnone⟩ := hread hvalue
        · exact hj
        · obtain rfl := Option.some.inj (hp.symm.trans hp')
          rw [hnone] at refers
          exact absurd refers List.not_mem_nil
  subst hj
  refine ⟨values, _, hvalues, ?_, hstands, by rw [hlines]; rfl, ⟨_, rfl⟩, ?_⟩
  · rw [Format.parse_of_decode (Text.Utf8.decode_encode repeatedEntries), hparse]
  · rintro ⟨d, hd⟩
    cases hd

end LockAudit.Lockfile.Object
