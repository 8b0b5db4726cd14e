import LockAudit.Lockfile.Registry
import LockAudit.Lockfile.Session
import LockAudit.Proofs.Json.RoundTrip
import LockAudit.Proofs.Lockfile.Merging

/-!
# What a lock file lists

An entry of a lock file can be read or it cannot, and which of the two is settled by the
entry alone: its fields have to be as the format has them, its name must not be blank and
its version has to be one. Where it stands in the file, and what was read before it, only
go into the message about a defect.

An entry that can be read is inserted. So after any number of entries, in either format,
the builder holds what they state, and the graph that is built in the end is locked.
-/

namespace LockAudit.Lockfile

/-! ## One entry -/

/-- The dependency that an entry states and its references, if the entry can be read. -/
def Addition.part? (a : Addition) : Option Part :=
  (Builder.readNode {} a.name a.version a.source a.direct none).toOption.map (⟨·, a.references⟩)

namespace Builder

variable {b c : Builder} {parts : List Part} {line line' : Option Nat} {n : Node}
  {name version : String} {source : Option String} {direct : Bool} {a : Addition}

/-- What is read from an entry depends on the entry alone. -/
theorem readNode_congr (h : b.readNode name version source direct line = .ok n) :
    c.readNode name version source direct line' = .ok n := by
  unfold readNode fail at h ⊢
  split at h
  · exact absurd h (by simp)
  · exact absurd h (by simp)
  · dsimp only at h ⊢
    split at h
    · exact absurd h (by simp)
    · exact h

theorem part?_eq_some {p : Part} (b : Builder) (line : Option Nat) :
    a.part? = some p ↔ b.readNode a.name a.version a.source a.direct line = .ok p.node ∧
      p.references = a.references := by
  unfold Addition.part?
  rw [Option.map_eq_some_iff]
  constructor
  · intro h
    obtain ⟨n, hn, rfl⟩ := h
    exact ⟨readNode_congr (Result.ok_of_toOption hn), rfl⟩
  · intro h
    obtain ⟨hn, href⟩ := h
    have hread : Builder.readNode {} a.name a.version a.source a.direct none = .ok p.node :=
      readNode_congr hn
    exact ⟨p.node, by rw [hread]; rfl, by rw [← href]⟩

/-- Adding an entry that can be read inserts what it states. -/
theorem add_part {p : Part} (h : a.part? = some p) (b : Builder) (line : Option Nat) :
    ∃ n, b.add a.name a.version a.source a.references a.direct line =
      .ok (b.insert p.node p.references line, n) := by
  obtain ⟨hread, href⟩ := (part?_eq_some b line).mp h
  unfold add
  rw [hread, href]
  exact ⟨_, rfl⟩

/-- Only what can be read is added. -/
theorem part?_of_add {added : Builder × Node}
    (h : b.add a.name a.version a.source a.references a.direct line = .ok added) :
    ∃ p, a.part? = some p := by
  unfold add at h
  obtain ⟨n, hn, _⟩ := Result.bind_ok.mp h
  exact ⟨⟨n, a.references⟩, (part?_eq_some b line).mpr ⟨hn, rfl⟩⟩

/-- What can be read is held once it is inserted. -/
theorem Holds.insert_part {p : Part} (h : b.Holds parts) (ha : a.part? = some p)
    (line : Option Nat) :
    (b.insert p.node p.references line).Holds (parts ++ [p]) :=
  h.insert (readNode_isStated ((part?_eq_some b line).mp ha).1) p.references line

end Builder

/-! ## Lock files -/

/-- Whether an entry of a lock file says that its dependency is direct, which only one of
the formats lets it say. -/
def Format.direct? (f : Format) (name : String) (fields : List (String × Value)) : Option Bool :=
  match f with
  | .cargo => some false
  | .json => (Object.readDirect {} 0 none name fields).toOption

/-- What an entry of a lock file says of a dependency, if its fields are as the format has
them. -/
def Format.addition? (f : Format) : Value → Option Addition
  | .table fields => do
    let name ← (Value.field "name" fields).text?
    let version ← (Value.field "version" fields).text?
    let source ← (Builder.readSource {} none .table name fields).toOption
    let direct ← f.direct? name fields
    let references ← (Builder.readReferences {} none .table name fields).toOption
    if Text.isBlankText name then none else some ⟨name, version, source, references, direct⟩
  | _ => none

/-- What is read from an entry of a lock file. -/
def Format.part? (f : Format) (value : Value) : Option Part :=
  (f.addition? value).bind Addition.part?

/-- The entries that the text of a lock file lists, if it is one. -/
def Format.listed? (f : Format) (cs : List Char) : Option (List Value) :=
  match f with
  | .cargo =>
    match Toml.decode cs with
    | .ok fields => ((Value.lookup? "package" fields).getD (.list [])).list?
    | .error _ => none
  | .json =>
    match Json.decode cs with
    | .ok (.table fields) => (Value.field "packages" fields).list?
    | _ => none

/-- The entries that a lock file lists, if it is one. -/
def Format.packages? (f : Format) (bytes : List UInt8) : Option (List Value) :=
  (Text.Utf8.decode bytes).toOption.bind f.listed?

/-- The builder with one entry of a lock file added. -/
def Format.addEntry (f : Format) (b : Builder) (index : Nat) (value : Value) (line : Option Nat) :
    Except Failure Builder :=
  match f with
  | .cargo => Cargo.addEntry b value line
  | .json => Object.addEntry b index value line

/-- The builder with entries of a lock file added. -/
def Format.addEntries (f : Format) (b : Builder) (index : Nat) (values : List Value)
    (lines : List Nat) : Except Failure Builder :=
  match f with
  | .cargo => Cargo.addEntries b values lines
  | .json => Object.addEntries b index values lines

section Entries

variable {b c : Builder} {line line' : Option Nat} {label label' : EntryLabel} {name : String}
  {fields : List (String × Value)} {value : Value} {f : Format}

theorem readSource_congr {source : Option String}
    (h : b.readSource line label name fields = .ok source) :
    c.readSource line' label' name fields = .ok source := by
  unfold Builder.readSource Builder.fail at h ⊢
  split at h
  · exact h
  · exact h
  · exact absurd h (by simp)

theorem readReferences_congr {references : List String}
    (h : b.readReferences line label name fields = .ok references) :
    c.readReferences line' label' name fields = .ok references := by
  unfold Builder.readReferences Builder.fail at h ⊢
  split at h
  · exact h
  · split at h
    · exact h
    · exact absurd h (by simp)

theorem readDirect_congr {index index' : Nat} {direct : Bool}
    (h : Object.readDirect b index line name fields = .ok direct) :
    Object.readDirect c index' line' name fields = .ok direct := by
  unfold Object.readDirect Object.refuse Builder.fail at h ⊢
  split at h
  · exact h
  · exact h
  · exact absurd h (by simp)

/-- What the fields of an entry say is added, to whichever builder. -/
theorem Format.addEntry_of_addition {a : Addition} (h : f.addition? value = some a) (b : Builder)
    (index : Nat) (line : Option Nat) :
    f.addEntry b index value line = (do
      pure (← b.add a.name a.version a.source a.references a.direct line).1) := by
  unfold Format.addition? at h
  split at h
  · rename_i fields
    obtain ⟨name, hname, h⟩ := Option.bind_eq_some_iff.mp h
    obtain ⟨version, hversion, h⟩ := Option.bind_eq_some_iff.mp h
    obtain ⟨source, hsource, h⟩ := Option.bind_eq_some_iff.mp h
    obtain ⟨direct, hdirect, h⟩ := Option.bind_eq_some_iff.mp h
    obtain ⟨references, hreferences, h⟩ := Option.bind_eq_some_iff.mp h
    split at h
    · exact absurd h (by simp)
    · rename_i hblank
      cases h
      rw [Value.text?_eq_some] at hname hversion
      -- the fields were read by an empty builder, with no line to point at
      have hsource {line} {label} : b.readSource line label name fields = .ok source :=
        readSource_congr (Result.ok_of_toOption hsource)
      have hreferences {line} {label} : b.readReferences line label name fields = .ok references :=
        readReferences_congr (Result.ok_of_toOption hreferences)
      unfold Format.addEntry
      cases f with
      | cargo =>
          cases hdirect
          unfold Cargo.addEntry
          simp only [hname, hversion, hblank, hsource, hreferences, Result.ok_bind]
          rfl
      | json =>
          have hdirect {line} {index} : Object.readDirect b index line name fields = .ok direct :=
            readDirect_congr (Result.ok_of_toOption hdirect)
          unfold Object.addEntry
          simp only [hname, hversion, hblank, hsource, hreferences, hdirect, Result.ok_bind]
          rfl
  · exact absurd h (by simp)

/-- **An entry that can be read is inserted**, into whichever builder. -/
theorem Format.addEntry_of_part {p : Part} (h : f.part? value = some p) (b : Builder) (index : Nat)
    (line : Option Nat) :
    f.addEntry b index value line = .ok (b.insert p.node p.references line) := by
  obtain ⟨a, ha, hp⟩ := Option.bind_eq_some_iff.mp h
  obtain ⟨n, hn⟩ := Builder.add_part hp b line
  rw [addEntry_of_addition ha, hn]
  rfl

/-- The fields of an entry say something if they can be read, one after the other. -/
theorem Format.addition?_of_fields {version : String} {source : Option String} {direct : Bool}
    {references : List String}
    (hname : Value.field "name" fields = .text name)
    (hblank : ¬ Text.isBlankText name = true)
    (hversion : Value.field "version" fields = .text version)
    (hsource : b.readSource line label name fields = .ok source)
    (hdirect : f.direct? name fields = some direct)
    (hreferences : b.readReferences line label name fields = .ok references) :
    f.addition? (.table fields) = some ⟨name, version, source, references, direct⟩ := by
  unfold addition?
  dsimp only
  rw [hname, hversion]
  change ((Builder.readSource {} none .table name fields).toOption >>= _) = _
  rw [Result.toOption_of_ok (readSource_congr hsource), hdirect,
    Result.toOption_of_ok (readReferences_congr hreferences)]
  exact if_neg hblank

/-- An entry can be read if its fields can, one after the other, and it can be added. -/
theorem Format.part?_of_fields {version : String} {source : Option String} {direct : Bool}
    {references : List String} {added : Builder × Node}
    (hname : Value.field "name" fields = .text name)
    (hblank : ¬ Text.isBlankText name = true)
    (hversion : Value.field "version" fields = .text version)
    (hsource : b.readSource line label name fields = .ok source)
    (hdirect : f.direct? name fields = some direct)
    (hreferences : b.readReferences line label name fields = .ok references)
    (hadded : b.add name version source references direct line' = .ok added) :
    ∃ p, f.part? (.table fields) = some p := by
  have ha := addition?_of_fields hname hblank hversion hsource hdirect hreferences
  obtain ⟨p, hp⟩ := Builder.part?_of_add (a := ⟨name, version, source, references, direct⟩) hadded
  exact ⟨p, Option.bind_eq_some_iff.mpr ⟨_, ha, hp⟩⟩

/-- Only entries that can be read are added. -/
theorem Format.part?_of_addEntry {index : Nat} (h : f.addEntry b index value line = .ok c) :
    ∃ p, f.part? value = some p := by
  cases f with
  | cargo =>
      unfold Format.addEntry Cargo.addEntry Cargo.refuse Builder.fail at h
      dsimp only at h
      split at h
      · split at h
        · rename_i name hname
          split at h
          · exact absurd h (by simp)
          · rename_i hblank
            split at h
            · rename_i version hversion
              obtain ⟨source, hsource, h⟩ := Result.bind_ok.mp h
              obtain ⟨references, hreferences, h⟩ := Result.bind_ok.mp h
              obtain ⟨added, hadded, _⟩ := Result.bind_ok.mp h
              -- an entry added passed every check: its part is what they found
              exact part?_of_fields hname hblank hversion hsource rfl hreferences hadded
            · exact absurd h (by simp)
        · exact absurd h (by simp)
      · exact absurd h (by simp)
  | json =>
      unfold Format.addEntry Object.addEntry Object.refuse Builder.fail at h
      dsimp only at h
      split at h
      · split at h
        · rename_i name hname
          split at h
          · exact absurd h (by simp)
          · rename_i hblank
            split at h
            · rename_i version hversion
              obtain ⟨source, hsource, h⟩ := Result.bind_ok.mp h
              obtain ⟨direct, hdirect, h⟩ := Result.bind_ok.mp h
              obtain ⟨references, hreferences, h⟩ := Result.bind_ok.mp h
              obtain ⟨added, hadded, _⟩ := Result.bind_ok.mp h
              exact part?_of_fields hname hblank hversion hsource
                (Result.toOption_of_ok (readDirect_congr hdirect)) hreferences hadded
            · exact absurd h (by simp)
        · exact absurd h (by simp)
      · exact absurd h (by simp)

theorem Format.addEntry_ok (f : Format) (b : Builder) (index : Nat) (value : Value)
    (line : Option Nat) :
    (∃ c, f.addEntry b index value line = .ok c) ↔ ∃ p, f.part? value = some p := by
  constructor
  · intro h
    obtain ⟨c, hc⟩ := h
    exact part?_of_addEntry hc
  · intro h
    obtain ⟨p, hp⟩ := h
    exact ⟨_, addEntry_of_part hp b index line⟩

/-- One entry after the other, each on the next of the known lines. -/
theorem Cargo.addEntries_cons (b : Builder) (value : Value) (values : List Value)
    (lines : List Nat) :
    Cargo.addEntries b (value :: values) lines = (do
      Cargo.addEntries (← Cargo.addEntry b value lines.head?) values lines.tail) := by
  cases lines <;> rw [Cargo.addEntries] <;> rfl

theorem Object.addEntries_cons (b : Builder) (index : Nat) (value : Value) (values : List Value)
    (lines : List Nat) :
    Object.addEntries b index (value :: values) lines = (do
      Object.addEntries (← Object.addEntry b index value lines.head?) (index + 1) values
        lines.tail) := by
  cases lines <;> rw [Object.addEntries] <;> rfl

theorem Format.addEntries_cons (f : Format) (b : Builder) (index : Nat) (value : Value)
    (values : List Value) (lines : List Nat) :
    f.addEntries b index (value :: values) lines = (do
      f.addEntries (← f.addEntry b index value lines.head?) (index + 1) values lines.tail) := by
  cases f with
  | cargo => exact Cargo.addEntries_cons b value values lines
  | json => exact Object.addEntries_cons b index value values lines

theorem Format.addEntries_nil (f : Format) (b : Builder) (index : Nat) (lines : List Nat) :
    f.addEntries b index [] lines = .ok b := by
  cases f with
  | cargo => exact Cargo.addEntries.eq_1 b lines
  | json => exact Object.addEntries.eq_1 b index lines

/-- **Run.** Once all entries of a lock file are added the builder holds them. -/
theorem Builder.Holds.addEntries {parts : List Part} {index : Nat} {values : List Value}
    {lines : List Nat} (hb : b.Holds parts) (h : f.addEntries b index values lines = .ok c) :
    c.Holds (parts ++ values.filterMap f.part?) := by
  induction values generalizing b parts index lines with
  | nil =>
      rw [Format.addEntries_nil] at h
      cases h
      rwa [List.filterMap_nil, List.append_nil]
  | cons value values ih =>
      rw [Format.addEntries_cons] at h
      obtain ⟨next, hnext, h⟩ := Result.bind_ok.mp h
      obtain ⟨p, hp⟩ := Format.part?_of_addEntry hnext
      rw [Format.addEntry_of_part hp] at hnext
      cases hnext
      obtain ⟨a, _, ha⟩ := Option.bind_eq_some_iff.mp hp
      rw [List.filterMap_cons_some hp, List.append_cons]
      exact ih (hb.insert_part ha lines.head?) h

/-- A lock file is read to its end if each of its entries can be read. -/
theorem Format.addEntries_ok (f : Format) (b : Builder) (index : Nat) (values : List Value)
    (lines : List Nat) :
    (∃ c, f.addEntries b index values lines = .ok c) ↔
      ∀ value ∈ values, ∃ p, f.part? value = some p := by
  induction values generalizing b index lines with
  | nil => simp [addEntries_nil]
  | cons value values ih =>
      rw [List.forall_mem_cons, Format.addEntries_cons,
        ← addEntry_ok f b index value lines.head?]
      constructor
      · intro h
        obtain ⟨c, hc⟩ := h
        obtain ⟨next, hnext, hc⟩ := Result.bind_ok.mp hc
        exact ⟨⟨next, hnext⟩, (ih next _ _).mp ⟨c, hc⟩⟩
      · intro h
        obtain ⟨⟨next, hnext⟩, hvalues⟩ := h
        obtain ⟨c, hc⟩ := (ih next (index + 1) lines.tail).mpr hvalues
        exact ⟨c, Result.bind_ok.mpr ⟨next, hnext, hc⟩⟩

/-- **What reading a lock file does.** It builds a graph from the entries that are listed; or
nothing is listed and it fails. -/
theorem Format.parse_cases (f : Format) (bytes : List UInt8) (path : Option String) :
    (∃ values lines, f.packages? bytes = some values ∧
      f.parse bytes path = (do (← f.addEntries { path } 0 values lines).build)) ∨
    (f.packages? bytes = none ∧ ∃ cause, f.parse bytes path = .error cause) := by
  unfold packages? parse
  cases Text.Utf8.decode bytes with
  | error fault => exact .inr ⟨rfl, _, rfl⟩
  | ok cs =>
      rw [Result.toOption_of_ok rfl, Option.bind_some]
      dsimp only
      -- the formats differ in how they get to the list, and agree from there on
      cases f with
      | cargo =>
          unfold listed? Cargo.parseText
          cases Toml.decode cs with
          | error fault => cases fault <;> exact .inr ⟨rfl, _, rfl⟩
          | ok fields =>
              dsimp only
              generalize (Value.lookup? "package" fields).getD (.list []) = packages
              cases packages with
              | list values => exact .inl ⟨values, Cargo.headerLines cs, rfl, rfl⟩
              | _ => exact .inr ⟨rfl, _, rfl⟩
      | json =>
          unfold listed? Object.parseText
          cases Json.decode cs with
          | error fault => cases fault <;> exact .inr ⟨rfl, _, rfl⟩
          | ok document =>
              cases document with
              | table fields =>
                  dsimp only
                  generalize Value.field "packages" fields = packages
                  cases packages with
                  | list values => exact .inl ⟨values, Object.entryLines cs, rfl, rfl⟩
                  | _ => exact .inr ⟨rfl, _, rfl⟩
              | _ => exact .inr ⟨rfl, _, rfl⟩

theorem Format.parse_eq {bytes : List UInt8} {values : List Value}
    (h : f.packages? bytes = some values) (path : Option String) :
    ∃ lines, f.parse bytes path = (do (← f.addEntries { path } 0 values lines).build) := by
  rcases f.parse_cases bytes path with ⟨values', lines, hvalues, hparse⟩ | ⟨hnone, _⟩
  · rw [h] at hvalues
    cases hvalues
    exact ⟨lines, hparse⟩
  · rw [hnone] at h
    exact absurd h (by simp)

/-- **Every graph of a lock file is locked**, in either format. -/
theorem Format.parse_isLocked {bytes : List UInt8} {path : Option String} {g : Graph}
    (h : f.parse bytes path = .ok g) :
    g.IsLocked := by
  rcases f.parse_cases bytes path with ⟨values, lines, _, hparse⟩ | ⟨_, cause, hparse⟩
  · rw [hparse] at h
    obtain ⟨b, hb, h⟩ := Result.bind_ok.mp h
    exact ((Builder.Holds.empty path).addEntries hb).sound.build_isLocked h
  · rw [hparse] at h
    exact absurd h (by simp)

/-- Lock files that list the same entries make graphs that are alike. -/
theorem Format.parse_endAlike {bytes bytes' : List UInt8} {values values' : List Value}
    (h : f.packages? bytes = some values) (h' : f.packages? bytes' = some values')
    (hsame : ∀ value, value ∈ values ↔ value ∈ values') (path path' : Option String) :
    EndAlike (f.parse bytes path) (f.parse bytes' path') := by
  obtain ⟨lines, hlines⟩ := parse_eq h path
  obtain ⟨lines', hlines'⟩ := parse_eq h' path'
  rw [hlines, hlines']
  by_cases hread : ∀ value ∈ values, ∃ p, f.part? value = some p
  · have hread' : ∀ value ∈ values', ∃ p, f.part? value = some p :=
      fun value hvalue => hread value ((hsame value).mpr hvalue)
    obtain ⟨b, hb⟩ := (f.addEntries_ok ⟨path, []⟩ 0 values lines).mpr hread
    obtain ⟨c, hc⟩ := (f.addEntries_ok ⟨path', []⟩ 0 values' lines').mpr hread'
    rw [hb, hc]
    refine ((Builder.Holds.empty path).addEntries hb).endAlike
      ((Builder.Holds.empty path').addEntries hc) fun p => ?_
    simp only [List.nil_append, List.mem_filterMap, hsame]
  · -- an entry that cannot be read stops both
    have hfirst : ∀ g, (do (← f.addEntries ⟨path, []⟩ 0 values lines).build) ≠ .ok g := by
      intro g hg
      obtain ⟨b, hb, _⟩ := Result.bind_ok.mp hg
      exact hread ((f.addEntries_ok _ 0 values lines).mp ⟨b, hb⟩)
    have hsecond : ∀ g, (do (← f.addEntries ⟨path', []⟩ 0 values' lines').build) ≠ .ok g := by
      intro g hg
      obtain ⟨b, hb, _⟩ := Result.bind_ok.mp hg
      have hread' := (f.addEntries_ok _ 0 values' lines').mp ⟨b, hb⟩
      exact hread fun value hvalue => hread' value ((hsame value).mp hvalue)
    refine ⟨?_, fun g _ hg => absurd hg (hfirst g)⟩
    exact iff_of_false (fun ⟨g, hg⟩ => hfirst g hg) (fun ⟨g, hg⟩ => hsecond g hg)

end Entries

/-! ## Plain entries -/

/-- An entry of a lock file for a dependency without references. -/
def Object.plainEntry (name version : String) : Value :=
  .table [("name", .text name), ("version", .text version)]

/-- The bytes of a lock file with these entries. -/
def Object.plainBytes (entries : List Value) : List UInt8 :=
  Text.Utf8.encode (Json.encode .line (.table [("packages", .list entries)]))

theorem Object.packages?_plainBytes {entries : List Value} (h : ∀ e ∈ entries, Json.IsPlain e) :
    Format.json.packages? (plainBytes entries) = some entries := by
  have hplain : Json.IsPlain (.table [("packages", .list entries)]) := by
    refine .table (by simp) ?_
    simp only [List.forall_mem_cons]
    exact ⟨.list h, by simp⟩
  have hdecode := Json.decode_encode hplain .line (List.forall_mem_nil _)
  rw [List.append_nil] at hdecode
  unfold Format.packages? plainBytes
  rw [Text.Utf8.decode_encode, Result.toOption_of_ok rfl, Option.bind_some]
  unfold Format.listed?
  dsimp only
  rw [hdecode]
  rfl

theorem Object.isPlain_plainEntry (name version : String) :
    Json.IsPlain (plainEntry name version) := by
  refine .table (by simp) ?_
  simp only [List.forall_mem_cons]
  exact ⟨.text _, .text _, by simp⟩

end LockAudit.Lockfile
