import LockAudit.Proofs.Lockfile.Listing

/-!
# Which dependencies are direct

An entry of a lock file with a package list says itself whether its dependency is direct,
and entries for one dependency merge: one that says so is enough. The flag is meant to be
all that counts in this format.

Both formats share one builder, though, and the builder has a rule for lock files that
have no such flag: what a package of the workspace refers to outside the workspace is
direct. `Graph.IsWanted` is this rule. A dependency is direct by the one or by the other,
so the flags are all that counts only where they mark everything that the rule marks.
-/

namespace LockAudit.Lockfile

variable {f : Format} {b : Builder} {bytes : List UInt8} {path : Option String} {g : Graph}
  {n : Node} {key : NodeKey} {fields : List (String × Value)} {line : Option Nat}

/-! ## What an entry is about -/

/-- A field states this source. Without one a package belongs to the workspace. -/
inductive StatesSource : Value → String → Prop
  | absent : StatesSource .null pathSource
  | empty : StatesSource (.text "") pathSource
  | given {source : String} (given : source ≠ "") : StatesSource (.text source) source

/-- An entry is about a dependency: it has its name, its version and its source. -/
structure IsAbout (fields : List (String × Value)) (key : NodeKey) : Prop where
  name : ∃ name, Value.field "name" fields = .text name ∧ PackageName.normalize name = key.name
  version : ∃ text v, Value.field "version" fields = .text text ∧ Version.parse text = .ok v ∧
    v.toPrecedence = key.version
  source : StatesSource (Value.field "source" fields) key.source

/-- An entry says of a dependency that it is direct. -/
inductive Flags : Value → NodeKey → Prop
  | entry {fields : List (String × Value)} {key : NodeKey} (about : IsAbout fields key)
      (direct : Value.lookup? "direct" fields = some (.bool true)) : Flags (.table fields) key

theorem statesSource_iff {label : EntryLabel} {name : String} {source : Option String}
    (h : b.readSource line label name fields = .ok source) (s : String) :
    StatesSource (Value.field "source" fields) s ↔ Builder.sourceOf source = s := by
  unfold Builder.readSource Builder.fail at h
  split at h
  · rename_i hnull
    cases h
    rw [hnull]
    constructor
    · intro hstates
      cases hstates
      rfl
    · rintro rfl
      exact .absent
  · rename_i text htext
    cases h
    rw [htext]
    -- an empty text is no source, just as none at all
    by_cases hempty : text = ""
    · subst hempty
      constructor
      · intro hstates
        cases hstates with
        | empty => rfl
        | given given => exact absurd rfl given
      · rintro rfl
        exact .empty
    · have hsource : Builder.sourceOf (some text) = text :=
        if_neg fun h => hempty (String.isEmpty_iff.mp h)
      rw [hsource]
      constructor
      · intro hstates
        cases hstates with
        | empty => exact absurd rfl hempty
        | given given => rfl
      · rintro rfl
        exact .given hempty
  · exact absurd h (by simp)

theorem readDirect_eq_true {index : Nat} {name : String} {direct : Bool}
    (h : Object.readDirect b index line name fields = .ok direct) :
    direct = true ↔ Value.lookup? "direct" fields = some (.bool true) := by
  unfold Object.readDirect Object.refuse Builder.fail at h
  split at h
  · rename_i hnone
    cases h
    simp [hnone]
  · rename_i flag hflag
    cases h
    simp [hflag]
  · exact absurd h (by simp)

/-- **What is read of an entry says what the entry says.** -/
theorem part?_flags {value : Value} {p : Part} (h : Format.json.part? value = some p) :
    p.node.key = key ∧ p.node.direct = true ↔ Flags value key := by
  unfold Format.part? at h
  obtain ⟨a, ha, hp⟩ := Option.bind_eq_some_iff.mp h
  obtain ⟨hnode, _⟩ := (Builder.part?_eq_some {} none).mp hp
  obtain ⟨v, hv, _, hn⟩ := Builder.readNode_ok hnode
  unfold Format.addition? at ha
  split at ha
  · rename_i fields
    obtain ⟨name, hname, ha⟩ := Option.bind_eq_some_iff.mp ha
    obtain ⟨version, hversion, ha⟩ := Option.bind_eq_some_iff.mp ha
    obtain ⟨source, hsource, ha⟩ := Option.bind_eq_some_iff.mp ha
    obtain ⟨direct, hdirect, ha⟩ := Option.bind_eq_some_iff.mp ha
    obtain ⟨references, _, ha⟩ := Option.bind_eq_some_iff.mp ha
    split at ha
    · exact absurd ha (by simp)
    · cases ha
      rw [Value.text?_eq_some] at hname hversion
      have hstates := statesSource_iff (Result.ok_of_toOption hsource)
      have hflag := readDirect_eq_true (Result.ok_of_toOption hdirect)
      rw [hn]
      constructor
      · intro hkey
        obtain ⟨rfl, hdirect⟩ := hkey
        exact .entry ⟨⟨name, hname, rfl⟩, ⟨version, v, hversion, hv, rfl⟩, (hstates _).mpr rfl⟩
          (hflag.mp hdirect)
      · intro hflags
        obtain ⟨⟨⟨name', hname', hnormal⟩, ⟨text, v', htext, hv', hprecedence⟩, hsame⟩, htrue⟩ :=
          hflags
        -- the fields are what was read from them
        obtain rfl : name = name' := Value.text.inj (hname.symm.trans hname')
        obtain rfl : version = text := Value.text.inj (hversion.symm.trans htext)
        obtain rfl : v = v' := Except.ok.inj (hv.symm.trans hv')
        refine ⟨?_, hflag.mpr htrue⟩
        change NodeKey.mk _ _ _ = key
        rw [hnormal, (hstates _).mp hsame]
        exact congrArg (NodeKey.mk key.name · key.source) hprecedence
  · exact absurd ha (by simp)

/-! ## Graphs -/

/-- A dependency outside the workspace that a package of the workspace depends on. -/
def Graph.IsWanted (g : Graph) (n : Node) : Prop :=
  n.isPath = false ∧ ∃ m ∈ g.nodes, m.isPath = true ∧ n ∈ g.children m

/-- **The graph of a lock file is the one that its entries make.** -/
theorem Format.parse_built (h : f.parse bytes path = .ok g) :
    ∃ values, f.packages? bytes = some values ∧ (∀ value ∈ values, ∃ p, f.part? value = some p) ∧
      Built (values.filterMap f.part?) g := by
  rcases f.parse_cases bytes path with ⟨values, lines, hvalues, hparse⟩ | ⟨_, cause, hparse⟩
  · rw [hparse] at h
    obtain ⟨b, hb, h⟩ := Result.bind_ok.mp h
    refine ⟨values, hvalues, (f.addEntries_ok _ 0 values lines).mp ⟨b, hb⟩, ?_⟩
    exact ((Builder.Holds.empty path).addEntries hb).build_built h
  · rw [hparse] at h
    exact absurd h (by simp)

theorem Built.isWanted_iff {parts : List Part} (h : Built parts g) (hn : n ∈ g.nodes) :
    (n.isPath = false ∧ ∃ parent : NodeKey, parent.source = pathSource ∧ Refers parts parent n.key) ↔
      g.IsWanted n := by
  refine and_congr_right fun _ => ?_
  simp only [← h.links]
  constructor
  · intro h
    obtain ⟨parent, hpath, hlink⟩ := h
    obtain ⟨m, hm, rfl⟩ := List.mem_map.mp (g.joined _ hlink).1
    exact ⟨m, hm, beq_iff_eq.mpr hpath, Graph.mem_children.mpr ⟨hn, hlink⟩⟩
  · intro h
    obtain ⟨m, _, hpath, hchild⟩ := h
    exact ⟨m.key, beq_iff_eq.mp hpath, (Graph.mem_children.mp hchild).2⟩

/--
**Which dependencies of a lock file with a package list are direct.**

A dependency is direct if an entry with its name, version and source says so, or if it lies
outside the workspace and a package of the workspace depends on it. So the flags alone
settle it in those lock files, and only in those, that flag everything outside the
workspace that a package of the workspace depends on.
-/
theorem Format.direct_exact (h : Format.json.parse bytes path = .ok g) :
    ∃ values, Format.json.packages? bytes = some values ∧
      (∀ n ∈ g.nodes, n.direct = true ↔ (∃ value ∈ values, Flags value n.key) ∨ g.IsWanted n) ∧
      ((∀ n ∈ g.nodes, n.direct = true ↔ ∃ value ∈ values, Flags value n.key) ↔
        ∀ n ∈ g.nodes, g.IsWanted n → ∃ value ∈ values, Flags value n.key) := by
  obtain ⟨values, hvalues, hread, hbuilt⟩ := Format.parse_built h
  -- every entry that was read has a part, and the part says of it what its flag does
  have hflagged (key : NodeKey) :
      (∃ p ∈ values.filterMap Format.json.part?, p.node.key = key ∧ p.node.direct = true) ↔
        ∃ value ∈ values, Flags value key := by
    simp only [List.mem_filterMap]
    constructor
    · intro h
      obtain ⟨p, ⟨value, hvalue, hp⟩, hsays⟩ := h
      exact ⟨value, hvalue, (part?_flags hp).mp hsays⟩
    · intro h
      obtain ⟨value, hvalue, hflags⟩ := h
      obtain ⟨p, hp⟩ := hread value hvalue
      exact ⟨p, ⟨value, hvalue, hp⟩, (part?_flags hp).mpr hflags⟩
  have hdirect : ∀ n ∈ g.nodes, n.direct = true ↔
      (∃ value ∈ values, Flags value n.key) ∨ g.IsWanted n := by
    intro n hn
    rw [hbuilt.direct n hn, hflagged, hbuilt.isWanted_iff hn]
  refine ⟨values, hvalues, hdirect, forall₂_congr fun n hn => ?_⟩
  rw [hdirect n hn]
  exact or_iff_left_iff_imp

/-- A lock file without flags: a package of the workspace refers to one outside. -/
def Object.unflagged : List Value := [
  .table [("name", .text "app"), ("version", .text "0.1.0"), ("dependencies", .list [.text "lib"])],
  .table [("name", .text "lib"), ("version", .text "1.0.0"), ("source", .text "registry"),
    ("direct", .bool false)]]

theorem Object.isPlain_unflagged : ∀ e ∈ unflagged, Json.IsPlain e := by
  unfold unflagged
  simp only [List.forall_mem_cons]
  refine ⟨.table (by simp) ?_, .table (by simp) ?_, by simp⟩
  · simp only [List.forall_mem_cons]
    exact ⟨.text _, .text _, .list (by simp [Json.IsPlain.text]), by simp⟩
  · simp only [List.forall_mem_cons]
    exact ⟨.text _, .text _, .text _, .bool _, by simp⟩

/-- What is read from its entries. -/
def Object.unflaggedParts : List Part := [
  ⟨⟨"app", ⟨⟨0, 1, 0, []⟩, []⟩, pathSource, false⟩, ["lib"]⟩,
  ⟨⟨"lib", ⟨⟨1, 0, 0, []⟩, []⟩, "registry", false⟩, []⟩]

/-- The one outside the workspace. -/
def Object.unflaggedKey : NodeKey := ⟨"lib", ⟨1, 0, 0, []⟩, "registry"⟩

theorem Object.refers_unflagged :
    Refers unflaggedParts ⟨"app", ⟨0, 1, 0, []⟩, pathSource⟩ unflaggedKey := by
  have hmeans : Means unflaggedParts "lib" unflaggedKey :=
    ⟨by decide, ⟨"lib", none, none⟩, by rfl, by decide, by decide⟩
  exact ⟨_, List.mem_cons_self, rfl, "lib", List.mem_cons_self, hmeans⟩

theorem Format.direct_exact_unflagged : ∃ g n,
    Format.json.parse (Object.plainBytes Object.unflagged) none = .ok g ∧ n ∈ g.nodes ∧
      n.direct = true ∧ ¬ ∃ value ∈ Object.unflagged, Flags value n.key := by
  have hsome : (Format.json.parse (Object.plainBytes Object.unflagged) none).toOption.isSome =
      true := by decide +kernel
  obtain ⟨g, hg⟩ := Option.isSome_iff_exists.mp hsome
  have hok := Result.ok_of_toOption hg
  have hlisted := Object.packages?_plainBytes Object.isPlain_unflagged
  -- what was built from the entries wants the dependency
  obtain ⟨values, hvalues, _, hbuilt⟩ := Format.parse_built hok
  obtain rfl : Object.unflagged = values := Option.some.inj (hlisted.symm.trans hvalues)
  have hparts : Object.unflagged.filterMap Format.json.part? = Object.unflaggedParts := by
    decide +kernel
  rw [hparts] at hbuilt
  obtain ⟨n, hn, hkey⟩ := List.mem_map.mp ((hbuilt.keys Object.unflaggedKey).mpr (by decide))
  have hpath : n.isPath = false := by
    change (n.key.source == pathSource) = false
    rw [hkey]
    decide
  have hwanted : g.IsWanted n :=
    (hbuilt.isWanted_iff hn).mp ⟨hpath, _, rfl, hkey ▸ Object.refers_unflagged⟩
  obtain ⟨values, hvalues, hexact, _⟩ := Format.direct_exact hok
  obtain rfl : Object.unflagged = values := Option.some.inj (hlisted.symm.trans hvalues)
  refine ⟨g, n, hok, hn, (hexact n hn).mpr (Or.inr hwanted), ?_⟩
  intro h
  obtain ⟨value, hvalue, hflags⟩ := h
  cases hflags with
  | entry about direct =>
      simp only [Object.unflagged, List.mem_cons, List.not_mem_nil, or_false, Value.table.injEq]
        at hvalue
      rcases hvalue with rfl | rfl
      · exact absurd direct (by simp [Value.lookup?])
      · exact absurd direct (by simp [Value.lookup?])

end LockAudit.Lockfile
