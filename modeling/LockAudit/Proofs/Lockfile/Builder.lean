import LockAudit.Lockfile.Builder
import LockAudit.Proofs.Lockfile.Canonical
import LockAudit.Proofs.Text.Words
import LockAudit.Proofs.Version.Parse

/-!
# What a builder comes to

A builder takes an entry by inserting a dependency whose name is stored as names are,
whose version some text spells and whose source is named. That is the whole of a step, so
whatever insertion preserves holds of the builder after any number of entries.

Building then links the dependencies, and what is known of the graph is collected in
`Graph.IsLocked`. Its part about words is about references: one is cut at white space
before it is looked up, so only a dependency whose name is a word can be referred to.
-/

namespace LockAudit.Lockfile

/-- A dependency that some entry of a lock file can state. -/
structure Node.IsStated (n : Node) : Prop where
  /-- The name is stored as names are. -/
  name : PackageName.normalize n.name = n.name
  named : Text.isBlankText n.name = false
  /-- The version is one that some text spells. -/
  version : n.version.IsWritten
  source : n.source.isEmpty = false

/-- What holds of the builder after any number of entries. -/
structure Builder.IsSound (b : Builder) : Prop where
  stated : ∀ e ∈ b.entries, e.node.IsStated
  /-- The first entry for a dependency and the merged one are about the same. -/
  coordinate : ∀ e ∈ b.entries, e.coordinate.key = e.node.key
  distinct : (b.entries.map (·.node.key)).Nodup

/-- What holds of every graph of a lock file. -/
structure Graph.IsLocked (g : Graph) : Prop where
  stated : ∀ n ∈ g.nodes, n.IsStated
  sorted : g.nodes.Pairwise fun a b => (a.order b).isLE = true
  /-- What something depends on has a word for a name. -/
  word : ∀ e ∈ g.links, Text.IsWord e.2.name.toList
  /-- What a package of the workspace depends on outside of it is direct. -/
  direct : ∀ m ∈ g.nodes, ∀ n ∈ g.nodes, (m.key, n.key) ∈ g.links → m.isPath = true →
    n.isPath = false → n.direct = true

namespace Builder

variable {b : Builder} {n : Node} {name version reference : String} {source : Option String}
  {line : Option Nat} {references : List String} {direct : Bool} {c : Coordinate}
  {links : List (Coordinate × Coordinate)}

/-! ## Inserting -/

theorem mem_addNew {refs more : List String} {r : String} :
    r ∈ addNew refs more ↔ r ∈ refs ∨ r ∈ more := by
  unfold addNew
  induction more generalizing refs with
  | nil => simp
  | cons first more ih =>
      rw [List.foldl_cons, ih, List.mem_cons]
      split
      · rename_i hknown
        rw [List.contains_iff_mem] at hknown
        constructor
        · rintro (h | h)
          · exact .inl h
          · exact .inr (.inr h)
        · rintro (h | rfl | h)
          · exact .inl h
          · exact .inl hknown
          · exact .inr h
      · rw [List.mem_append, List.mem_singleton, or_assoc]

theorem merge_key {e : Entry} (h : e.node.key = n.key) (references : List String) :
    (Entry.merge e n references).node.key = e.node.key := by
  unfold Entry.merge
  dsimp only
  split
  · exact h.symm
  · rfl

theorem mem_insert {e : Entry} (he : e ∈ (b.insert n references line).entries) :
    (∃ d ∈ b.entries, e = d ∨ d.node.key = n.key ∧ e = Entry.merge d n references) ∨
      e = ⟨n.coordinate, n, line, addNew [] references⟩ := by
  unfold insert at he
  split at he
  · obtain ⟨d, hd, rfl⟩ := List.mem_map.mp he
    refine .inl ⟨d, hd, ?_⟩
    split
    · rename_i hkey
      exact .inr ⟨eq_of_beq hkey, rfl⟩
    · exact .inl rfl
  · rcases List.mem_append.mp he with he | he
    · exact .inl ⟨e, he, .inl rfl⟩
    · exact .inr (List.mem_singleton.mp he)

/-- An entry for a new dependency is put at the end. -/
theorem insert_of_new (h : n.key ∉ b.entries.map (·.node.key)) :
    (b.insert n references line).entries =
      b.entries ++ [⟨n.coordinate, n, line, addNew [] references⟩] := by
  have hnone : (b.entries.any fun e => e.node.key == n.key) = false := by
    rw [List.any_eq_false]
    intro e he heq
    exact h (List.mem_map.mpr ⟨e, he, eq_of_beq heq⟩)
  unfold insert
  rw [hnone]
  rfl

theorem keys_insert : (b.insert n references line).entries.map (·.node.key) =
    if n.key ∈ b.entries.map (·.node.key) then b.entries.map (·.node.key)
    else b.entries.map (·.node.key) ++ [n.key] := by
  by_cases h : n.key ∈ b.entries.map (·.node.key)
  · have hany : (b.entries.any fun e => e.node.key == n.key) = true := by
      obtain ⟨e, he, hkey⟩ := List.mem_map.mp h
      exact List.any_eq_true.mpr ⟨e, he, beq_iff_eq.mpr hkey⟩
    unfold insert
    rw [hany, if_pos rfl, if_pos h, List.map_map]
    refine List.map_congr_left fun e _ => ?_
    rw [Function.comp_apply]
    split
    · rename_i hkey
      exact merge_key (eq_of_beq hkey) references
    · rfl
  · rw [insert_of_new h, if_neg h, List.map_append]
    rfl

theorem IsSound.empty (path : Option String) : (⟨path, []⟩ : Builder).IsSound where
  stated := by simp
  coordinate := by simp
  distinct := by simp

/-- **Step.** One more entry keeps the builder sound. -/
theorem IsSound.insert (h : b.IsSound) (hn : n.IsStated) (references : List String)
    (line : Option Nat) :
    (b.insert n references line).IsSound where
  stated := by
    intro e he
    -- kept as it was, merged with `n` or `n` itself
    rcases mem_insert he with ⟨d, hd, rfl | ⟨_, rfl⟩⟩ | rfl
    · exact h.stated e hd
    · unfold Entry.merge
      dsimp only
      split
      · exact hn
      · exact h.stated d hd
    · exact hn
  coordinate := by
    intro e he
    rcases mem_insert he with ⟨d, hd, rfl | ⟨hkey, rfl⟩⟩ | rfl
    · exact h.coordinate e hd
    · rw [merge_key hkey]
      exact h.coordinate d hd
    · rfl
  distinct := by
    rw [keys_insert]
    split
    · exact h.distinct
    · rename_i hnew
      rw [List.nodup_append]
      refine ⟨h.distinct, by simp, ?_⟩
      intro key hkey key' hkey' heq
      rw [List.mem_singleton] at hkey'
      exact hnew (by rw [← hkey', ← heq]; exact hkey)

/-! ## Entries -/

/-- The source of a dependency whose entry states this one, or none. -/
def sourceOf (source : Option String) : String :=
  match source with
  | some s => if s.isEmpty then pathSource else s
  | none => pathSource

/-- A dependency is read from an entry field by field. -/
theorem readNode_ok (h : b.readNode name version source direct line = .ok n) :
    ∃ v, Version.parse version = .ok v ∧ Text.isBlankText name = false ∧
      n = ⟨PackageName.normalize name, v, sourceOf source, direct⟩ := by
  unfold readNode at h
  split at h
  · exact absurd h (by simp [fail])
  · exact absurd h (by simp)
  · rename_i v hversion
    dsimp only at h
    split at h
    · exact absurd h (by simp [fail])
    · rename_i node hnode
      obtain rfl : node = n := Except.ok.inj h
      unfold Node.of at hnode
      split at hnode
      · exact absurd hnode (by simp)
      · rename_i hblank
        rw [Bool.not_eq_true] at hblank
        exact ⟨v, hversion, hblank, (Except.ok.inj hnode).symm⟩

theorem isEmpty_sourceOf (source : Option String) : (sourceOf source).isEmpty = false := by
  unfold sourceOf
  split
  · split
    · decide
    · rename_i hsource
      rwa [Bool.not_eq_true] at hsource
  · decide

/-- What is read from an entry is a dependency that one can state. -/
theorem readNode_isStated (h : b.readNode name version source direct line = .ok n) :
    n.IsStated := by
  obtain ⟨v, hversion, hblank, rfl⟩ := readNode_ok h
  exact ⟨PackageName.normalize_normalize name, PackageName.isBlankText_normalize hblank,
    Version.parse_isWritten hversion, isEmpty_sourceOf source⟩

/-! ## References -/

/-- The name in a reference is a word. -/
theorem readReference_isWord {r : Reference} (h : b.readReference line reference = .ok r) :
    Text.IsWord r.name.toList := by
  unfold readReference fail at h
  dsimp only at h
  split at h
  · rename_i name hwords
    cases h
    exact (Text.isWord_of_mem_words (by rw [hwords]; simp)).lower
  · rename_i name version hwords
    split at h
    · cases h
      exact (Text.isWord_of_mem_words (by rw [hwords]; simp)).lower
    · exact absurd h (by simp)
    · exact absurd h (by simp)
  · exact absurd h (by simp)

/-- Among things with different keys, a key finds one. -/
theorem filter_key_eq {l : List Entry} (h : (l.map (·.node.key)).Nodup) {e : Entry} (he : e ∈ l) :
    (l.filter fun d => d.node.key == e.node.key) = [e] := by
  induction l with
  | nil => exact absurd he (by simp)
  | cons d l ih =>
      rw [List.map_cons, List.nodup_cons] at h
      obtain ⟨hd, hl⟩ := h
      rcases List.mem_cons.mp he with rfl | he
      · have hnone : (l.filter fun d => d.node.key == e.node.key) = [] := by
          rw [List.filter_eq_nil_iff]
          intro x hx heq
          exact hd (List.mem_map.mpr ⟨x, hx, eq_of_beq heq⟩)
        rw [List.filter_cons, if_pos (beq_self_eq_true _), hnone]
      · have hne : ¬ (d.node.key == e.node.key) = true := by
          intro heq
          exact hd (List.mem_map.mpr ⟨e, he, (eq_of_beq heq).symm⟩)
        rw [List.filter_cons, if_neg hne, ih hl he]

theorem resolve_ok (h : b.resolve reference line = .ok c) :
    Text.IsWord c.name.toList ∧ ∃ e ∈ b.entries, e.coordinate = c := by
  unfold resolve fail at h
  obtain ⟨r, hr, h⟩ := Result.bind_ok.mp h
  split at h
  · rename_i e hfilter
    cases h
    have he : e ∈ b.entries ∧ r.fits e = true := by
      rw [← List.mem_filter, hfilter]
      exact List.mem_singleton_self e
    obtain ⟨hmem, hfits⟩ := he
    unfold Reference.fits at hfits
    rw [Bool.and_eq_true, Bool.and_eq_true] at hfits
    have hname : e.coordinate.name = r.name := eq_of_beq hfits.1.1
    rw [hname]
    exact ⟨readReference_isWord hr, e, hmem, rfl⟩
  · exact absurd h (by simp)
  · exact absurd h (by simp)

/-- A link goes from an entry to what one of its references means. -/
theorem mem_edges (h : b.edges = .ok links) {link : Coordinate × Coordinate} :
    link ∈ links ↔ ∃ e ∈ b.entries, ∃ r ∈ e.references,
      link.1 = e.coordinate ∧ b.resolve r e.line = .ok link.2 := by
  unfold edges at h
  obtain ⟨lists, hlists, h⟩ := Result.bind_ok.mp h
  cases h
  -- the links of one entry are its references, each resolved
  have hown (e : Entry) (own : List (Coordinate × Coordinate)) (hown : b.entryEdges e = .ok own) :
      link ∈ own ↔ ∃ r ∈ e.references, link.1 = e.coordinate ∧ b.resolve r e.line = .ok link.2 := by
    rw [Result.mem_of_mapM hown]
    refine exists_congr fun r => and_congr_right fun _ => ?_
    rw [Result.bind_ok]
    constructor
    · rintro ⟨c, hc, heq⟩
      cases heq
      exact ⟨rfl, hc⟩
    · rintro ⟨hparent, hchild⟩
      exact ⟨link.2, hchild, by rw [← hparent]; rfl⟩
  rw [List.mem_flatten]
  constructor
  · rintro ⟨own, hmem, hlink⟩
    obtain ⟨e, he, heq⟩ := (Result.mem_of_mapM hlists).mp hmem
    exact ⟨e, he, (hown e own heq).mp hlink⟩
  · rintro ⟨e, he, hlink⟩
    obtain ⟨own, heq⟩ := Result.mapM_ok.mp ⟨lists, hlists⟩ e he
    exact ⟨own, (Result.mem_of_mapM hlists).mpr ⟨e, he, heq⟩, (hown e own heq).mpr hlink⟩

/-! ## Building -/

/-- The dependency of an entry, direct if a package of the workspace refers to it. -/
def finished (b : Builder) (links : List (Coordinate × Coordinate)) (e : Entry) : Node :=
  if b.isWanted links e.node then { e.node with direct := true } else e.node

theorem build_eq : b.build = (do
    let links ← b.edges
    (Graph.of (b.entries.map (b.finished links)) links).mapError .value) := rfl

theorem finished_key (b : Builder) (links : List (Coordinate × Coordinate)) (e : Entry) :
    (b.finished links e).key = e.node.key := by
  unfold finished
  split <;> rfl

theorem IsSound.finished (h : b.IsSound) {e : Entry} (he : e ∈ b.entries) :
    (b.finished links e).IsStated := by
  have hstated := h.stated e he
  unfold Builder.finished
  split
  · exact ⟨hstated.name, hstated.named, hstated.version, hstated.source⟩
  · exact hstated

theorem keys_finished (b : Builder) (links : List (Coordinate × Coordinate)) :
    (b.entries.map (b.finished links)).map (·.key) = b.entries.map (·.node.key) := by
  rw [List.map_map]
  exact List.map_congr_left fun e _ => finished_key b links e

/-- Whether a dependency belongs to the workspace can be told from its key. -/
theorem isPath_of_mem {key : NodeKey} (h : key ∈ b.entries.map (·.node.key)) :
    b.isPath key = (key.source == pathSource) := by
  obtain ⟨e, he, rfl⟩ := List.mem_map.mp h
  unfold isPath get?
  have hsome : (b.entries.find? (·.node.key == e.node.key)).isSome = true :=
    List.find?_isSome.mpr ⟨e, he, beq_self_eq_true _⟩
  obtain ⟨d, hd⟩ := Option.isSome_iff_exists.mp hsome
  have hkey : d.node.key = e.node.key := by simpa using List.find?_some hd
  rw [hd]
  have hsource : d.node.source = e.node.key.source := congrArg NodeKey.source hkey
  exact congrArg (· == pathSource) hsource

/-- The links lead from entries to entries. -/
theorem IsSound.ends (h : b.IsSound) (hlinks : b.edges = .ok links) :
    ∀ e ∈ links, e.1.key ∈ b.entries.map (·.node.key) ∧ e.2.key ∈ b.entries.map (·.node.key) := by
  intro link hlink
  obtain ⟨e, he, r, _, hparent, hchild⟩ := (mem_edges hlinks).mp hlink
  obtain ⟨_, d, hd, hcoordinate⟩ := resolve_ok hchild
  refine ⟨?_, ?_⟩
  · rw [hparent, h.coordinate e he]
    exact List.mem_map.mpr ⟨e, he, rfl⟩
  · rw [← hcoordinate, h.coordinate d hd]
    exact List.mem_map.mpr ⟨d, hd, rfl⟩

/-- **The graph of a sound builder is locked.** -/
theorem IsSound.build_isLocked (h : b.IsSound) {g : Graph} (hg : b.build = .ok g) : g.IsLocked := by
  rw [build_eq] at hg
  obtain ⟨links, hlinks, hg⟩ := Result.bind_ok.mp hg
  rw [Result.mapError_ok] at hg
  have hkeys := keys_finished b links
  obtain ⟨g', hg', hnodes, hgraph⟩ := Graph.of_ok (by rw [hkeys]; exact h.distinct)
    (by rw [hkeys]; exact h.ends hlinks)
  obtain rfl : g = g' := Except.ok.inj (hg.symm.trans hg')
  -- every node of the graph is an entry of the builder that was finished
  have hmem (n : Node) (hn : n ∈ g.nodes) : ∃ e ∈ b.entries, b.finished links e = n := by
    rw [hnodes] at hn
    exact List.mem_map.mp ((Graph.sortNodes_perm _).mem_iff.mp hn)
  refine ⟨?_, ?_, ?_, ?_⟩
  · intro n hn
    obtain ⟨e, he, rfl⟩ := hmem n hn
    exact h.finished he
  · rw [hnodes]
    exact Graph.sortNodes_pairwise _
  · intro e he
    rw [hgraph] at he
    obtain ⟨link, hlink, rfl⟩ := List.mem_map.mp he
    -- the end of an edge is what its reference was resolved to
    obtain ⟨_, _, r, _, _, hchild⟩ := (mem_edges hlinks).mp hlink
    exact (resolve_ok hchild).1
  · intro m hm n hn hlink hpath houtside
    rw [hgraph] at hlink
    obtain ⟨link, hin, heq⟩ := List.mem_map.mp hlink
    have hparent : link.1.key = m.key := congrArg Prod.fst heq
    have hchild : link.2.key = n.key := congrArg Prod.snd heq
    obtain ⟨e, he, rfl⟩ := hmem n hn
    -- a node outside that a member links to is wanted, and so is finished as direct
    have hmember : b.isPath link.1.key = true := by
      rw [isPath_of_mem (h.ends hlinks link hin).1, hparent]
      exact hpath
    have houtside : e.node.isPath = false := by
      have hsource : (b.finished links e).source = e.node.source :=
        congrArg NodeKey.source (finished_key b links e)
      unfold Node.isPath at houtside ⊢
      rwa [hsource] at houtside
    have hwanted : b.isWanted links e.node = true := by
      unfold isWanted
      rw [houtside, Bool.not_false, Bool.true_and]
      refine List.any_eq_true.mpr ⟨link, hin, ?_⟩
      rw [hmember, hchild, finished_key]
      exact beq_self_eq_true _
    unfold Builder.finished
    rw [if_pos hwanted]

end Builder

end LockAudit.Lockfile
