import LockAudit.Proofs.Lockfile.Builder

/-!
# What a builder holds

Entries for one dependency merge, and a reference may come to mean nothing, one thing
or two depending on what else there is. All the same, what is built from a builder can
be read off the entries that went into it, taken as a set.

`Builder.Holds` says this of the builder: which dependencies it has, with which
references and which of them direct. One insertion keeps it, with one more entry.
`Means` says what a reference means among some entries, and `Built` which graph they
make. None of the three looks at the order of the entries, or counts them.
-/

namespace LockAudit.Lockfile

/-- An entry as it was read: the dependency that it is about, and its references. -/
structure Part where
  node : Node
  references : List String
  deriving DecidableEq, Repr

/-- The reference fits a dependency with this key. -/
def Builder.Reference.meets (r : Builder.Reference) (key : NodeKey) : Bool :=
  key.name == r.name && (r.version.all fun v => key.version == v) &&
    r.source.all fun s => key.source == s

/-- A reference means a dependency: it fits that one and no other. -/
structure Means (parts : List Part) (reference : String) (key : NodeKey) : Prop where
  known : ∃ p ∈ parts, p.node.key = key
  fits : ∃ r, Builder.readReference {} none reference = .ok r ∧ r.meets key = true ∧
    ∀ p ∈ parts, r.meets p.node.key = true → p.node.key = key

/-- One dependency refers to another. -/
def Refers (parts : List Part) (parent child : NodeKey) : Prop :=
  ∃ p ∈ parts, p.node.key = parent ∧ ∃ reference ∈ p.references, Means parts reference child

/-- The graph is the one that the entries make. -/
structure Built (parts : List Part) (g : Graph) : Prop where
  keys : ∀ key, key ∈ g.nodes.map (·.key) ↔ ∃ p ∈ parts, p.node.key = key
  links : ∀ parent child, (parent, child) ∈ g.links ↔ Refers parts parent child
  /-- A dependency is direct if an entry says so, or if it lies outside the workspace and
  a package of the workspace refers to it. -/
  direct : ∀ n ∈ g.nodes, n.direct = true ↔
    (∃ p ∈ parts, p.node.key = n.key ∧ p.node.direct = true) ∨
      n.isPath = false ∧ ∃ parent : NodeKey, parent.source = pathSource ∧ Refers parts parent n.key

/-- The builder holds what the entries say, and nothing else. -/
structure Builder.Holds (b : Builder) (parts : List Part) : Prop where
  sound : b.IsSound
  keys : ∀ key, key ∈ b.entries.map (·.node.key) ↔ ∃ p ∈ parts, p.node.key = key
  references : ∀ e ∈ b.entries, ∀ r,
    r ∈ e.references ↔ ∃ p ∈ parts, p.node.key = e.node.key ∧ r ∈ p.references
  direct : ∀ e ∈ b.entries,
    e.node.direct = true ↔ ∃ p ∈ parts, p.node.key = e.node.key ∧ p.node.direct = true

namespace Builder

variable {b c : Builder} {parts parts' : List Part} {n : Node} {references : List String}
  {line line' : Option Nat} {reference : String} {key : NodeKey} {g : Graph}
  {links : List (Coordinate × Coordinate)}

/-! ## Inserting -/

theorem merge_direct (e : Entry) (n : Node) (references : List String) :
    (Entry.merge e n references).node.direct = (e.node.direct || n.direct) := by
  unfold Entry.merge
  dsimp only
  cases hn : n.direct <;> cases he : e.node.direct <;> simp [hn, he]

theorem mem_merge_references {e : Entry} {r : String} :
    r ∈ (Entry.merge e n references).references ↔ r ∈ e.references ∨ r ∈ references :=
  mem_addNew

/-- What holds of every entry after an insertion: of those for other dependencies as they
were, of the one that is merged into, and of a new one. -/
theorem forall_mem_insert {Q : Entry → Prop} (line : Option Nat)
    (hother : ∀ e ∈ b.entries, e.node.key ≠ n.key → Q e)
    (hmerged : ∀ e ∈ b.entries, e.node.key = n.key → Q (Entry.merge e n references))
    (hnew : n.key ∉ b.entries.map (·.node.key) → Q ⟨n.coordinate, n, line, addNew [] references⟩) :
    ∀ e ∈ (b.insert n references line).entries, Q e := by
  by_cases hknown : n.key ∈ b.entries.map (·.node.key)
  · have hany : (b.entries.any fun e => e.node.key == n.key) = true := by
      obtain ⟨e, he, hkey⟩ := List.mem_map.mp hknown
      exact List.any_eq_true.mpr ⟨e, he, beq_iff_eq.mpr hkey⟩
    unfold insert
    rw [hany, if_pos rfl]
    intro e he
    obtain ⟨d, hd, rfl⟩ := List.mem_map.mp he
    split
    · rename_i hkey
      exact hmerged d hd (eq_of_beq hkey)
    · rename_i hkey
      exact hother d hd fun heq => hkey (beq_iff_eq.mpr heq)
  -- nothing to merge into: the entry goes to the end
  · rw [insert_of_new hknown]
    intro e he
    rcases List.mem_append.mp he with he | he
    · refine hother e he fun heq => hknown ?_
      exact List.mem_map.mpr ⟨e, he, heq⟩
    · rw [List.mem_singleton.mp he]
      exact hnew hknown

namespace Holds

theorem empty (path : Option String) : (⟨path, []⟩ : Builder).Holds [] where
  sound := .empty path
  keys := by simp
  references := by simp
  direct := by simp

/-- It does not matter in which order the entries are listed, or how often each. -/
theorem congr (h : b.Holds parts) (hsame : ∀ p, p ∈ parts ↔ p ∈ parts') : b.Holds parts' where
  sound := h.sound
  keys := by simpa only [hsame] using h.keys
  references := by simpa only [hsame] using h.references
  direct := by simpa only [hsame] using h.direct

/-- What some part says of a dependency comes from the parts so far, or from the one that
is added if that is about the same dependency. -/
theorem exists_append (parts : List Part) (p : Part) (key : NodeKey) (P : Part → Prop) :
    (∃ q ∈ parts ++ [p], q.node.key = key ∧ P q) ↔
      (∃ q ∈ parts, q.node.key = key ∧ P q) ∨ p.node.key = key ∧ P p := by
  simp only [List.mem_append, List.mem_singleton, or_and_right, exists_or, exists_eq_left]

/-- **Step.** One more entry is held as well. -/
theorem insert (h : b.Holds parts) (hn : n.IsStated) (references : List String)
    (line : Option Nat) :
    (b.insert n references line).Holds (parts ++ [⟨n, references⟩]) where
  sound := h.sound.insert hn references line
  keys := by
    intro key
    have hparts := exists_append parts ⟨n, references⟩ key fun _ => True
    simp only [and_true] at hparts
    rw [hparts, ← h.keys, keys_insert]
    split
    · rename_i hknown
      -- a known key gets no entry of its own
      refine ⟨Or.inl, ?_⟩
      intro h
      rcases h with hkey | rfl
      · exact hkey
      · exact hknown
    · rw [List.mem_append, List.mem_singleton, eq_comm (a := key)]
  references := by
    refine forall_mem_insert line ?_ ?_ ?_
    · -- an entry with another key is as it was
      intro e he hother r
      rw [exists_append, h.references e he]
      simp [hother.symm]
    · intro e he hsame r
      rw [merge_key hsame, exists_append, mem_merge_references, h.references e he]
      simp [hsame]
    · intro hnew r
      rw [exists_append, mem_addNew]
      -- a new entry has none but those of its own part
      have hnone : ¬ ∃ p ∈ parts, p.node.key = n.key ∧ r ∈ p.references :=
        fun ⟨p, hp, hkey, _⟩ => hnew ((h.keys n.key).mpr ⟨p, hp, hkey⟩)
      simp [hnone]
  direct := by
    refine forall_mem_insert line ?_ ?_ ?_
    · intro e he hother
      rw [exists_append, h.direct e he]
      simp [hother.symm]
    · intro e he hsame
      rw [merge_key hsame, exists_append, merge_direct, Bool.or_eq_true, h.direct e he]
      simp [hsame]
    · intro hnew
      rw [exists_append]
      have hnone : ¬ ∃ p ∈ parts, p.node.key = n.key ∧ p.node.direct = true :=
        fun ⟨p, hp, hkey, _⟩ => hnew ((h.keys n.key).mpr ⟨p, hp, hkey⟩)
      simp [hnone]

end Holds

/-! ## References -/

theorem fits_eq_meets (r : Reference) (e : Entry) : r.fits e = r.meets e.coordinate.key := rfl

/-- How a reference is read depends on the reference alone. -/
theorem readReference_congr {r : Reference} (h : b.readReference line reference = .ok r) :
    c.readReference line' reference = .ok r := by
  unfold readReference fail at h ⊢
  dsimp only at h ⊢
  split at h
  · exact h
  · split at h
    · exact h
    · exact absurd h (by simp)
    · exact absurd h (by simp)
  · exact absurd h (by simp)

namespace Holds

/-- **A reference is resolved to what it means.** -/
theorem resolve_iff (h : b.Holds parts) (reference : String) (line : Option Nat) (key : NodeKey) :
    (∃ c, b.resolve reference line = .ok c ∧ c.key = key) ↔ Means parts reference key := by
  constructor
  · intro h
    obtain ⟨c, hc, rfl⟩ := h
    unfold resolve fail at hc
    obtain ⟨r, hr, hc⟩ := Result.bind_ok.mp hc
    split at hc
    · rename_i e honly
      cases hc
      have he : e ∈ b.entries ∧ r.fits e = true := by
        rw [← List.mem_filter, honly]
        exact List.mem_singleton_self e
      have hkey := h.sound.coordinate e he.1
      refine ⟨?_, r, readReference_congr hr, he.2, ?_⟩
      · rw [hkey, ← h.keys]
        exact List.mem_map.mpr ⟨e, he.1, rfl⟩
      · intro p hp hmeets
        -- the part stands for an entry, and only one entry fits
        obtain ⟨d, hd, hdkey⟩ := List.mem_map.mp ((h.keys p.node.key).mpr ⟨p, hp, rfl⟩)
        have hfits : d ∈ b.entries.filter r.fits := by
          refine List.mem_filter.mpr ⟨hd, ?_⟩
          rw [fits_eq_meets, h.sound.coordinate d hd, hdkey]
          exact hmeets
        rw [honly, List.mem_singleton] at hfits
        rw [← hdkey, hfits, hkey]
    · exact absurd hc (by simp)
    · exact absurd hc (by simp)
  · intro h
    obtain ⟨hknown, r, hr, hmeets, hunique⟩ := h
    obtain ⟨e, he, rfl⟩ := List.mem_map.mp ((h.keys key).mpr hknown)
    -- no other entry fits, since each of them stands for a part
    have honly : b.entries.filter r.fits = [e] := by
      rw [← filter_key_eq h.sound.distinct he]
      refine List.filter_congr fun d hd => ?_
      rw [Bool.eq_iff_iff, fits_eq_meets, h.sound.coordinate d hd, beq_iff_eq]
      constructor
      · intro hd'
        obtain ⟨p, hp, hpkey⟩ := (h.keys d.node.key).mp (List.mem_map.mpr ⟨d, hd, rfl⟩)
        rw [← hpkey]
        exact hunique p hp (by rw [hpkey]; exact hd')
      · intro heq
        rw [heq]
        exact hmeets
    refine ⟨e.coordinate, ?_, h.sound.coordinate e he⟩
    unfold resolve
    rw [readReference_congr hr, Result.ok_bind, honly]
    rfl

/-- The references of all entries are resolved if each of them means something. -/
theorem edges_ok (h : b.Holds parts) :
    (∃ links, b.edges = .ok links) ↔
      ∀ p ∈ parts, ∀ reference ∈ p.references, ∃ key, Means parts reference key := by
  have hentry (e : Entry) : (∃ own, b.entryEdges e = .ok own) ↔
      ∀ r ∈ e.references, ∃ key, Means parts r key := by
    unfold entryEdges
    rw [Result.mapM_ok]
    refine forall₂_congr fun r _ => ?_
    -- a link is made from whatever coordinate the reference is resolved to
    simp only [← h.resolve_iff r e.line, exists_comm (α := NodeKey), exists_and_left,
      exists_eq', and_true]
    constructor
    · intro h
      obtain ⟨_, hlink⟩ := h
      obtain ⟨c, hc, _⟩ := Result.bind_ok.mp hlink
      exact ⟨c, hc⟩
    · intro h
      obtain ⟨c, hc⟩ := h
      exact ⟨_, Result.bind_ok.mpr ⟨c, hc, rfl⟩⟩
  have hedges : (∃ links, b.edges = .ok links) ↔ ∀ e ∈ b.entries, ∃ own, b.entryEdges e = .ok own := by
    rw [← Result.mapM_ok]
    unfold edges
    constructor
    · intro h
      obtain ⟨links, hlinks⟩ := h
      obtain ⟨lists, hlists, _⟩ := Result.bind_ok.mp hlinks
      exact ⟨lists, hlists⟩
    · intro h
      obtain ⟨lists, hlists⟩ := h
      exact ⟨_, Result.bind_ok.mpr ⟨lists, hlists, rfl⟩⟩
  rw [hedges]
  simp only [hentry]
  constructor
  · intro hall p hp r hr
    obtain ⟨e, he, hkey⟩ := List.mem_map.mp ((h.keys p.node.key).mpr ⟨p, hp, rfl⟩)
    exact hall e he r ((h.references e he r).mpr ⟨p, hp, hkey.symm, hr⟩)
  · intro hall e he r hr
    obtain ⟨p, hp, _, hmem⟩ := (h.references e he r).mp hr
    exact hall p hp r hmem

/-- The links are those from a dependency to what it refers to. -/
theorem mem_links (h : b.Holds parts) (hlinks : b.edges = .ok links) (parent child : NodeKey) :
    (parent, child) ∈ links.map (fun e => (e.1.key, e.2.key)) ↔ Refers parts parent child := by
  rw [List.mem_map]
  constructor
  · intro h
    obtain ⟨link, hlink, heq⟩ := h
    obtain ⟨rfl, rfl⟩ := Prod.mk.inj heq
    obtain ⟨e, he, r, hr, hparent, hchild⟩ := (mem_edges hlinks).mp hlink
    obtain ⟨p, hp, hkey, hmem⟩ := (h.references e he r).mp hr
    refine ⟨p, hp, ?_, r, hmem, (h.resolve_iff r e.line _).mp ⟨_, hchild, rfl⟩⟩
    rw [hkey, hparent, h.sound.coordinate e he]
  · intro h
    obtain ⟨p, hp, rfl, r, hr, hmeans⟩ := h
    obtain ⟨e, he, hkey⟩ := List.mem_map.mp ((h.keys p.node.key).mpr ⟨p, hp, rfl⟩)
    obtain ⟨c, hc, rfl⟩ := (h.resolve_iff r e.line child).mpr hmeans
    have hr' := (h.references e he r).mpr ⟨p, hp, hkey.symm, hr⟩
    refine ⟨(e.coordinate, c), (mem_edges hlinks).mpr ⟨e, he, r, hr', rfl, hc⟩, ?_⟩
    rw [h.sound.coordinate e he, hkey]

/-! ## Building -/

/-- A package of the workspace refers to a dependency outside of it. -/
theorem isWanted_iff (h : b.Holds parts) (hlinks : b.edges = .ok links) :
    b.isWanted links n = true ↔
      n.isPath = false ∧ ∃ parent : NodeKey, parent.source = pathSource ∧ Refers parts parent n.key := by
  unfold isWanted
  rw [Bool.and_eq_true, Bool.not_eq_true', List.any_eq_true]
  refine and_congr_right fun _ => ?_
  simp only [← h.mem_links hlinks, List.mem_map, Bool.and_eq_true, beq_iff_eq]
  constructor
  · intro h
    obtain ⟨link, hlink, hpath, hchild⟩ := h
    -- a parent lies in the workspace by its own source, which its key tells
    rw [isPath_of_mem (h.sound.ends hlinks link hlink).1, beq_iff_eq] at hpath
    exact ⟨link.1.key, hpath, link, hlink, by rw [hchild]⟩
  · intro h
    obtain ⟨parent, hpath, link, hlink, heq⟩ := h
    obtain ⟨rfl, hchild⟩ := Prod.mk.inj heq
    refine ⟨link, hlink, ?_, hchild⟩
    rw [isPath_of_mem (h.sound.ends hlinks link hlink).1, hpath]
    exact beq_self_eq_true _

theorem finished_direct (b : Builder) (links : List (Coordinate × Coordinate)) (e : Entry) :
    (b.finished links e).direct = (e.node.direct || b.isWanted links e.node) := by
  unfold finished
  cases b.isWanted links e.node <;> simp

/-- Once the references are resolved a graph is built from them. -/
theorem build_of_edges (h : b.Holds parts) (hlinks : b.edges = .ok links) :
    ∃ g, b.build = .ok g ∧ g.nodes = Graph.sortNodes (b.entries.map (b.finished links)) ∧
      g.links = links.map fun e => (e.1.key, e.2.key) := by
  have hkeys := keys_finished b links
  obtain ⟨g, hg, hnodes, hgraph⟩ := Graph.of_ok (by rw [hkeys]; exact h.sound.distinct)
    (by rw [hkeys]; exact h.sound.ends hlinks)
  refine ⟨g, ?_, hnodes, hgraph⟩
  rw [build_eq, hlinks, Result.ok_bind, hg]
  rfl

/-- **When a graph is built**: every reference means something. -/
theorem build_ok (h : b.Holds parts) :
    (∃ g, b.build = .ok g) ↔
      ∀ p ∈ parts, ∀ reference ∈ p.references, ∃ key, Means parts reference key := by
  rw [← h.edges_ok]
  constructor
  · intro h
    obtain ⟨g, hg⟩ := h
    rw [build_eq] at hg
    obtain ⟨links, hlinks, _⟩ := Result.bind_ok.mp hg
    exact ⟨links, hlinks⟩
  · intro h
    obtain ⟨links, hlinks⟩ := h
    obtain ⟨g, hg, _⟩ := h.build_of_edges hlinks
    exact ⟨g, hg⟩

/-- **Which graph is built**: the one that the entries make. -/
theorem build_built (h : b.Holds parts) (hg : b.build = .ok g) : Built parts g := by
  have hedges := hg
  rw [build_eq] at hedges
  obtain ⟨links, hlinks, _⟩ := Result.bind_ok.mp hedges
  obtain ⟨g', hg', hnodes, hgraph⟩ := h.build_of_edges hlinks
  obtain rfl : g = g' := Except.ok.inj (hg.symm.trans hg')
  -- sorting does not matter for what is in the graph
  have hperm : g.nodes.Perm (b.entries.map (b.finished links)) := by
    rw [hnodes]
    exact Graph.sortNodes_perm _
  refine ⟨?_, ?_, ?_⟩
  · intro key
    rw [(hperm.map _).mem_iff, keys_finished, h.keys]
  · intro parent child
    rw [hgraph]
    exact h.mem_links hlinks parent child
  · intro n hn
    obtain ⟨e, he, rfl⟩ := List.mem_map.mp (hperm.mem_iff.mp hn)
    have hkey := finished_key b links e
    have hpath : (b.finished links e).isPath = e.node.isPath :=
      congrArg (fun key : NodeKey => key.source == pathSource) hkey
    rw [finished_direct, Bool.or_eq_true, h.direct e he, h.isWanted_iff hlinks, hkey, hpath]

end Holds

end Builder

/-! ## Graphs that are alike -/

/-- The links of a graph, by what the dependencies at their ends are. -/
def Graph.edgeKeys (g : Graph) : List (NodeKey × NodeKey) :=
  g.edges.map fun e => (e.1.key, e.2.key)

theorem Graph.mem_edgeKeys {g : Graph} {parent child : NodeKey} :
    (parent, child) ∈ g.edgeKeys ↔ (parent, child) ∈ g.links := by
  unfold edgeKeys edges
  simp only [List.mem_map, List.mem_flatMap]
  constructor
  · intro h
    obtain ⟨_, ⟨n, _, c, hc, rfl⟩, heq⟩ := h
    rw [← heq]
    exact (mem_children.mp hc).2
  · intro hlink
    obtain ⟨hparent, hchild⟩ := g.joined _ hlink
    obtain ⟨n, hn, rfl⟩ := List.mem_map.mp hparent
    obtain ⟨c, hc, rfl⟩ := List.mem_map.mp hchild
    exact ⟨_, ⟨n, hn, c, mem_children.mpr ⟨hc, hlink⟩, rfl⟩, rfl⟩

/-- The graphs have the same dependencies, the same links, and the same dependencies are
direct in both. Versions may be written differently. -/
structure Graph.IsAlike (g h : Graph) : Prop where
  keys : ∀ key, key ∈ g.nodes.map (·.key) ↔ key ∈ h.nodes.map (·.key)
  edges : ∀ e, e ∈ g.edgeKeys ↔ e ∈ h.edgeKeys
  direct : ∀ n ∈ g.nodes, ∀ m ∈ h.nodes, n.key = m.key → n.direct = m.direct

/-- Both give a graph or neither does, and two graphs are alike. -/
structure EndAlike (x y : Except Failure Graph) : Prop where
  succeeds : (∃ g, x = .ok g) ↔ ∃ h, y = .ok h
  graphs : ∀ g h, x = .ok g → y = .ok h → g.IsAlike h

/-- The same entries make graphs that are alike. -/
theorem Built.isAlike {parts : List Part} {g h : Graph} (hg : Built parts g)
    (hh : Built parts h) : g.IsAlike h where
  keys key := (hg.keys key).trans (hh.keys key).symm
  edges := by
    intro h
    obtain ⟨parent, child⟩ := h
    rw [Graph.mem_edgeKeys, Graph.mem_edgeKeys, hg.links, hh.links]
  direct := by
    intro n hn m hm hkey
    have hpath : n.isPath = m.isPath :=
      congrArg (fun key : NodeKey => key.source == pathSource) hkey
    rw [Bool.eq_iff_iff, hg.direct n hn, hh.direct m hm, hkey, hpath]

/-- **Builders that hold the same entries end alike**, however often and in whichever order
each was given them. -/
theorem Builder.Holds.endAlike {b c : Builder} {parts parts' : List Part} (h : b.Holds parts)
    (h' : c.Holds parts') (hsame : ∀ p, p ∈ parts ↔ p ∈ parts') : EndAlike b.build c.build where
  succeeds := (h.congr hsame).build_ok.trans h'.build_ok.symm
  graphs _ _ hg hh := ((h.congr hsame).build_built hg).isAlike (h'.build_built hh)

end LockAudit.Lockfile
