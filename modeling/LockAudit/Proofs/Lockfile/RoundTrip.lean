import LockAudit.Proofs.Lockfile.Listing
import LockAudit.Proofs.Version.Text

/-!
# Writing a graph and reading it back

A graph is written as a list of entries that refer to each other in full, by name,
version and source. Read back, every entry states a dependency as it was: name, version
and source are in the form in which they are stored. And every reference is cut at the
right places and means one entry: the name is a word, the version has no blank in it, so
the first bracket after a blank opens the source, whatever the source contains.

What a dependency depends on is a set, and in which order a set is gone through is left
open. `Graph.dumpBy` takes that order as an argument; sorting hides it as long as no two
dependencies are of one rank.
-/

namespace LockAudit.Lockfile

/-! ## References -/

section References

variable {c : Coordinate} {b : Builder} {line : Option Nat}

theorem coordinate_toList (c : Coordinate) :
    c.text.toList = c.name.toList ++ ' ' :: (c.version.text.toList ++
      ' ' :: '(' :: (c.source.toList ++ [')'])) := by
  unfold Coordinate.text
  simp only [String.toList_append, List.append_assoc]
  rfl

/-- A reference in full is cut before the bracket that opens its source. -/
theorem splitSource_text (hname : Text.IsWord c.name.toList) (hversion : c.version.IsWritten) :
    Builder.splitSource (Text.stripList c.text.toList) =
      (c.name.toList ++ ' ' :: c.version.text.toList, some c.source.toList) := by
  have hlast : c.text.toList.getLast? = some ')' := by
    have hshape : c.text.toList = (c.name.toList ++ ' ' :: (c.version.text.toList ++
        ' ' :: '(' :: c.source.toList)) ++ [')'] := by
      rw [coordinate_toList]
      simp only [List.append_assoc, List.cons_append]
    rw [hshape, List.getLast?_concat]
  have htrim : Text.IsTrimmed c.text.toList := by
    refine ⟨fun d hd => ?_, fun d hd => ?_⟩
    · rw [coordinate_toList, List.head?_append_of_ne_nil _ hname.1] at hd
      exact hname.isTrimmed.first d hd
    · rw [hlast] at hd
      obtain rfl := Option.some.inj hd
      decide
  have hblank {cs : List Char} (h : Text.IsWord cs) : ' ' ∉ cs := by
    intro hmem
    have := h.2 ' ' hmem
    exact absurd this (by decide)
  -- the version stands right after the name, and it starts with a digit
  have hhead : (c.version.text.toList ++ ' ' :: '(' :: (c.source.toList ++ [')'])).head? ≠
      some '(' := by
    intro hbracket
    have hdigit := Version.head?_text c.version _ '(' hbracket
    exact absurd hdigit (by decide)
  unfold Builder.splitSource
  rw [htrim.stripList_eq, if_pos hlast, coordinate_toList,
    Text.splitFirst?_append (hblank hname), Text.splitFirst?_blank hhead,
    Text.splitFirst?_append (hblank (Version.text_isWord hversion)), Text.splitFirst?_bracket]
  simp

/-- **A reference in full is read as what it was written for.** -/
theorem readReference_text (hword : Text.IsWord c.name.toList) (hversion : c.version.IsWritten)
    (hname : Text.lower c.name = c.name) :
    b.readReference line c.text =
      .ok ⟨c.name, some c.version.toPrecedence, some c.source⟩ := by
  have hwords : Text.words (String.ofList (c.name.toList ++ ' ' :: c.version.text.toList)) =
      [c.name, c.version.text] := by
    rw [Text.words_pair hword (Version.text_isWord hversion), String.ofList_toList,
      String.ofList_toList]
  unfold Builder.readReference
  rw [splitSource_text hword hversion]
  dsimp only
  rw [hwords]
  dsimp only
  rw [Version.parse_text hversion]
  dsimp only
  rw [hname, Option.map_some, String.ofList_toList]
  rfl

end References

/-- A name that is stored as names are is in lower case. -/
theorem lower_of_normalize {name : String} (h : PackageName.normalize name = name) :
    Text.lower name = name := by
  have hlower : Text.lower (PackageName.normalize name) = PackageName.normalize name :=
    Text.lower_lower (Text.strip name)
  rwa [h] at hlower

/-- A reference in full may mean the entry with its key. -/
theorem fits_iff {c : Coordinate} {e : Entry} :
    Builder.Reference.fits ⟨c.name, some c.version.toPrecedence, some c.source⟩ e = true ↔
      e.coordinate.key = c.key := by
  unfold Builder.Reference.fits Coordinate.key
  rw [Option.all_some, Option.all_some, Bool.and_eq_true, Bool.and_eq_true, beq_iff_eq,
    beq_iff_eq, beq_iff_eq, NodeKey.mk.injEq, and_assoc]

/-! ## The entries of a written graph -/

/-- The builder holds exactly the given dependencies, each with its references. -/
structure Builder.Reads (b : Builder) (references : Node → List String) (nodes : List Node) :
    Prop where
  nodes : b.entries.map (·.node) = nodes
  coordinate : ∀ e ∈ b.entries, e.coordinate = e.node.coordinate
  references : ∀ e ∈ b.entries, ∀ r, r ∈ e.references ↔ r ∈ references e.node

namespace Builder.Reads

variable {b : Builder} {references : Node → List String} {nodes : List Node} {n : Node}

theorem keys (h : b.Reads references nodes) :
    b.entries.map (·.node.key) = nodes.map (·.key) := by
  rw [← h.nodes, List.map_map]
  rfl

theorem empty (path : Option String) (references : Node → List String) :
    (⟨path, []⟩ : Builder).Reads references [] where
  nodes := rfl
  coordinate := by simp
  references := by simp

/-- **Step.** A new dependency is put behind the others. -/
theorem insert (h : b.Reads references nodes) (hnew : n.key ∉ nodes.map (·.key))
    (line : Option Nat) :
    (b.insert n (references n) line).Reads references (nodes ++ [n]) := by
  have hentries : (b.insert n (references n) line).entries =
      b.entries ++ [⟨n.coordinate, n, line, addNew [] (references n)⟩] :=
    Builder.insert_of_new (by rw [h.keys]; exact hnew)
  refine ⟨?_, ?_, ?_⟩
  · rw [hentries, List.map_append, h.nodes]
    rfl
  · intro e he
    rw [hentries, List.mem_append, List.mem_singleton] at he
    rcases he with he | rfl
    · exact h.coordinate e he
    · rfl
  · intro e he r
    rw [hentries, List.mem_append, List.mem_singleton] at he
    rcases he with he | rfl
    · exact h.references e he r
    · rw [mem_addNew]
      simp

/-- Each of the dependencies is found by its reference. -/
theorem resolve_text (h : b.Reads references nodes) (hdistinct : (nodes.map (·.key)).Nodup)
    (hn : n ∈ nodes) (hstated : n.IsStated) (hword : Text.IsWord n.name.toList)
    (line : Option Nat) :
    b.resolve n.coordinate.text line = .ok n.coordinate := by
  have hread : b.readReference line n.coordinate.text = .ok ⟨n.coordinate.name,
      some n.coordinate.version.toPrecedence, some n.coordinate.source⟩ :=
    readReference_text hword hstated.version (lower_of_normalize hstated.name)
  rw [← h.nodes] at hn
  obtain ⟨e, he, heq⟩ := List.mem_map.mp hn
  have hfits : b.entries.filter (Builder.Reference.fits ⟨n.coordinate.name,
      some n.coordinate.version.toPrecedence, some n.coordinate.source⟩) = [e] := by
    rw [← filter_key_eq (by rw [h.keys]; exact hdistinct) he]
    refine List.filter_congr fun d hd => ?_
    rw [Bool.eq_iff_iff, fits_iff, h.coordinate d hd, beq_iff_eq, heq]
    exact Iff.rfl
  unfold Builder.resolve
  rw [hread, Result.ok_bind, hfits]
  have hcoordinate := h.coordinate e he
  rw [heq] at hcoordinate
  exact congrArg Except.ok hcoordinate

end Builder.Reads

/-! ## Building the graph again -/

/-- What something depends on in a locked graph can be referred to. -/
theorem Graph.IsLocked.isWord {g : Graph} (h : g.IsLocked) {n c : Node} (hc : c ∈ g.children n) :
    Text.IsWord c.name.toList :=
  h.word (n.key, c.key) (Graph.mem_children.mp hc).2

namespace Builder.Reads

variable {b : Builder} {references : Node → List String} {g : Graph}

/-- **The references of the entries make the links that the graph had.** -/
theorem edges_ok (h : b.Reads references g.nodes) (hg : g.IsLocked)
    (hrefs : ∀ n r, r ∈ references n ↔ ∃ c ∈ g.children n, r = c.coordinate.text) :
    ∃ links, b.edges = .ok links ∧ ∀ link, link ∈ links ↔
      ∃ n ∈ g.nodes, ∃ c ∈ g.children n, link = (n.coordinate, c.coordinate) := by
  -- a coordinate's own text finds its node, as nodes have distinct coordinates without blanks
  have hresolve {n c : Node} (hc : c ∈ g.children n) (line : Option Nat) :
      b.resolve c.coordinate.text line = .ok c.coordinate := by
    have hmem := (Graph.mem_children.mp hc).1
    exact h.resolve_text g.distinct hmem (hg.stated c hmem) (hg.isWord hc) line
  -- so no reference of any entry is refused
  have hown : ∀ e ∈ b.entries, ∃ own, b.entryEdges e = .ok own := by
    intro e he
    refine Result.mapM_ok.mpr fun r hr => ?_
    obtain ⟨c, hc, rfl⟩ := (hrefs e.node r).mp ((h.references e he r).mp hr)
    exact ⟨_, by rw [hresolve hc]; rfl⟩
  obtain ⟨lists, hlists⟩ := Result.mapM_ok.mpr hown
  have hedges : b.edges = .ok lists.flatten := by
    unfold Builder.edges
    rw [hlists]
    rfl
  refine ⟨lists.flatten, hedges, fun link => ?_⟩
  rw [Builder.mem_edges hedges]
  constructor
  · rintro ⟨e, he, r, hr, hparent, hchild⟩
    obtain ⟨c, hc, rfl⟩ := (hrefs e.node r).mp ((h.references e he r).mp hr)
    rw [hresolve hc] at hchild
    have hnode : e.node ∈ g.nodes := by
      rw [← h.nodes]
      exact List.mem_map.mpr ⟨e, he, rfl⟩
    refine ⟨e.node, hnode, c, hc, ?_⟩
    rw [Except.ok.inj hchild, ← h.coordinate e he, ← hparent]
  · rintro ⟨n, hn, c, hc, rfl⟩
    rw [← h.nodes] at hn
    obtain ⟨e, he, rfl⟩ := List.mem_map.mp hn
    refine ⟨e, he, c.coordinate.text, ?_, (h.coordinate e he).symm, hresolve hc e.line⟩
    rw [h.references e he, hrefs]
    exact ⟨c, hc, rfl⟩

/-- No dependency becomes direct that was not. -/
theorem finished_eq (h : b.Reads references g.nodes) (hg : g.IsLocked)
    {links : List (Coordinate × Coordinate)}
    (hlinks : ∀ link ∈ links,
      ∃ n ∈ g.nodes, ∃ c ∈ g.children n, link = (n.coordinate, c.coordinate))
    {e : Entry} (he : e ∈ b.entries) :
    b.finished links e = e.node := by
  have hnode : e.node ∈ g.nodes := by
    rw [← h.nodes]
    exact List.mem_map.mpr ⟨e, he, rfl⟩
  unfold Builder.finished
  split
  · rename_i hwanted
    unfold Builder.isWanted at hwanted
    rw [Bool.and_eq_true, Bool.not_eq_true', List.any_eq_true] at hwanted
    obtain ⟨houtside, link, hlink, hends⟩ := hwanted
    rw [Bool.and_eq_true, beq_iff_eq] at hends
    obtain ⟨hmember, hchild⟩ := hends
    obtain ⟨n, hn, c, hc, rfl⟩ := hlinks link hlink
    have hpath : n.isPath = true := by
      rw [Builder.isPath_of_mem] at hmember
      · exact hmember
      · rw [h.keys]
        exact List.mem_map.mpr ⟨n, hn, rfl⟩
    have hlinked : (n.key, e.node.key) ∈ g.links := by
      have hkey : c.key = e.node.key := hchild
      rw [← hkey]
      exact (Graph.mem_children.mp hc).2
    -- a child of a path node, itself of no path, is direct already in the graph written
    have hdirect := hg.direct n hn e.node hnode hlinked hpath houtside
    rw [← hdirect]
  · rfl

/-- **Building gives a graph that agrees with the one that was written.** -/
theorem build_agrees (h : b.Reads references g.nodes) (hg : g.IsLocked)
    (hrefs : ∀ n r, r ∈ references n ↔ ∃ c ∈ g.children n, r = c.coordinate.text) :
    ∃ g', b.build = .ok g' ∧ g'.Agrees g := by
  obtain ⟨links, hedges, hlinks⟩ := h.edges_ok hg hrefs
  -- no entry is made direct by the building: the graph's nodes are direct where they should be
  have hnodes : b.entries.map (b.finished links) = g.nodes := by
    rw [← h.nodes]
    exact List.map_congr_left fun e he =>
      h.finished_eq hg (fun link hlink => (hlinks link).mp hlink) he
  have hends : ∀ e ∈ links, e.1.key ∈ g.nodes.map (·.key) ∧ e.2.key ∈ g.nodes.map (·.key) := by
    intro link hlink
    obtain ⟨n, hn, c, hc, rfl⟩ := (hlinks link).mp hlink
    exact ⟨List.mem_map.mpr ⟨n, hn, rfl⟩,
      List.mem_map.mpr ⟨c, (Graph.mem_children.mp hc).1, rfl⟩⟩
  obtain ⟨g', hg', hsorted, hgraph⟩ := Graph.of_ok g.distinct hends
  have hbuild : b.build = .ok g' := by
    rw [Builder.build_eq, hedges, Result.ok_bind, hnodes, hg']
    rfl
  refine ⟨g', hbuild, ?_, fun e => ?_⟩
  · rw [hsorted, Graph.sortNodes_of_pairwise hg.sorted]
  · rw [hgraph, List.mem_map]
    constructor
    · rintro ⟨link, hlink, rfl⟩
      obtain ⟨n, _, c, hc, rfl⟩ := (hlinks link).mp hlink
      exact (Graph.mem_children.mp hc).2
    · intro he
      -- both ends of a link are nodes, so it is the link of a node and one of its children
      obtain ⟨hparent, hchild⟩ := g.joined e he
      obtain ⟨n, hn, hnkey⟩ := List.mem_map.mp hparent
      obtain ⟨c, hc, hckey⟩ := List.mem_map.mp hchild
      have heq : (n.key, c.key) = e := Prod.ext hnkey hckey
      refine ⟨(n.coordinate, c.coordinate), (hlinks _).mpr ⟨n, hn, c, ?_, rfl⟩, heq⟩
      rw [Graph.mem_children, heq]
      exact ⟨hc, he⟩

end Builder.Reads

/-! ## The text of a graph -/

/-- The fields of the entry for a dependency that refers to others in this order. -/
def Node.entryFields (n : Node) (children : List Node) : List (String × Value) := [
  ("name", .text n.name),
  ("version", .text n.version.text),
  ("source", .text n.source),
  ("direct", .bool n.direct),
  ("dependencies", .list (children.map fun child => .text child.coordinate.text))]

namespace Graph

/-- The fields of the document of a graph, if what a dependency depends on is gone
through in some order before it is sorted. -/
def documentFields (g : Graph) (order : Node → List Node) : List (String × Value) := [
  ("version", .int 1),
  ("packages", .list (g.nodes.map fun n => .table (n.entryFields (sortNodes (order n)))))]

/-- The text of a graph, written in that order. -/
def dumpBy (g : Graph) (order : Node → List Node) : String :=
  String.ofList (Json.encode Json.Style.lockfile (.table (g.documentFields order)) ++ ['\n'])

/-- An order in which the children of every dependency can be gone through. -/
def IsOrder (g : Graph) (order : Node → List Node) : Prop := ∀ n, (order n).Perm (g.children n)

variable {g h : Graph} {order order' : Node → List Node}

/-- The text of a graph is the one for the children as they come. -/
theorem dumpBy_children (hsorted : g.nodes.Pairwise fun a b => (a.order b).isLE = true) :
    g.dumpBy g.children = g.dump := by
  have hchildren (n : Node) : sortNodes (g.children n) = g.children n :=
    sortNodes_of_pairwise (hsorted.sublist List.filter_sublist)
  unfold dumpBy documentFields dump document
  simp only [hchildren]
  rfl

/-- Graphs that agree have the same text, whatever the orders, if the dependencies are
separated. -/
theorem Agrees.dumpBy (a : g.Agrees h) (hseparated : Separated h.nodes) (ho : g.IsOrder order)
    (ho' : h.IsOrder order') :
    g.dumpBy order = h.dumpBy order' := by
  have horder (n : Node) : sortNodes (order n) = sortNodes (order' n) := by
    have hchildren : Separated (h.children n) := (List.filter_sublist.map _).nodup hseparated
    have hperm := ho n
    rw [a.children n] at hperm
    rw [sortNodes_eq_of_perm hchildren hperm, sortNodes_eq_of_perm hchildren (ho' n)]
  unfold Graph.dumpBy documentFields
  rw [a.nodes]
  simp only [horder]

theorem names_entryFields (n : Node) (children : List Node) :
    ((n.entryFields children).map (·.1)).Nodup := by
  simp [Node.entryFields]

theorem isPlain_entryFields (n : Node) (children : List Node) :
    Json.IsPlain (.table (n.entryFields children)) := by
  refine .table (names_entryFields n children) ?_
  unfold Node.entryFields
  simp only [List.forall_mem_cons]
  refine ⟨.text _, .text _, .text _, .bool _, .list fun v hv => ?_, by simp⟩
  obtain ⟨child, _, rfl⟩ := List.mem_map.mp hv
  exact .text _

theorem names_documentFields (g : Graph) (order : Node → List Node) :
    ((g.documentFields order).map (·.1)).Nodup := by
  simp [documentFields]

theorem isPlain_document (g : Graph) (order : Node → List Node) :
    Json.IsPlain (.table (g.documentFields order)) := by
  refine .table (g.names_documentFields order) ?_
  unfold documentFields
  simp only [List.forall_mem_cons]
  refine ⟨.int (by decide +kernel), .list fun v hv => ?_, by simp⟩
  obtain ⟨n, _, rfl⟩ := List.mem_map.mp hv
  exact isPlain_entryFields n _

end Graph

/-! ## Reading the text -/

theorem texts?_map (ss : List String) : (Value.list (ss.map .text)).texts? = some ss := by
  have hall : (ss.map Value.text).mapM Value.text? = some ss := by
    induction ss with
    | nil => rfl
    | cons s ss ih =>
        rw [List.map_cons, List.mapM_cons, ih]
        rfl
  exact hall

/-- **The entry of a dependency inserts the dependency as it was.** -/
theorem Object.addEntry_entry {b : Builder} {n : Node} (hn : n.IsStated) (children : List Node)
    (index : Nat) (line : Option Nat) :
    Object.addEntry b index (Json.sortKeys (.table (n.entryFields children))) line =
      .ok (b.insert n (children.map (·.coordinate.text)) line) := by
  obtain ⟨sorted, htable, _, _, hlookup⟩ :=
    Json.sortKeys_table (Graph.names_entryFields n children)
  -- each field has its value, wherever sorting has put it
  have hname : Value.field "name" sorted = .text n.name := by
    unfold Value.field
    rw [hlookup]
    simp [Node.entryFields, Value.lookup?, Json.sortKeys]
  have hversion : Value.field "version" sorted = .text n.version.text := by
    unfold Value.field
    rw [hlookup]
    simp [Node.entryFields, Value.lookup?, Json.sortKeys]
  have hsource : Value.field "source" sorted = .text n.source := by
    unfold Value.field
    rw [hlookup]
    simp [Node.entryFields, Value.lookup?, Json.sortKeys]
  have hdirect : Value.lookup? "direct" sorted = some (.bool n.direct) := by
    rw [hlookup]
    simp [Node.entryFields, Value.lookup?, Json.sortKeys]
  have hdependencies : Value.lookup? "dependencies" sorted =
      some (.list ((children.map (·.coordinate.text)).map .text)) := by
    rw [hlookup]
    simp [Node.entryFields, Value.lookup?, Json.sortKeys, Json.sortItems_eq]
  -- what the fields state is the node again
  have hnode : Node.of n.name n.version n.source n.direct = .ok n := by
    unfold Node.of
    rw [hn.named, hn.name]
    rfl
  have hread : b.readNode n.name n.version.text (some n.source) n.direct line = .ok n := by
    unfold Builder.readNode
    rw [Version.parse_text hn.version]
    dsimp only
    rw [hn.source, if_neg (by simp), hnode]
  -- so none of the checks of an entry refuses it
  rw [htable]
  unfold Object.addEntry Builder.readSource Object.readDirect Builder.readReferences
  dsimp only
  rw [hname]
  dsimp only
  rw [hn.named, if_neg (by simp), hversion, hsource, hdirect, hdependencies]
  dsimp only
  rw [texts?_map]
  unfold Builder.add
  simp only [Result.ok_bind, hread, Result.pure_eq]

/-- **Run.** The entries of some dependencies insert them one after the other. -/
theorem Object.addEntries_entries (children : Node → List Node) (more : List Node) :
    ∀ (b : Builder) (nodes : List Node) (index : Nat) (lines : List Nat),
      b.Reads (fun n => (children n).map (·.coordinate.text)) nodes →
      ((nodes ++ more).map (·.key)).Nodup → (∀ n ∈ more, n.IsStated) →
      ∃ b', Object.addEntries b index
          (more.map fun n => Json.sortKeys (.table (n.entryFields (children n)))) lines = .ok b' ∧
        b'.Reads (fun n => (children n).map (·.coordinate.text)) (nodes ++ more) := by
  induction more with
  | nil =>
      intro b nodes index lines hreads _ _
      refine ⟨b, by rw [List.map_nil, Object.addEntries], ?_⟩
      rw [List.append_nil]
      exact hreads
  | cons n more ih =>
      intro b nodes index lines hreads hdistinct hstated
      rw [List.forall_mem_cons] at hstated
      obtain ⟨hn, hmore⟩ := hstated
      -- the node moves from those to come to those done
      have hnext : (((nodes ++ [n]) ++ more).map (·.key)).Nodup := by
        rw [List.append_assoc]
        exact hdistinct
      obtain ⟨b', hb', hreads'⟩ := ih _ (nodes ++ [n]) (index + 1) lines.tail
        (hreads.insert (Graph.key_not_mem hdistinct) lines.head?) hnext hmore
      refine ⟨b', ?_, ?_⟩
      · rw [List.map_cons, Object.addEntries_cons, Object.addEntry_entry hn, Result.ok_bind]
        exact hb'
      · rwa [List.append_assoc] at hreads'

/-- **The text of a locked graph is read back as a graph that agrees with it.** -/
theorem Format.parse_dumpBy {g : Graph} (hg : g.IsLocked) {order : Node → List Node}
    (horder : g.IsOrder order) (path : Option String) :
    ∃ g', Format.json.parse (Text.Utf8.encode (g.dumpBy order).toList) path = .ok g' ∧
      g'.Agrees g := by
  -- the text is read back as the document it was written from, keys sorted
  have hdecode : Json.decode (g.dumpBy order).toList =
      .ok (Json.sortKeys (.table (g.documentFields order))) := by
    unfold Graph.dumpBy
    rw [String.toList_ofList]
    exact Json.decode_encode (g.isPlain_document order) Json.Style.lockfile
      (by intro c hc; rw [List.mem_singleton.mp hc]; rfl)
  obtain ⟨sorted, htable, _, _, hlookup⟩ := Json.sortKeys_table (g.names_documentFields order)
  have hpackages : Value.field "packages" sorted = .list (g.nodes.map fun n =>
      Json.sortKeys (.table (n.entryFields (Graph.sortNodes (order n))))) := by
    unfold Value.field
    rw [hlookup]
    simp [Graph.documentFields, Value.lookup?, Json.sortKeys, Json.sortItems_eq]
  -- its entries are those of the nodes, so the builder ends with the graph's nodes
  obtain ⟨b, hb, hreads⟩ := Object.addEntries_entries (fun n => Graph.sortNodes (order n)) g.nodes
    ⟨path, []⟩ [] 0 (Object.entryLines (g.dumpBy order).toList) (.empty path _)
    (by rw [List.nil_append]; exact g.distinct) hg.stated
  rw [List.nil_append] at hreads
  -- what an entry refers to is its children, in whatever order they were given
  have hrefs : ∀ n r, r ∈ (Graph.sortNodes (order n)).map (·.coordinate.text) ↔
      ∃ c ∈ g.children n, r = c.coordinate.text := by
    intro n r
    have hsame := (Graph.sortNodes_perm (order n)).trans (horder n)
    rw [List.mem_map]
    refine exists_congr fun c => ?_
    rw [hsame.mem_iff, eq_comm]
  obtain ⟨g', hg', hagrees⟩ := hreads.build_agrees hg hrefs
  refine ⟨g', ?_, hagrees⟩
  unfold Format.parse
  rw [Text.Utf8.decode_encode]
  dsimp only
  unfold Object.parseText
  rw [hdecode, htable]
  dsimp only
  rw [hpackages]
  dsimp only
  rw [hb, Result.ok_bind, hg']

/--
**Every graph of a lock file survives being written and read back.**

The text is accepted, and the graph that it gives has the same dependencies in the same
order, with their versions in full and their direct flags, and the same links. If no two
dependencies are of one rank, that graph has the same text again. All of this holds in
whichever order the children of a dependency are gone through before they are sorted;
`dump` is the text for the order in which the graph holds them.
-/
theorem Format.parse_dump {f : Format} {bytes : List UInt8} {path : Option String} {g : Graph}
    (h : f.parse bytes path = .ok g) (path' : Option String) :
    g.dumpBy g.children = g.dump ∧
    ∀ order, g.IsOrder order →
      ∃ g', Format.json.parse (Text.Utf8.encode (g.dumpBy order).toList) path' = .ok g' ∧
        g'.nodes = g.nodes ∧ (∀ e, e ∈ g'.edges ↔ e ∈ g.edges) ∧
        (Separated g.nodes → ∀ order', g'.IsOrder order' → g'.dumpBy order' = g.dumpBy order) := by
  have hlocked := Format.parse_isLocked h
  refine ⟨Graph.dumpBy_children hlocked.sorted, fun order horder => ?_⟩
  obtain ⟨g', hg', hagrees⟩ := Format.parse_dumpBy hlocked horder path'
  refine ⟨g', hg', hagrees.nodes, fun e => by rw [hagrees.edges], ?_⟩
  intro hseparated order' horder'
  exact hagrees.dumpBy hseparated horder' horder

/-- A lock file: a package of the workspace, and one outside with a build identifier. -/
def Cargo.sample : String :=
  "[[package]]\nname = \"App\"\nversion = \"1.0.0\"\ndependencies = [\"lib\"]\n\n" ++
    "[[package]]\nname = \"lib\"\nversion = \"2.0.0+b1\"\nsource = \"registry (x)\"\n"

theorem Format.parse_dump_sample : ∃ g g',
    Format.cargo.parse (Text.Utf8.encode Cargo.sample.toList) none = .ok g ∧
    Format.json.parse (Text.Utf8.encode g.dump.toList) none = .ok g' ∧
    g'.nodes = g.nodes ∧ ∀ e, e ∈ g'.edges ↔ e ∈ g.edges := by
  have hsome : (Format.cargo.parse (Text.Utf8.encode Cargo.sample.toList) none).toOption.isSome =
      true := by decide +kernel
  obtain ⟨g, hg⟩ := Option.isSome_iff_exists.mp hsome
  have hok := Result.ok_of_toOption hg
  obtain ⟨htext, hreads⟩ := Format.parse_dump hok none
  obtain ⟨g', hg', hnodes, hedges, _⟩ := hreads g.children fun n => List.Perm.refl _
  rw [htext] at hg'
  exact ⟨g, g', hok, hg', hnodes, hedges⟩

end LockAudit.Lockfile
