import LockAudit.Json.Encode
import LockAudit.Lockfile.Node

/-!
# Dependency graphs

A graph holds dependencies in canonical order, no two of them the same, and links
between dependencies that it holds; both are part of the type. Its roots are the
packages of the workspace, or where there are none the dependencies that nothing
depends on. `Graph.pathTo` searches breadth first from the roots, so what it finds
is a shortest chain.
-/

namespace LockAudit.Lockfile

/-- The dependencies with one more; it takes the place of one that is the same. -/
def insertNode (nodes : List Node) (n : Node) : List Node :=
  if nodes.any (·.key == n.key) then nodes.map fun m => if m.key == n.key then n else m
  else nodes ++ [n]

/-- What takes the place of another has its key. -/
theorem keys_replace (nodes : List Node) (n : Node) :
    (nodes.map fun m => if m.key == n.key then n else m).map (·.key) = nodes.map (·.key) := by
  rw [List.map_map]
  refine List.map_congr_left fun m _ => ?_
  by_cases h : m.key = n.key <;> simp [h]

/-- Distinct dependencies stay distinct with one more. -/
theorem distinct_insertNode {nodes : List Node} (h : (nodes.map (·.key)).Nodup) (n : Node) :
    ((insertNode nodes n).map (·.key)).Nodup := by
  unfold insertNode
  split
  · rw [keys_replace]; exact h
  · rename_i hn
    rw [List.map_append, List.nodup_append]
    refine ⟨h, by simp, ?_⟩
    intro a ha b hb hab
    obtain ⟨m, hm, rfl⟩ := List.mem_map.1 ha
    rw [List.map_singleton, List.mem_singleton] at hb
    exact hn (List.any_eq_true.2 ⟨m, hm, by simp [hab, hb]⟩)

/-- Distinct dependencies stay distinct with any number more. -/
theorem distinct_foldl_insertNode (more : List Node) {nodes : List Node}
    (h : (nodes.map (·.key)).Nodup) :
    ((more.foldl insertNode nodes).map (·.key)).Nodup := by
  induction more generalizing nodes with
  | nil => exact h
  | cons n more ih => exact ih (distinct_insertNode h n)

/-- Dependencies and links from each to what it depends on. -/
structure Graph where
  nodes : List Node := []
  links : List (NodeKey × NodeKey) := []
  /-- No two dependencies are the same. -/
  distinct : (nodes.map (·.key)).Nodup := by simp
  /-- A dependency stands at both ends of a link. -/
  joined : ∀ e ∈ links, e.1 ∈ nodes.map (·.key) ∧ e.2 ∈ nodes.map (·.key) := by simp
  deriving DecidableEq, Repr

namespace Graph

/-- The end of a link that no dependency stands at. -/
def missingEnd? (nodes : List Node) (edges : List (Coordinate × Coordinate)) :
    Option (Coordinate × Coordinate) :=
  edges.find? fun e => !(nodes.any (·.key == e.1.key) && nodes.any (·.key == e.2.key))

/-- The test for a key finds it exactly if a dependency has it. -/
theorem any_key_iff {nodes : List Node} {key : NodeKey} :
    nodes.any (·.key == key) = true ↔ key ∈ nodes.map (·.key) := by
  simp [List.mem_map]

/-- Without a missing end, a dependency stands at both ends of every link. -/
theorem joined_of_missingEnd {nodes : List Node} {edges : List (Coordinate × Coordinate)}
    (h : missingEnd? nodes edges = none) :
    ∀ e ∈ edges.map fun e => (e.1.key, e.2.key),
      e.1 ∈ nodes.map (·.key) ∧ e.2 ∈ nodes.map (·.key) := by
  intro e he
  obtain ⟨c, hc, rfl⟩ := List.mem_map.1 he
  have hends := List.find?_eq_none.1 h c hc
  rw [Bool.not_eq_true, Bool.not_eq_false', Bool.and_eq_true, any_key_iff, any_key_iff] at hends
  exact hends

/-- Dependencies in canonical order; of equal rank they keep their order. -/
def sortNodes (nodes : List Node) : List Node := nodes.mergeSort fun a b => (a.order b).isLE

/-- Sorting keeps the dependencies. -/
theorem keys_sortNodes (nodes : List Node) :
    ((sortNodes nodes).map (·.key)).Perm (nodes.map (·.key)) :=
  (List.mergeSort_perm nodes _).map _

/-- The graph with the given dependencies and links; of two that are the same the
later one counts. -/
def of (nodes : List Node) (edges : List (Coordinate × Coordinate)) : Except ValueDefect Graph :=
  let known := nodes.foldl insertNode []
  match h : missingEnd? known edges with
  | some (parent, child) => .error (.unknownEdge parent.shown child.shown)
  | none =>
    .ok {
      nodes := sortNodes known
      links := edges.map fun e => (e.1.key, e.2.key)
      distinct := (keys_sortNodes known).nodup_iff.2 (distinct_foldl_insertNode nodes (by simp))
      joined := fun e he =>
        have ends := joined_of_missingEnd h e he
        ⟨(keys_sortNodes known).mem_iff.2 ends.1, (keys_sortNodes known).mem_iff.2 ends.2⟩ }

/-- The dependency with a key. -/
def get? (g : Graph) (key : NodeKey) : Option Node := g.nodes.find? (·.key == key)

/-- The graph holds a dependency with this key. -/
def contains (g : Graph) (key : NodeKey) : Bool := g.nodes.any (·.key == key)

/-- One dependency links to another. -/
def hasLink (g : Graph) (parent child : NodeKey) : Bool := g.links.contains (parent, child)

/-- What a dependency depends on. -/
def children (g : Graph) (n : Node) : List Node := g.nodes.filter fun m => g.hasLink n.key m.key

/-- What depends on a dependency. -/
def dependents (g : Graph) (n : Node) : List Node := g.nodes.filter fun m => g.hasLink m.key n.key

/-- All links, in the order of their parents and then of their children. -/
def edges (g : Graph) : List (Coordinate × Coordinate) :=
  g.nodes.flatMap fun parent => (g.children parent).map fun child =>
    (parent.coordinate, child.coordinate)

/-- Something depends on the dependency. -/
def hasParent (g : Graph) (n : Node) : Bool := g.links.any (·.2 == n.key)

/-- The packages of the workspace; without any, what nothing depends on. -/
def roots (g : Graph) : List Node :=
  let members := g.nodes.filter (·.isPath)
  if members.isEmpty then g.nodes.filter (!g.hasParent ·) else members

/-- The chain at the front of the queue, if it ends at the key looked for, or the
first found among the chains behind it and its continuations. Chains are kept in
reverse, and no dependency is reached twice. The first argument bounds the number
of chains; that of the dependencies is enough. -/
def search (g : Graph) (goal : NodeKey) :
    Nat → List (List Node) → List NodeKey → Option (List Node)
  | 0, _, _ => none
  | _, [], _ => none
  | _, [] :: _, _ => none
  | fuel + 1, (current :: before) :: queue, seen =>
    if current.key = goal then some (current :: before).reverse
    else
      let next := (g.children current).filter fun n => !seen.contains n.key
      search g goal fuel (queue ++ next.map fun n => n :: current :: before)
        (seen ++ next.map (·.key))

/-- A shortest chain from a root to a dependency; the dependency alone if no root
leads to it. -/
def pathTo (g : Graph) (n : Node) : List Node :=
  if g.contains n.key then
    let roots := g.roots
    (search g n.key g.nodes.length (roots.map fun r => [r]) (roots.map (·.key))).getD [n]
  else [n]

/-- One dependency as an entry of a lock file. -/
def entry (g : Graph) (n : Node) : Value :=
  .table [
    ("name", .text n.name),
    ("version", .text n.version.text),
    ("source", .text n.source),
    ("direct", .bool n.direct),
    ("dependencies", .list ((g.children n).map fun child => .text child.coordinate.text))]

/-- The graph as the document of a lock file. -/
def document (g : Graph) : Value :=
  .table [("version", .int 1), ("packages", .list (g.nodes.map g.entry))]

/-- The graph as the text of a lock file. -/
def dump (g : Graph) : String :=
  String.ofList (Json.encode Json.Style.lockfile g.document ++ ['\n'])

end Graph

end LockAudit.Lockfile
