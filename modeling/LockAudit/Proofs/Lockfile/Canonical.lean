import LockAudit.Lockfile.Graph
import LockAudit.Proofs.Result
import LockAudit.Proofs.Sorting
import LockAudit.Proofs.Version.Order
import Mathlib.Data.List.Nodup
import Mathlib.Data.List.Perm.Basic

/-!
# What a graph owes to the order of its parts

A graph is given by lists, and shows its dependencies in canonical order. The order
looks at the rank of a dependency, and the rank has hyphens for underscores where
what a dependency is has not. So two different dependencies can be of one rank, and
those stay in the order in which they were given.

As long as all ranks are different nothing of the lists shows: two graphs that hold
the same dependencies and the same links agree in everything they are asked. Where
two ranks are equal, the lists in another order give another sequence.
-/

namespace LockAudit.Lockfile

/-! ## Rank -/

namespace Node

/-- What the canonical order looks at. -/
def rank (n : Node) : String × Precedence × String :=
  (PackageName.canonical n.name, n.version.toPrecedence, n.source)

instance : Std.TransCmp fun a b : Node => a.version.order b.version.toPrecedence :=
  Sorting.transCmp_on Precedence.order fun n : Node => n.version.toPrecedence

/-- The order compares one part after the other. -/
theorem order_eq_compareLex :
    order = compareLex (compareOn fun n : Node => PackageName.canonical n.name)
      (compareLex (fun a b => a.version.order b.version.toPrecedence) (compareOn source)) := rfl

instance : Std.TransCmp order := by
  rw [order_eq_compareLex]; infer_instance

/-- Of equal place in the order are those of equal rank. -/
theorem order_eq {a b : Node} : a.order b = .eq ↔ a.rank = b.rank := by
  unfold order rank
  rw [Ordering.then_eq_eq, Ordering.then_eq_eq, Std.LawfulEqCmp.compare_eq_iff_eq,
    Std.LawfulEqCmp.compare_eq_iff_eq, Std.LawfulEqCmp.compare_eq_iff_eq, Prod.mk.injEq,
    Prod.mk.injEq]

end Node

/-- No two of the dependencies are of one rank. -/
def Separated (nodes : List Node) : Prop := (nodes.map (·.rank)).Nodup

/-- Distinct dependencies are of different ranks when the order does not let them tie. -/
theorem separates_iff {nodes : List Node} (h : nodes.Nodup) :
    Sorting.Separates Node.order nodes ↔ Separated nodes := by
  unfold Sorting.Separates Separated
  rw [List.nodup_map_iff_inj_on h]
  simp only [Node.order_eq]

theorem Separated.separates {nodes : List Node} (h : Separated nodes) :
    Sorting.Separates Node.order nodes :=
  (separates_iff (List.Nodup.of_map _ h)).mpr h

theorem Separated.perm {nodes nodes' : List Node} (h : Separated nodes)
    (hperm : nodes'.Perm nodes) :
    Separated nodes' :=
  (hperm.map _).nodup_iff.mpr h

namespace Graph

theorem mem_children {g : Graph} {n c : Node} :
    c ∈ g.children n ↔ c ∈ g.nodes ∧ (n.key, c.key) ∈ g.links := by
  unfold Graph.children Graph.hasLink
  rw [List.mem_filter, List.contains_iff_mem]

section Making

variable {nodes nodes' : List Node} {edges edges' : List (Coordinate × Coordinate)}

/-! ## Sorting -/

theorem sortNodes_pairwise (nodes : List Node) :
    (sortNodes nodes).Pairwise fun a b => (a.order b).isLE = true :=
  Sorting.pairwise_sorted nodes

theorem sortNodes_perm (nodes : List Node) : (sortNodes nodes).Perm nodes :=
  List.mergeSort_perm nodes _

/-- What is in order already is left as it is. -/
theorem sortNodes_of_pairwise (h : nodes.Pairwise fun a b => (a.order b).isLE = true) :
    sortNodes nodes = nodes :=
  List.mergeSort_of_pairwise h

/-- Sorting separated dependencies forgets the order in which they were given. -/
theorem sortNodes_eq_of_perm (h : Separated nodes) (hperm : nodes'.Perm nodes) :
    sortNodes nodes' = sortNodes nodes :=
  Sorting.eq_of_perm h.separates hperm

/-! ## Making a graph -/

/-- Of distinct dependencies, one is none of those before it. -/
theorem key_not_mem {before after : List Node} {n : Node}
    (h : ((before ++ n :: after).map (·.key)).Nodup) :
    n.key ∉ before.map (·.key) := by
  rw [List.map_append, List.map_cons, List.nodup_middle, List.nodup_cons, List.mem_append,
    not_or] at h
  exact h.1.1

/-- Dependencies that are new are put behind the others. -/
theorem foldl_insertNode (more : List Node) {known : List Node}
    (h : ((known ++ more).map (·.key)).Nodup) :
    more.foldl insertNode known = known ++ more := by
  induction more generalizing known with
  | nil => rw [List.foldl_nil, List.append_nil]
  | cons n more ih =>
      have hnew : known.any (·.key == n.key) = false := by
        rw [Bool.eq_false_iff]
        exact fun hany => key_not_mem h (any_key_iff.mp hany)
      have hinsert : insertNode known n = known ++ [n] := by
        unfold insertNode
        rw [hnew]
        rfl
      rw [List.foldl_cons, hinsert, ih]
      · rw [List.append_assoc]; rfl
      · rw [List.append_assoc]; exact h

theorem missingEnd?_eq_none :
    missingEnd? nodes edges = none ↔
      ∀ e ∈ edges, e.1.key ∈ nodes.map (·.key) ∧ e.2.key ∈ nodes.map (·.key) := by
  unfold missingEnd?
  rw [List.find?_eq_none]
  refine forall₂_congr fun e _ => ?_
  rw [Bool.not_eq_true, Bool.not_eq_false', Bool.and_eq_true, any_key_iff, any_key_iff]

/-- Making a graph sorts the dependencies and keeps the links, unless the end of a
link is missing. -/
theorem of_cases (nodes : List Node) (edges : List (Coordinate × Coordinate)) :
    (∃ e, Graph.of nodes edges = .error e ∧
      missingEnd? (nodes.foldl insertNode []) edges ≠ none) ∨
    (∃ g, Graph.of nodes edges = .ok g ∧
      missingEnd? (nodes.foldl insertNode []) edges = none ∧
      g.nodes = sortNodes (nodes.foldl insertNode []) ∧
      g.links = edges.map fun e => (e.1.key, e.2.key)) := by
  unfold Graph.of
  dsimp only
  split
  · rename_i hsome
    exact .inl ⟨_, rfl, by rw [hsome]; simp⟩
  · rename_i hnone
    exact .inr ⟨_, rfl, hnone, rfl, rfl⟩

/-- Every graph that is made is in canonical order. -/
theorem of_pairwise {g : Graph} (h : Graph.of nodes edges = .ok g) :
    g.nodes.Pairwise fun a b => (a.order b).isLE = true := by
  rcases of_cases nodes edges with ⟨e, he, _⟩ | ⟨g', hg', _, hnodes, _⟩
  · exact absurd (he.symm.trans h) (by simp)
  · obtain rfl := Except.ok.inj (h.symm.trans hg')
    rw [hnodes]
    exact sortNodes_pairwise _

/-- Distinct dependencies and links between them make a graph. -/
theorem of_ok (hdistinct : (nodes.map (·.key)).Nodup)
    (hends : ∀ e ∈ edges, e.1.key ∈ nodes.map (·.key) ∧ e.2.key ∈ nodes.map (·.key)) :
    ∃ g, Graph.of nodes edges = .ok g ∧ g.nodes = sortNodes nodes ∧
      g.links = edges.map fun e => (e.1.key, e.2.key) := by
  have hknown : nodes.foldl insertNode [] = nodes := foldl_insertNode nodes hdistinct
  rcases of_cases nodes edges with ⟨e, _, hmissing⟩ | ⟨g, hg, _, hnodes, hlinks⟩
  · rw [hknown] at hmissing
    exact absurd (missingEnd?_eq_none.mpr hends) hmissing
  · rw [hknown] at hnodes
    exact ⟨g, hg, hnodes, hlinks⟩

end Making

/-! ## Graphs that agree -/

/-- The graphs hold the same dependencies in the same order, and the same links. -/
structure Agrees (g h : Graph) : Prop where
  nodes : g.nodes = h.nodes
  links : ∀ e, e ∈ g.links ↔ e ∈ h.links

namespace Agrees

variable {g h : Graph}

theorem hasLink (a : g.Agrees h) (parent child : NodeKey) :
    g.hasLink parent child = h.hasLink parent child := by
  unfold Graph.hasLink
  rw [Bool.eq_iff_iff, List.contains_iff_mem, List.contains_iff_mem]
  exact a.links _

theorem children (a : g.Agrees h) (n : Node) : g.children n = h.children n := by
  unfold Graph.children
  rw [a.nodes]
  exact List.filter_congr fun m _ => a.hasLink n.key m.key

theorem hasParent (a : g.Agrees h) (n : Node) : g.hasParent n = h.hasParent n := by
  unfold Graph.hasParent
  rw [Bool.eq_iff_iff, List.any_eq_true, List.any_eq_true]
  exact exists_congr fun e => and_congr_left' (a.links e)

theorem edges (a : g.Agrees h) : g.edges = h.edges := by
  unfold Graph.edges
  rw [a.nodes]
  refine List.flatMap_congr fun n _ => ?_
  rw [a.children n]

theorem roots (a : g.Agrees h) : g.roots = h.roots := by
  unfold Graph.roots
  rw [a.nodes, List.filter_congr fun n _ => congrArg (!·) (a.hasParent n)]

theorem search (a : g.Agrees h) (goal : NodeKey) (fuel : Nat) (queue : List (List Node))
    (seen : List NodeKey) :
    g.search goal fuel queue seen = h.search goal fuel queue seen := by
  induction fuel generalizing queue seen with
  | zero => rfl
  | succ fuel ih =>
      match queue with
      | [] => rfl
      | [] :: _ => rfl
      | (current :: before) :: queue =>
          unfold Graph.search
          dsimp only
          rw [a.children current, ih]

theorem pathTo (a : g.Agrees h) (n : Node) : g.pathTo n = h.pathTo n := by
  unfold Graph.pathTo contains
  dsimp only
  rw [a.nodes, a.roots, a.search]

theorem document (a : g.Agrees h) : g.document = h.document := by
  have hentry : g.entry = h.entry := by
    funext n
    unfold entry
    rw [a.children n]
  unfold Graph.document
  rw [a.nodes, hentry]

theorem dump (a : g.Agrees h) : g.dump = h.dump := by
  unfold Graph.dump
  rw [a.document]

end Agrees

/-! ## The same parts in another order -/

section Reordering

variable {nodes nodes' : List Node} {edges edges' : List (Coordinate × Coordinate)}

/-- The parts in another order make a graph as well, with the same links. -/
theorem of_perm (hdistinct : (nodes.map (·.key)).Nodup)
    (hends : ∀ e ∈ edges, e.1.key ∈ nodes.map (·.key) ∧ e.2.key ∈ nodes.map (·.key))
    (hnodes : nodes'.Perm nodes) (hedges : edges'.Perm edges) :
    ∃ g, Graph.of nodes' edges' = .ok g ∧ g.nodes = sortNodes nodes' ∧
      ∀ e, e ∈ g.links ↔ e ∈ edges.map fun e => (e.1.key, e.2.key) := by
  have hkeys := hnodes.map (·.key)
  have hends' : ∀ e ∈ edges', e.1.key ∈ nodes'.map (·.key) ∧ e.2.key ∈ nodes'.map (·.key) := by
    intro e he
    rw [hkeys.mem_iff, hkeys.mem_iff]
    exact hends e (hedges.mem_iff.mp he)
  obtain ⟨g, hg, hsorted, hlinks⟩ := of_ok (hkeys.nodup_iff.mpr hdistinct) hends'
  refine ⟨g, hg, hsorted, fun e => ?_⟩
  rw [hlinks]
  exact (hedges.map _).mem_iff

/-- Dependencies that are not separated have an order that shows: two orders of them
are sorted differently. -/
theorem exists_perm_of_not_separated (hdistinct : (nodes.map (·.key)).Nodup)
    (h : ¬ Separated nodes) :
    ∃ first second : List Node, first.Perm nodes ∧ second.Perm nodes ∧
      sortNodes first ≠ sortNodes second := by
  by_contra hnone
  refine h ((separates_iff (List.Nodup.of_map _ hdistinct)).mp (Sorting.perm_iff.mp ?_))
  intro nodes' hperm
  by_contra hne
  exact hnone ⟨nodes', nodes, hperm, .refl nodes, hne⟩

/-- What a dependency depends on comes in canonical order, whichever way the set of it
was gone through before sorting. -/
theorem sortNodes_children {g : Graph} (h : Separated g.nodes)
    (hsorted : g.nodes.Pairwise fun a b => (a.order b).isLE = true) (n : Node) {l : List Node}
    (hl : l.Perm (g.children n)) :
    sortNodes l = g.children n := by
  have hsub : (g.children n).Sublist g.nodes := List.filter_sublist
  have hseparated : Separated (g.children n) := (hsub.map _).nodup h
  rw [sortNodes_eq_of_perm hseparated hl]
  exact sortNodes_of_pairwise (hsorted.sublist hsub)

/-- **The graph shows nothing of the order of its parts exactly if the dependencies are
separated.** Any order of them makes a graph. -/
theorem of_canonical (nodes : List Node) (edges : List (Coordinate × Coordinate))
    (hdistinct : (nodes.map (·.key)).Nodup)
    (hends : ∀ e ∈ edges, e.1.key ∈ nodes.map (·.key) ∧ e.2.key ∈ nodes.map (·.key)) :
    ∃ g, Graph.of nodes edges = .ok g ∧
      (∀ nodes' edges', nodes'.Perm nodes → edges'.Perm edges →
        ∃ g', Graph.of nodes' edges' = .ok g' ∧ g'.nodes.Perm g.nodes ∧
          (∀ e, e ∈ g'.links ↔ e ∈ g.links) ∧
          (Separated nodes → g'.nodes = g.nodes ∧ g'.edges = g.edges ∧ g'.roots = g.roots ∧
            (∀ n, g'.pathTo n = g.pathTo n) ∧ g'.dump = g.dump)) ∧
      (Separated nodes → ∀ n l, l.Perm (g.children n) → sortNodes l = g.children n) ∧
      (¬ Separated nodes → ∃ nodes' g', nodes'.Perm nodes ∧ Graph.of nodes' edges = .ok g' ∧
        g'.nodes ≠ g.nodes) := by
  obtain ⟨g, hg, hsorted, hlinks⟩ := of_perm hdistinct hends (.refl nodes) (.refl edges)
  refine ⟨g, hg, ?_, ?_, ?_⟩
  · intro nodes' edges' hnodes hedges
    obtain ⟨g', hg', hsorted', hlinks'⟩ := of_perm hdistinct hends hnodes hedges
    have hsame : ∀ e, e ∈ g'.links ↔ e ∈ g.links := fun e => (hlinks' e).trans (hlinks e).symm
    refine ⟨g', hg', ?_, hsame, fun hseparated => ?_⟩
    · rw [hsorted, hsorted']
      exact ((sortNodes_perm nodes').trans hnodes).trans (sortNodes_perm nodes).symm
    · have hsequence : g'.nodes = g.nodes := by
        rw [hsorted, hsorted', sortNodes_eq_of_perm hseparated hnodes]
      have hagrees : g'.Agrees g := ⟨hsequence, hsame⟩
      exact ⟨hsequence, hagrees.edges, hagrees.roots, hagrees.pathTo, hagrees.dump⟩
  · intro hseparated n l hl
    have hpairwise := sortNodes_pairwise nodes
    rw [← hsorted] at hpairwise
    have hperm : g.nodes.Perm nodes := by rw [hsorted]; exact sortNodes_perm nodes
    exact sortNodes_children (hseparated.perm hperm) hpairwise n hl
  · intro hnot
    obtain ⟨first, second, hfirst, hsecond, hne⟩ := exists_perm_of_not_separated hdistinct hnot
    obtain ⟨g₁, hg₁, hsorted₁, _⟩ := of_perm hdistinct hends hfirst (.refl edges)
    obtain ⟨g₂, hg₂, hsorted₂, _⟩ := of_perm hdistinct hends hsecond (.refl edges)
    -- the two differ, so one of them differs from the graph in the given order
    by_cases hone : g₁.nodes = g.nodes
    · refine ⟨second, g₂, hsecond, hg₂, fun htwo => hne ?_⟩
      rw [← hsorted₁, ← hsorted₂, hone, htwo]
    · exact ⟨first, g₁, hfirst, hg₁, hone⟩

/-- Two packages whose names differ in a hyphen, one depending on the other. -/
theorem of_canonical_hyphen :
    ∃ g nodes' g',
      Graph.of [⟨"a_b", .release 1 0 0, "registry", false⟩, ⟨"a-b", .release 1 0 0, "registry", false⟩]
        [(⟨"a_b", .release 1 0 0, "registry"⟩, ⟨"a-b", .release 1 0 0, "registry"⟩)] = .ok g ∧
      nodes'.Perm [⟨"a_b", .release 1 0 0, "registry", false⟩,
        ⟨"a-b", .release 1 0 0, "registry", false⟩] ∧
      Graph.of nodes'
        [(⟨"a_b", .release 1 0 0, "registry"⟩, ⟨"a-b", .release 1 0 0, "registry"⟩)] = .ok g' ∧
      g'.nodes ≠ g.nodes := by
  have hdistinct : (([⟨"a_b", .release 1 0 0, "registry", false⟩,
      ⟨"a-b", .release 1 0 0, "registry", false⟩] : List Node).map (·.key)).Nodup := by decide
  have hrank : ¬ Separated [⟨"a_b", .release 1 0 0, "registry", false⟩,
      ⟨"a-b", .release 1 0 0, "registry", false⟩] := by
    unfold Separated
    decide +kernel
  obtain ⟨g, hg, _, _, hshows⟩ := of_canonical _
    [(⟨"a_b", .release 1 0 0, "registry"⟩, ⟨"a-b", .release 1 0 0, "registry"⟩)]
    hdistinct (by decide)
  obtain ⟨nodes', g', hperm, hg', hne⟩ := hshows hrank
  exact ⟨g, nodes', g', hg, hperm, hg', hne⟩

end Reordering

end Graph

end LockAudit.Lockfile
