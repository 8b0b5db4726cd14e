import LockAudit.Proofs.Lockfile.Search
import Mathlib.Data.List.Chain
import Mathlib.Data.List.Shortlex

/-!
# The chain that leads to a dependency

Which chain is shown for a dependency that something was found in? One from a root, along
links, and no longer than it has to be; and of several that are equally short the first in
the canonical order, so that a report does not change from run to run. Without any chain
from a root it is the dependency alone.

Both are orders that favour the search: the one by length always does, whatever the order
in which sets give their elements, and where the canonical order tells all dependencies
apart, so does the one that goes by length and then by the dependencies from the root on.

The search comes to an end on every graph, also on one with cycles. That is said of a loop
that has no bound on its steps, and that does not carry chains along: it has dependencies in
its queue, and notes for each that it reached where it came from. Only in the end does it
go back over these notes, and this gives the chain that the search has.
-/

namespace LockAudit.Lockfile.Graph

variable {g : Graph} {children order : Node → List Node} {before : List Node → List Node → Prop}
  {done queue : List (List Node)} {seen : List NodeKey} {goal : NodeKey} {fuel : Nat}
  {n : Node} {c d e chain : List Node}

/-! ## Chains from their beginning -/

/-- The chain leads from a root to the dependency. -/
structure Leads (g : Graph) (chain : List Node) (n : Node) : Prop where
  starts : ∃ r ∈ g.roots, chain.head? = some r
  linked : chain.IsChain fun a b => b ∈ g.children a
  ends : chain.getLast? = some n

theorem isTrail_iff :
    g.IsTrail c ↔ (∃ r ∈ g.roots, c.getLast? = some r) ∧ c.IsChain fun b a => b ∈ g.children a := by
  refine ⟨?_, ?_⟩
  · intro h
    induction h with
    | root hr => exact ⟨⟨_, hr, rfl⟩, List.isChain_singleton _⟩
    | link _ hx ih =>
        obtain ⟨⟨r, hr, hlast⟩, hlinked⟩ := ih
        exact ⟨⟨r, hr, by rwa [List.getLast?_cons_cons]⟩, List.isChain_cons_cons.mpr ⟨hx, hlinked⟩⟩
  · intro h
    obtain ⟨⟨r, hr, hlast⟩, hlinked⟩ := h
    -- a list of links is a trail once its last node is known to be a root
    induction c with
    | nil => exact absurd hlast (by simp)
    | cons x c ih =>
        cases c with
        | nil =>
            obtain rfl : x = r := by simpa using hlast
            exact .root hr
        | cons a c =>
            rw [List.getLast?_cons_cons] at hlast
            rw [List.isChain_cons_cons] at hlinked
            exact .link (ih hlinked.2 hlast) hlinked.1

/-- A chain to a dependency is one that the search may come to. -/
theorem leads_iff : g.Leads chain n ↔ ∃ c, chain = (n :: c).reverse ∧ g.IsTrail (n :: c) := by
  refine ⟨fun h => ?_, fun ⟨c, hchain, htrail⟩ => ?_⟩
  · obtain ⟨c, hc⟩ : ∃ c, chain.reverse = n :: c := by
      rw [← List.head?_eq_some_iff, List.head?_reverse]
      exact h.ends
    refine ⟨c, by rw [← hc, List.reverse_reverse], ?_⟩
    rw [← hc, isTrail_iff, List.getLast?_reverse, List.isChain_reverse]
    exact ⟨h.starts, h.linked⟩
  · rw [isTrail_iff] at htrail
    refine ⟨?_, ?_, ?_⟩
    · rw [hchain, List.head?_reverse]
      exact htrail.1
    · rw [hchain, List.isChain_reverse]
      exact htrail.2
    · rw [hchain, List.getLast?_reverse, List.head?_cons]

/-! ## Orders of chains -/

/-- One dependency comes before another in the canonical order. -/
def Precedes (a b : Node) : Prop := a.order b = .lt

/-- The shorter of two chains comes first, and of two that are equally long the one with
the earlier dependency where they part. -/
def ChainPrecedes (c d : List Node) : Prop := List.Shortlex Precedes c.reverse d.reverse

theorem lex_trans (h : List.Lex Precedes c d) (h' : List.Lex Precedes d e) :
    List.Lex Precedes c e := by
  induction h generalizing e with
  | nil => cases h' <;> exact .nil
  | cons _ ih =>
      cases h' with
      | cons h' => exact .cons (ih h')
      | rel h' => exact .rel h'
  | rel hlt =>
      cases h' with
      | cons _ => exact .rel hlt
      | rel h' => exact .rel (Std.TransCmp.lt_trans hlt h')

/-- Where two chains part, nothing behind counts. -/
theorem lex_append (h : List.Lex Precedes c d) (hlength : c.length = d.length) (u v : List Node) :
    List.Lex Precedes (c ++ u) (d ++ v) := by
  induction h with
  | nil => exact absurd hlength (by simp)
  | cons _ ih => exact .cons (ih (Nat.succ.inj hlength))
  | rel hlt => exact .rel hlt

theorem favours_length (g : Graph) (children : Node → List Node) :
    g.Favours children fun c d => c.length ≤ d.length where
  trans := Nat.le_trans
  short := Nat.le_of_lt
  linked := fun _ _ h => Nat.succ_le_succ h
  roots := List.pairwise_of_forall fun _ _ => Nat.le_refl _
  siblings := fun _ _ => List.pairwise_of_forall fun _ _ => Nat.le_refl _

/-- Where no two dependencies are of one rank, sorting puts them in strict order. -/
theorem precedes_of_separated {nodes : List Node} (h : Separated nodes)
    (hsorted : nodes.Pairwise fun a b => (a.order b).isLE = true) : nodes.Pairwise Precedes := by
  have hranks : nodes.Pairwise fun a b => a.rank ≠ b.rank := List.pairwise_map.mp h
  refine (hsorted.and hranks).imp fun {a b} hab => ?_
  rcases Ordering.isLE_iff_eq_lt_or_eq_eq.mp hab.1 with hlt | heq
  · exact hlt
  · exact absurd (Node.order_eq.mp heq) hab.2

theorem chainPrecedes_cons {x y : Node} (h : Precedes x y) (front : List Node) :
    ChainPrecedes (x :: front) (y :: front) := by
  unfold ChainPrecedes
  rw [List.reverse_cons, List.reverse_cons]
  exact ((List.shortlex_singleton_iff x y).mpr h).append_left front.reverse

theorem favours_chainPrecedes (h : g.nodes.Pairwise Precedes) :
    g.Favours g.children ChainPrecedes where
  trans := by
    intro c d e hcd hde
    unfold ChainPrecedes at *
    rw [List.shortlex_def] at *
    rcases hcd with hcd | ⟨hcd, hlex⟩
    · rcases hde with hde | ⟨hde, _⟩
      · exact Or.inl (hcd.trans hde)
      · exact Or.inl (hcd.trans_eq hde)
    · rcases hde with hde | ⟨hde, hlex'⟩
      · exact Or.inl (hcd.trans_lt hde)
      · exact Or.inr ⟨hcd.trans hde, lex_trans hlex hlex'⟩
  short := fun h => .of_length_lt (by simpa using h)
  linked := by
    intro c d x y hcd
    unfold ChainPrecedes at *
    rw [List.reverse_cons, List.reverse_cons]
    rcases List.shortlex_def.mp hcd with hshort | ⟨hlength, hlex⟩
    · exact .of_length_lt (by simpa using hshort)
    · exact .of_lex (by simpa using hlength) (lex_append hlex hlength [x] [y])
  roots := by
    refine (h.sublist (roots_sublist g)).imp fun {r s} hrs => ?_
    exact chainPrecedes_cons hrs []
  -- the children of a node keep the order the nodes have
  siblings := by
    intro a c
    refine (h.sublist List.filter_sublist).imp fun {x y} hxy => ?_
    exact chainPrecedes_cons hxy (a :: c)

/-! ## The loop -/

/-- For each dependency that was reached, the one it was reached from; a root from none. -/
abbrev Origins := List (NodeKey × Option Node)

/-- The origins, with the dependencies that one of them leads to and that are new. -/
def Origins.fresh (origins : Origins) (found : List Node) : List Node :=
  found.filter fun n => (origins.lookup n.key).isNone

/-- The way back over the origins, from the first of the chain to a root. -/
inductive LeadsBack (origins : Origins) : List Node → Prop
  | root {r : Node} (h : origins.lookup r.key = some none) : LeadsBack origins [r]
  | link {a x : Node} {c : List Node} (h : origins.lookup x.key = some (some a))
      (more : LeadsBack origins (a :: c)) : LeadsBack origins (x :: a :: c)

/-- The loop of a search comes to an end with the result. It takes dependencies from its
queue, notes where those that are new were reached from, and goes back over these notes
once the goal is at the front. -/
inductive Ends (children : Node → List Node) (goal : NodeKey) :
    List Node → Origins → Option (List Node) → Prop
  | exhausted {origins : Origins} : Ends children goal [] origins none
  | found {a : Node} {c queue : List Node} {origins : Origins} (isGoal : a.key = goal)
      (back : LeadsBack origins (a :: c)) :
      Ends children goal (a :: queue) origins (some (a :: c).reverse)
  | step {a : Node} {queue : List Node} {origins : Origins} {result : Option (List Node)}
      (isOther : a.key ≠ goal)
      (more : Ends children goal (queue ++ origins.fresh (children a))
        (origins ++ (origins.fresh (children a)).map fun n => (n.key, some a)) result) :
      Ends children goal (a :: queue) origins result

variable {origins : Origins}

theorem LeadsBack.append (h : LeadsBack origins c) (more : Origins) :
    LeadsBack (origins ++ more) c := by
  induction h with
  | root hr => exact .root (by rw [List.lookup_append, hr, Option.some_or])
  | link hx _ ih => exact .link (by rw [List.lookup_append, hx, Option.some_or]) ih

/-- There is one way back. -/
theorem LeadsBack.unique (h : LeadsBack origins (n :: c)) (h' : LeadsBack origins (n :: d)) :
    c = d := by
  generalize htrail : n :: c = trail at h
  induction h generalizing n c d with
  | root hr =>
      obtain ⟨rfl, rfl⟩ := List.cons.inj htrail
      cases h' with
      | root _ => rfl
      | link hx _ => exact absurd (hr.symm.trans hx) (by simp)
  | link hx _ ih =>
      obtain ⟨rfl, rfl⟩ := List.cons.inj htrail
      cases h' with
      | root hr => exact absurd (hr.symm.trans hx) (by simp)
      | link hx' more =>
          obtain rfl : _ = _ := Option.some.inj (Option.some.inj (hx.symm.trans hx'))
          rw [ih more rfl]

/-- The loop has one end. -/
theorem Ends.unique {queue : List Node} {result result' : Option (List Node)}
    (h : Ends children goal queue origins result) (h' : Ends children goal queue origins result') :
    result = result' := by
  induction h with
  | exhausted => cases h'; rfl
  | found hgoal back =>
      cases h' with
      | found _ back' => rw [back.unique back']
      | step hother _ => exact absurd hgoal hother
  | step hother _ ih =>
      cases h' with
      | found hgoal _ => exact absurd hgoal hother
      | step _ more => exact ih more

/-- The notes of the loop say of the dependencies that are known where they came from. -/
structure Notes (origins : Origins) (queue : List (List Node)) (seen : List NodeKey) : Prop where
  keys : origins.map (·.1) = seen
  back : ∀ c ∈ queue, LeadsBack origins c

theorem Notes.fresh_eq (h : Notes origins queue seen) (found : List Node) :
    origins.fresh found = found.filter fun n => !seen.contains n.key := by
  have hnone (n : Node) : origins.lookup n.key = none ↔ n.key ∉ seen := by
    rw [List.lookup_eq_none_iff, ← h.keys, List.mem_map]
    refine ⟨fun hne hmem => ?_, fun hnot p hp => ?_⟩
    · obtain ⟨p, hp, hkey⟩ := hmem
      exact absurd hkey.symm (by simpa using hne p hp)
    · simpa using fun hkey => hnot ⟨p, hp, Eq.symm hkey⟩
  refine List.filter_congr fun n _ => ?_
  rw [Bool.eq_iff_iff, Option.isNone_iff_eq_none, hnone]
  simp

/-- Dependencies that were reached together came from one place. -/
theorem lookup_map {found : List Node} {x : Node} (hx : x ∈ found) (origin : Option Node) :
    (found.map fun n => (n.key, origin)).lookup x.key = some origin := by
  induction found with
  | nil => exact absurd hx List.not_mem_nil
  | cons n found ih =>
      rw [List.map_cons, List.lookup_cons]
      by_cases hkey : x.key = n.key
      · simp [hkey]
      · have hne : x ≠ n := fun heq => hkey (congrArg Node.key heq)
        simp only [beq_eq_false_iff_ne.mpr hkey]
        exact ih ((List.mem_cons.mp hx).resolve_left hne)

theorem Notes.start (g : Graph) :
    Notes (g.roots.map fun r => (r.key, none)) (g.roots.map fun r => [r])
      (g.roots.map (·.key)) where
  keys := by rw [List.map_map]; rfl
  back := by
    intro c hc
    obtain ⟨r, hr, rfl⟩ := List.mem_map.mp hc
    exact .root (lookup_map hr none)

theorem Notes.step {a : Node} (h : Notes origins ((a :: c) :: queue) seen) (found : List Node) :
    Notes (origins ++ (origins.fresh found).map fun n => (n.key, some a))
      (queue ++ (origins.fresh found).map fun n => n :: a :: c)
      (seen ++ (origins.fresh found).map (·.key)) where
  keys := by
    rw [List.map_append, h.keys, List.map_map]
    rfl
  back := by
    rw [List.forall_mem_append]
    refine ⟨fun d hd => (h.back d (List.mem_cons_of_mem _ hd)).append _, fun d hd => ?_⟩
    obtain ⟨x, hx, rfl⟩ := List.mem_map.mp hd
    have hnew : origins.lookup x.key = none :=
      Option.isNone_iff_eq_none.mp (List.mem_filter.mp hx).2
    refine .link ?_ ((h.back _ List.mem_cons_self).append _)
    rw [List.lookup_append, hnew, Option.none_or, lookup_map hx]

/-- **Run.** The loop comes to an end, and with the chain that the search has. -/
theorem Searching.ends (hb : g.Favours children before) (ho : g.IsOrder children)
    (h : g.Searching children before done queue seen) (hnotes : Notes origins queue seen)
    (hfuel : g.nodes.length ≤ fuel + done.length) :
    Ends children goal (queue.filterMap List.head?) origins
      (searchBy children goal fuel queue seen) := by
  induction fuel generalizing done queue seen origins with
  | zero =>
      have hlength := h.length_le
      obtain rfl : queue = [] := List.length_eq_zero_iff.mp (by omega)
      exact .exhausted
  | succ fuel ih =>
      match queue with
      | [] => exact .exhausted
      | [] :: _ => exact absurd rfl (h.trails [] (by simp)).ne_nil
      | (a :: c) :: queue =>
          rw [searchBy]
          split
          · rename_i hgoal
            exact .found hgoal (hnotes.back _ List.mem_cons_self)
          · rename_i hgoal
            have hstep := h.step hb ho
            -- what the search has met, in `seen`, is what the notes know, in `origins`
            rw [← hnotes.fresh_eq] at hstep
            have hends := ih hstep (hnotes.step (children a))
              (by rw [List.length_append, List.length_singleton]; omega)
            rw [List.filterMap_append, List.filterMap_map] at hends
            rw [← hnotes.fresh_eq]
            refine .step hgoal ?_
            have hheads : List.head? ∘ (fun n : Node => n :: a :: c) = some := rfl
            rw [hheads, List.filterMap_some] at hends
            exact hends

/-! ## The chain that is found -/

/-- What the search finds, if what a dependency depends on is gone through in some order
before it is sorted. -/
def findBy (g : Graph) (order : Node → List Node) (n : Node) : Option (List Node) :=
  searchBy (fun a => sortNodes (order a)) n.key g.nodes.length (g.roots.map fun r => [r])
    (g.roots.map (·.key))

/-- The chain that is shown for a dependency, found in that order. -/
def pathBy (g : Graph) (order : Node → List Node) (n : Node) : List Node :=
  if g.contains n.key then (g.findBy order n).getD [n] else [n]

/-- The chain of a graph is the one for the children as they come. -/
theorem pathBy_children (hsorted : g.nodes.Pairwise fun a b => (a.order b).isLE = true) (n : Node) :
    g.pathBy g.children n = g.pathTo n := by
  have hchildren : (fun a => sortNodes (g.children a)) = g.children :=
    funext fun a => sortNodes_of_pairwise (hsorted.sublist List.filter_sublist)
  unfold pathBy findBy pathTo
  simp only [hchildren, search_eq]

theorem pathBy_eq (hn : n ∈ g.nodes) : g.pathBy order n = (g.findBy order n).getD [n] :=
  if_pos (any_key_iff.mpr (List.mem_map_of_mem hn))

theorem IsOrder.sorted (ho : g.IsOrder order) : g.IsOrder fun a => sortNodes (order a) :=
  fun a => (sortNodes_perm (order a)).trans (ho a)

theorem findBy_ends (ho : g.IsOrder order) (n : Node) :
    Ends (fun a => sortNodes (order a)) n.key g.roots (g.roots.map fun r => (r.key, none))
      (g.findBy order n) := by
  have hb : g.Favours (fun a => sortNodes (order a)) fun c d => c.length ≤ d.length :=
    favours_length g _
  have hends : Ends (fun a => sortNodes (order a)) n.key ((g.roots.map fun r => [r]).filterMap
      List.head?) (g.roots.map fun r => (r.key, none)) (g.findBy order n) :=
    (Searching.start hb).ends hb ho.sorted (.start g) (Nat.le_refl _)
  have hheads : List.head? ∘ (fun r : Node => [r]) = some := rfl
  rwa [List.filterMap_map, hheads, List.filterMap_some] at hends

/-- What the search ends with, as chains from their beginning. -/
theorem findBy_cases (hb : g.Favours (fun a => sortNodes (order a)) before) (ho : g.IsOrder order)
    (hn : n ∈ g.nodes) :
    (∃ found, g.findBy order n = some found ∧ g.Leads found n ∧
      ∀ chain, g.Leads chain n → found = chain ∨ before found.reverse chain.reverse) ∨
    g.findBy order n = none ∧ ∀ chain, ¬ g.Leads chain n := by
  have hfirst : g.IsFirst before n.key (g.findBy order n) :=
    (Searching.start hb).run hb ho.sorted (fun _ _ h => absurd h List.not_mem_nil) (Nat.le_refl _)
  cases hfound : g.findBy order n with
  | none =>
      rw [hfound] at hfirst
      refine Or.inr ⟨rfl, fun chain hchain => ?_⟩
      obtain ⟨c, _, htrail⟩ := leads_iff.mp hchain
      exact hfirst n c rfl htrail
  | some found =>
      rw [hfound] at hfirst
      obtain ⟨a, c, rfl, hkey, htrail, hleast⟩ := hfirst
      obtain rfl : a = n := eq_of_key htrail.mem_nodes hn hkey
      refine Or.inl ⟨_, rfl, leads_iff.mpr ⟨c, rfl, htrail⟩, fun chain hchain => ?_⟩
      obtain ⟨d, rfl, htrail'⟩ := leads_iff.mp hchain
      rw [List.reverse_reverse, List.reverse_reverse, List.reverse_inj]
      exact hleast a d rfl htrail'

/-- **Shortest chains.** Take any graph that was made, with cycles or without, any of its
dependencies, and any order in which sets give what a dependency depends on. A loop without
a bound on its steps comes to an end, with one result, and that is what the search finds.
If some chain of links leads from a root to the dependency, then what is found is such a
chain, and none is shorter; and if no two dependencies are of one rank, it is the first in
the canonical order of those that are equally short. If there is no such chain, the
dependency stands alone. -/
theorem shortest_chain {nodes : List Node} {edges : List (Coordinate × Coordinate)}
    (hg : Graph.of nodes edges = .ok g) (ho : g.IsOrder order) (hn : n ∈ g.nodes) :
    g.pathBy g.children n = g.pathTo n ∧
    (∃ result, g.pathBy order n = result.getD [n] ∧ ∀ other,
      Ends (fun a => sortNodes (order a)) n.key g.roots (g.roots.map fun r => (r.key, none)) other ↔
        other = result) ∧
    ((∃ chain, g.Leads chain n) →
      g.Leads (g.pathBy order n) n ∧
      (∀ chain, g.Leads chain n → (g.pathBy order n).length ≤ chain.length) ∧
      (Separated g.nodes → ∀ chain, g.Leads chain n → chain.length = (g.pathBy order n).length →
        g.pathBy order n = chain ∨ List.Lex Precedes (g.pathBy order n) chain)) ∧
    ((¬ ∃ chain, g.Leads chain n) → g.pathBy order n = [n]) := by
  have hsorted := of_pairwise hg
  have hends := findBy_ends ho n
  refine ⟨pathBy_children hsorted n, ⟨g.findBy order n, pathBy_eq hn, fun other => ?_⟩, ?_, ?_⟩
  · -- the search is a relation that gives one result
    refine ⟨fun h => h.unique hends, fun h => ?_⟩
    rw [h]
    exact hends
  · intro hreached
    rw [pathBy_eq hn]
    rcases findBy_cases (favours_length g _) ho hn with ⟨found, hfound, hleads, hleast⟩ | ⟨_, hnone⟩
    · rw [hfound, Option.getD_some]
      -- a chain that is found is as short as any, in whatever order children are asked for
      refine ⟨hleads, fun chain hchain => ?_, fun hseparated chain hchain hlength => ?_⟩
      · rcases hleast chain hchain with rfl | hle
        · exact Nat.le_refl _
        · simpa using hle
      · -- where the nodes are told apart, sorting fixes the order, and the chain found is the first
        have hchildren : (fun a => sortNodes (order a)) = g.children :=
          funext fun a => sortNodes_children hseparated hsorted a (ho a)
        have hb : g.Favours (fun a => sortNodes (order a)) ChainPrecedes := by
          rw [hchildren]
          exact favours_chainPrecedes (precedes_of_separated hseparated hsorted)
        rcases findBy_cases hb ho hn with ⟨first, hfirst, _, hearliest⟩ | ⟨hnone, _⟩
        · obtain rfl : found = first := Option.some.inj (hfound.symm.trans hfirst)
          refine (hearliest chain hchain).imp_right fun hcomes => ?_
          unfold ChainPrecedes at hcomes
          rw [List.reverse_reverse, List.reverse_reverse] at hcomes
          exact (List.shortlex_iff_lex hlength.symm).mp hcomes
        · exact absurd (hfound.symm.trans hnone) (by simp)
    · obtain ⟨chain, hchain⟩ := hreached
      exact absurd hchain (hnone chain)
  · intro hunreached
    rw [pathBy_eq hn]
    rcases findBy_cases (favours_length g _) ho hn with ⟨found, _, hleads, _⟩ | ⟨hnone, _⟩
    · exact absurd ⟨found, hleads⟩ hunreached
    · rw [hnone, Option.getD_none]

/-- Two ways lead from `app` to `shared`, which leads back to `left` and to itself. -/
def diamond : Graph where
  nodes := [⟨"app", .release 1 0 0, pathSource, true⟩, ⟨"left", .release 1 0 0, "registry", false⟩,
    ⟨"right", .release 1 0 0, "registry", false⟩, ⟨"shared", .release 1 0 0, "registry", false⟩]
  links :=
    [("app", pathSource, "left"), ("app", pathSource, "right"), ("left", "registry", "shared"),
      ("right", "registry", "shared"), ("shared", "registry", "left"),
      ("shared", "registry", "shared")].map fun e =>
        (⟨e.1, ⟨1, 0, 0, []⟩, e.2.1⟩, ⟨e.2.2, ⟨1, 0, 0, []⟩, "registry"⟩)
  distinct := by decide
  joined := by decide

/-- The way over `left` is the first of the two. -/
theorem shortest_chain_diamond :
    Graph.of diamond.nodes diamond.edges = .ok diamond ∧
    (diamond.pathTo ⟨"shared", .release 1 0 0, "registry", false⟩).map (·.name) =
      ["app", "left", "shared"] ∧
    ∀ chain, diamond.Leads chain ⟨"shared", .release 1 0 0, "registry", false⟩ →
      3 ≤ chain.length := by
  -- sorting leaves the nodes as they stand, so the constructor gives this graph
  have hmade : Graph.of diamond.nodes diamond.edges = .ok diamond := by
    obtain ⟨⟨nodes, links, _, _⟩, hg, hnodes, hlinks⟩ := of_ok diamond.distinct
      (show ∀ e ∈ diamond.edges, _ from by decide)
    rw [sortNodes_of_pairwise (by decide +kernel)] at hnodes
    obtain rfl : nodes = diamond.nodes := hnodes
    obtain rfl : links = diamond.links := hlinks.trans (by decide)
    exact hg
  have hpath : (diamond.pathTo ⟨"shared", .release 1 0 0, "registry", false⟩).map (·.name) =
      ["app", "left", "shared"] := by decide
  obtain ⟨hchildren, _, hreached, _⟩ := shortest_chain hmade (fun _ => .refl _)
    (n := ⟨"shared", .release 1 0 0, "registry", false⟩) (by decide)
  rw [hchildren] at hreached
  refine ⟨hmade, hpath, fun chain hchain => ?_⟩
  have hle := (hreached ⟨chain, hchain⟩).2.1 chain hchain
  rw [← List.length_map (·.name), hpath] at hle
  exact hle

end LockAudit.Lockfile.Graph
