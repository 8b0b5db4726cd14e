import LockAudit.Proofs.Lockfile.RoundTrip
import Mathlib.Data.List.Perm.Subperm
import Mathlib.Data.Option.Basic

/-!
# A search in the width

The search for a dependency goes through chains. At the front of the queue is the next one
to look at; what its last dependency leads to, and is not known yet, gives new chains at
the end. So each dependency is reached once, by the first chain that came to it, and all
later ones are forgotten. Why is what is kept never worse than what was forgotten?

Because the chains come in order. An order favours the search if shorter chains come first,
if what is linked to the earlier of two chains comes before what is linked to the later,
and if the roots and the children of a dependency are gone through in it. Then the chains,
those that were looked at and those that wait, are in that order from the first to the
last, and a chain that was forgotten comes after the one that was kept. Of two such orders
the first is that by length; the second decides by the order of dependencies between
chains that are equally long.

The children may be gone through in any order, as they come from a set.
-/

namespace LockAudit.Lockfile.Graph

variable {g : Graph} {children : Node → List Node} {before : List Node → List Node → Prop}
  {done queue : List (List Node)} {seen : List NodeKey} {goal : NodeKey} {fuel : Nat}
  {a n r x y : Node} {c d : List Node}

/-! ## Chains -/

/-- A chain of dependencies from a root, written with the last of them in front. -/
inductive IsTrail (g : Graph) : List Node → Prop
  | root {r : Node} (h : r ∈ g.roots) : g.IsTrail [r]
  | link {a x : Node} {c : List Node} (h : g.IsTrail (a :: c)) (hx : x ∈ g.children a) :
      g.IsTrail (x :: a :: c)

theorem roots_sublist (g : Graph) : g.roots.Sublist g.nodes := by
  unfold roots
  simp only
  split
  · exact List.filter_sublist
  · exact List.filter_sublist

theorem IsTrail.mem_nodes (h : g.IsTrail (n :: c)) : n ∈ g.nodes := by
  cases h with
  | root hr => exact (roots_sublist g).subset hr
  | link _ hx => exact (mem_children.mp hx).1

theorem IsTrail.ne_nil (h : g.IsTrail c) : c ≠ [] := by
  cases h with
  | root _ => exact List.cons_ne_nil _ _
  | link _ _ => exact List.cons_ne_nil _ _

/-- Dependencies of a graph are told apart by their keys. -/
theorem eq_of_key (hx : x ∈ g.nodes) (hy : y ∈ g.nodes) (h : x.key = y.key) : x = y :=
  List.inj_on_of_nodup_map g.distinct hx hy h

theorem IsOrder.mem_iff (ho : g.IsOrder children) : x ∈ children a ↔ x ∈ g.children a :=
  (ho a).mem_iff

theorem IsOrder.distinct (ho : g.IsOrder children) (a : Node) :
    ((children a).map (·.key)).Nodup := by
  have hsub : ((g.children a).map (·.key)).Sublist (g.nodes.map (·.key)) :=
    List.filter_sublist.map _
  exact (((ho a).map _).nodup_iff).mpr (hsub.nodup g.distinct)

/-! ## The search -/

/-- The search, if what a dependency depends on is gone through in a given order. -/
def searchBy (children : Node → List Node) (goal : NodeKey) :
    Nat → List (List Node) → List NodeKey → Option (List Node)
  | 0, _, _ => none
  | _, [], _ => none
  | _, [] :: _, _ => none
  | fuel + 1, (current :: rest) :: queue, seen =>
    if current.key = goal then some (current :: rest).reverse
    else
      let next := (children current).filter fun n => !seen.contains n.key
      searchBy children goal fuel (queue ++ next.map fun n => n :: current :: rest)
        (seen ++ next.map (·.key))

/-- The search of a graph goes through the children as they come. -/
theorem search_eq (g : Graph) (goal : NodeKey) (fuel : Nat) (queue : List (List Node))
    (seen : List NodeKey) :
    g.search goal fuel queue seen = searchBy g.children goal fuel queue seen := by
  induction fuel generalizing queue seen with
  | zero => rfl
  | succ fuel ih =>
      match queue with
      | [] => rfl
      | [] :: _ => rfl
      | (current :: rest) :: queue =>
          rw [Graph.search, searchBy]
          simp only [ih]

/-- An order of chains by which the search finds the first of them. -/
structure Favours (g : Graph) (children : Node → List Node)
    (before : List Node → List Node → Prop) : Prop where
  trans : ∀ {c d e : List Node}, before c d → before d e → before c e
  short : ∀ {c d : List Node}, c.length < d.length → before c d
  linked : ∀ {c d : List Node} (x y : Node), before c d → before (x :: c) (y :: d)
  roots : g.roots.Pairwise fun r s => before [r] [s]
  siblings : ∀ a c, (children a).Pairwise fun x y => before (x :: a :: c) (y :: a :: c)

/-- The state of a search: the chains that were looked at, and those that wait. -/
structure Searching (g : Graph) (children : Node → List Node)
    (before : List Node → List Node → Prop) (done queue : List (List Node))
    (seen : List NodeKey) : Prop where
  ordered : (done ++ queue).Pairwise before
  trails : ∀ c ∈ done ++ queue, g.IsTrail c
  /-- A chain was put together from one that was looked at before. -/
  origin : ∀ c ∈ done ++ queue, c.length = 1 ∨ ∃ x, ∃ d ∈ done, c = x :: d
  /-- What is known are the last dependencies of the chains. -/
  heads : (done ++ queue).map (fun c => c.head?.map Node.key) = seen.map some
  distinct : seen.Nodup
  roots : ∀ r ∈ g.roots, [r] ∈ done ++ queue
  /-- Where a chain was looked at, what it leads to is reached by no later chain. -/
  reached : ∀ a c, a :: c ∈ done → ∀ x ∈ children a,
    ∃ d, x :: d ∈ done ++ queue ∧ (x :: d = x :: a :: c ∨ before (x :: d) (x :: a :: c))

namespace Searching

variable {front : List Node}

/-- The search starts with the roots. -/
theorem start (hb : g.Favours children before) :
    g.Searching children before [] (g.roots.map fun r => [r]) (g.roots.map (·.key)) where
  ordered := List.pairwise_map.mpr hb.roots
  trails := by
    intro c hc
    obtain ⟨r, hr, rfl⟩ := List.mem_map.mp hc
    exact .root hr
  origin := by
    intro c hc
    obtain ⟨r, _, rfl⟩ := List.mem_map.mp hc
    exact Or.inl rfl
  heads := by simp
  distinct := ((roots_sublist g).map _).nodup g.distinct
  roots := fun r hr => List.mem_map_of_mem hr
  reached := fun _ _ h => absurd h List.not_mem_nil

theorem mem_seen (h : g.Searching children before done queue seen) {key : NodeKey} :
    key ∈ seen ↔ ∃ x c, x :: c ∈ done ++ queue ∧ x.key = key := by
  have hmem : key ∈ seen ↔ some key ∈ (done ++ queue).map fun c => c.head?.map Node.key := by
    rw [h.heads, List.mem_map_of_injective (Option.some_injective _)]
  rw [hmem, List.mem_map]
  refine ⟨fun ⟨c, hc, hkey⟩ => ?_, fun ⟨x, c, hc, hkey⟩ => ⟨x :: c, hc, by simp [hkey]⟩⟩
  cases c with
  | nil => simp at hkey
  | cons x c => exact ⟨x, c, hc, by simpa using hkey⟩

/-- Each dependency is reached by one chain. -/
theorem unique (h : g.Searching children before done queue seen) (hc : x :: c ∈ done ++ queue)
    (hd : x :: d ∈ done ++ queue) : c = d := by
  have hnodup : ((done ++ queue).map fun c => c.head?.map Node.key).Nodup := by
    rw [h.heads]
    exact h.distinct.map (Option.some_injective _)
  exact (List.cons.inj (List.inj_on_of_nodup_map hnodup hc hd rfl)).2

/-- There are no more chains than dependencies. -/
theorem length_le (h : g.Searching children before done queue seen) :
    done.length + queue.length ≤ g.nodes.length := by
  have hlength : done.length + queue.length = seen.length := by
    have := congrArg List.length h.heads
    simpa using this
  have hsub : seen ⊆ g.nodes.map (·.key) := by
    intro key hkey
    obtain ⟨x, c, hc, rfl⟩ := h.mem_seen.mp hkey
    exact List.mem_map_of_mem (h.trails _ hc).mem_nodes
  have hle := (h.distinct.subperm hsub).length_le
  rw [List.length_map] at hle
  omega

/-- No chain of the search comes after what is linked to the one at the front. -/
theorem before_link (hb : g.Favours children before)
    (h : g.Searching children before done (front :: queue) seen)
    (hd : d ∈ done ++ front :: queue) (x : Node) :
    before d (x :: front) := by
  have hgrown : before front (x :: front) := hb.short (Nat.lt_succ_self _)
  have hordered := List.pairwise_append.mp h.ordered
  rcases List.mem_append.mp hd with hdone | hwaiting
  · exact hb.trans (hordered.2.2 d hdone front List.mem_cons_self) hgrown
  · rcases List.mem_cons.mp hwaiting with rfl | hwaiting
    · exact hgrown
    · -- the chain came from one that was looked at before the one at the front
      rcases h.origin d hd with hone | ⟨y, e, he, rfl⟩
      · have hpos : 0 < front.length := List.length_pos_of_ne_nil (h.trails front (by simp)).ne_nil
        exact hb.short (by rw [hone, List.length_cons]; omega)
      · exact hb.linked y x (hordered.2.2 e he front List.mem_cons_self)

/-- What the chain at the front leads to has been reached already, or is new. -/
theorem reached_front (hb : g.Favours children before) (ho : g.IsOrder children)
    (h : g.Searching children before done ((a :: c) :: queue) seen) (hx : x ∈ children a) :
    (∃ d, x :: d ∈ done ++ (a :: c) :: queue ∧ before (x :: d) (x :: a :: c)) ∨
      x ∈ (children a).filter fun n => !seen.contains n.key := by
  by_cases hseen : x.key ∈ seen
  · obtain ⟨y, d, hd, hkey⟩ := h.mem_seen.mp hseen
    obtain rfl : y = x :=
      eq_of_key (h.trails _ hd).mem_nodes (mem_children.mp (ho.mem_iff.mp hx)).1 hkey
    exact Or.inl ⟨d, hd, h.before_link hb hd y⟩
  · exact Or.inr (List.mem_filter.mpr ⟨hx, by simpa using hseen⟩)

/-- What was looked at and what waits, after one step: as before, and the new chains. -/
theorem append_step (done queue new : List (List Node)) (front : List Node) :
    (done ++ [front]) ++ (queue ++ new) = (done ++ front :: queue) ++ new := by
  simp

/-- **Step.** The chain at the front was looked at, and what it leads to is reached. -/
theorem step (hb : g.Favours children before) (ho : g.IsOrder children)
    (h : g.Searching children before done ((a :: c) :: queue) seen) :
    g.Searching children before (done ++ [a :: c])
      (queue ++ ((children a).filter fun n => !seen.contains n.key).map fun n => n :: a :: c)
      (seen ++ ((children a).filter fun n => !seen.contains n.key).map (·.key)) where
  ordered := by
    -- the new chains come in the order of the siblings, behind all that are queued
    rw [append_step, List.pairwise_append]
    refine ⟨h.ordered, List.pairwise_map.mpr ((hb.siblings a c).sublist List.filter_sublist), ?_⟩
    intro d hd new hnew
    obtain ⟨x, _, rfl⟩ := List.mem_map.mp hnew
    exact h.before_link hb hd x
  trails := by
    rw [append_step, List.forall_mem_append]
    refine ⟨h.trails, fun new hnew => ?_⟩
    obtain ⟨x, hx, rfl⟩ := List.mem_map.mp hnew
    -- a child that is asked for is linked to the front of the chain
    exact .link (h.trails _ (by simp)) (ho.mem_iff.mp (List.mem_filter.mp hx).1)
  origin := by
    rw [append_step, List.forall_mem_append]
    refine ⟨fun d hd => ?_, fun new hnew => ?_⟩
    · -- what was queued comes from where it came, and the rest from the chain just taken
      rcases h.origin d hd with hone | ⟨x, e, he, rfl⟩
      · exact Or.inl hone
      · exact Or.inr ⟨x, e, List.mem_append_left _ he, rfl⟩
    · obtain ⟨x, _, rfl⟩ := List.mem_map.mp hnew
      exact Or.inr ⟨x, a :: c, by simp, rfl⟩
  heads := by
    rw [append_step, List.map_append, h.heads, List.map_append, List.map_map, List.map_map]
    rfl
  distinct := by
    rw [List.nodup_append]
    refine ⟨h.distinct, (List.filter_sublist.map _).nodup (ho.distinct a), ?_⟩
    -- only children that were not seen are queued
    intro key hkey key' hnew heq
    obtain ⟨x, hx, rfl⟩ := List.mem_map.mp hnew
    have hfresh := (List.mem_filter.mp hx).2
    rw [← heq] at hfresh
    simp [hkey] at hfresh
  roots := by
    rw [append_step]
    exact fun r hr => List.mem_append_left _ (h.roots r hr)
  reached := by
    rw [append_step]
    intro b d hbd x hx
    rcases List.mem_append.mp hbd with hbd | hbd
    · -- what was taken before has its chain already
      obtain ⟨e, he, hle⟩ := h.reached b d hbd x hx
      exact ⟨e, List.mem_append_left _ he, hle⟩
    · -- a child of the chain just taken was reached earlier, or is queued now
      obtain ⟨rfl, rfl⟩ := List.cons.inj (List.mem_singleton.mp hbd)
      rcases h.reached_front hb ho hx with ⟨e, he, hlt⟩ | hnew
      · exact ⟨e, List.mem_append_left _ he, Or.inr hlt⟩
      · exact ⟨b :: d, List.mem_append_right _ (List.mem_map_of_mem hnew), Or.inl rfl⟩

/-- **What was forgotten is no better.** To the end of every chain there is one that comes
no later, or some chain that comes earlier waits to be looked at. -/
theorem covers (hb : g.Favours children before) (ho : g.IsOrder children)
    (h : g.Searching children before done queue seen) (hn : g.IsTrail (n :: d)) :
    (∃ e, n :: e ∈ done ++ queue ∧ (n :: e = n :: d ∨ before (n :: e) (n :: d))) ∨
      ∃ e ∈ queue, before e (n :: d) := by
  generalize htrail : n :: d = trail at hn
  induction hn generalizing n d with
  | root hr =>
      obtain ⟨rfl, rfl⟩ := List.cons.inj htrail
      exact Or.inl ⟨[], h.roots n hr, Or.inl rfl⟩
  | @link a x c _ hx ih =>
      obtain ⟨rfl, rfl⟩ := List.cons.inj htrail
      have hgrown : before (a :: c) (n :: a :: c) := hb.short (Nat.lt_succ_self _)
      rcases ih rfl with ⟨e, he, hle⟩ | ⟨e, he, hlt⟩
      · have hearlier : before (a :: e) (n :: a :: c) := by
          rcases hle with heq | hlt
          · rw [heq]
            exact hgrown
          · exact hb.trans hlt hgrown
        rcases List.mem_append.mp he with he | he
        · -- that chain was looked at, so it led to the dependency as well
          obtain ⟨e', he', hle'⟩ := h.reached a e he n (ho.mem_iff.mpr hx)
          refine Or.inl ⟨e', he', ?_⟩
          rcases hle with heq | hlt
          · rwa [heq] at hle'
          · rcases hle' with heq' | hlt'
            · exact Or.inr (by rw [heq']; exact hb.linked n n hlt)
            · exact Or.inr (hb.trans hlt' (hb.linked n n hlt))
        · exact Or.inr ⟨a :: e, he, hearlier⟩
      · exact Or.inr ⟨e, he, hb.trans hlt hgrown⟩

end Searching

/-- What a search ends with: the first of all chains to the dependency with the key, or
nothing if there are none. -/
def IsFirst (g : Graph) (before : List Node → List Node → Prop) (goal : NodeKey) :
    Option (List Node) → Prop
  | some chain => ∃ a c, chain = (a :: c).reverse ∧ a.key = goal ∧ g.IsTrail (a :: c) ∧
      ∀ n d, n.key = goal → g.IsTrail (n :: d) → a :: c = n :: d ∨ before (a :: c) (n :: d)
  | none => ∀ n d, n.key = goal → ¬ g.IsTrail (n :: d)

/-- With nothing left to look at, the dependency was not reached. -/
theorem Searching.exhausted (hb : g.Favours children before) (ho : g.IsOrder children)
    (h : g.Searching children before done [] seen)
    (hdone : ∀ a c, a :: c ∈ done → a.key ≠ goal) :
    g.IsFirst before goal none := by
  intro n d hkey hn
  rcases h.covers hb ho hn with ⟨e, he, _⟩ | ⟨e, he, _⟩
  · rw [List.append_nil] at he
    exact hdone n e he hkey
  · exact absurd he List.not_mem_nil

/-- The first chain that ends at the dependency is the one at the front. -/
theorem Searching.found (hb : g.Favours children before) (ho : g.IsOrder children)
    (h : g.Searching children before done ((a :: c) :: queue) seen) (hgoal : a.key = goal) :
    g.IsFirst before goal (some (a :: c).reverse) := by
  have hfront : a :: c ∈ done ++ (a :: c) :: queue := by simp
  refine ⟨a, c, rfl, hgoal, h.trails _ hfront, fun n d hkey hn => ?_⟩
  obtain rfl : n = a :=
    eq_of_key hn.mem_nodes (h.trails _ hfront).mem_nodes (hkey.trans hgoal.symm)
  rcases h.covers hb ho hn with ⟨e, he, hle⟩ | ⟨e, he, hlt⟩
  · rwa [h.unique hfront he]
  · rcases List.mem_cons.mp he with rfl | he
    · exact Or.inr hlt
    · have hordered := (List.pairwise_append.mp h.ordered).2.1
      exact Or.inr (hb.trans (List.rel_of_pairwise_cons hordered he) hlt)

/-- **Run.** The search ends with the first of all chains, if it is let go on for as many
steps as there are dependencies. -/
theorem Searching.run (hb : g.Favours children before) (ho : g.IsOrder children)
    (h : g.Searching children before done queue seen)
    (hdone : ∀ a c, a :: c ∈ done → a.key ≠ goal)
    (hfuel : g.nodes.length ≤ fuel + done.length) :
    g.IsFirst before goal (searchBy children goal fuel queue seen) := by
  induction fuel generalizing done queue seen with
  | zero =>
      -- a node is done once only, so without fuel all are done and nothing is queued
      have hlength := h.length_le
      obtain rfl : queue = [] := List.length_eq_zero_iff.mp (by omega)
      exact h.exhausted hb ho hdone
  | succ fuel ih =>
      match queue with
      | [] => exact h.exhausted hb ho hdone
      | [] :: _ => exact absurd rfl (h.trails [] (by simp)).ne_nil
      | (a :: c) :: queue =>
          rw [searchBy]
          split
          · rename_i hgoal
            exact h.found hb ho hgoal
          · rename_i hgoal
            refine ih (h.step hb ho) ?_ (by rw [List.length_append, List.length_singleton]; omega)
            intro b d hbd
            rcases List.mem_append.mp hbd with hbd | hbd
            · exact hdone b d hbd
            · obtain ⟨rfl, rfl⟩ := List.cons.inj (List.mem_singleton.mp hbd)
              exact hgoal

end LockAudit.Lockfile.Graph
