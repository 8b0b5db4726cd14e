import Mathlib.Data.List.Perm.Basic

/-!
# Sorting and ties

Lists are sorted by comparisons that may find two different things equal. Such ties stay
in the order in which they were given. So a sorted list tells nothing about that order
exactly if it has no ties: `perm_iff` says so for every list.

Ties are also why sorting can be done before or after something else: leaving things
out of a list commutes with sorting it, and a sorted list falls apart into runs of equal
keys, each in the order of the list.
-/

namespace LockAudit.Sorting

variable {α : Type} {cmp : α → α → Ordering} {l l' : List α}

/-- No two different things in the list are equal for the comparison. -/
def Separates (cmp : α → α → Ordering) (l : List α) : Prop :=
  ∀ a ∈ l, ∀ b ∈ l, cmp a b = .eq → a = b

/-- Things are compared by comparing a part of them. -/
theorem transCmp_on {β : Type} (cmp : α → α → Ordering) [Std.TransCmp cmp] (f : β → α) :
    Std.TransCmp fun a b => cmp (f a) (f b) where
  eq_swap := Std.OrientedCmp.eq_swap
  isLE_trans := Std.TransCmp.isLE_trans

section Sorted

variable [Std.TransCmp cmp]

theorem isLE_total (a b : α) : ((cmp a b).isLE || (cmp b a).isLE) = true := by
  have hswap : cmp b a = (cmp a b).swap := Std.OrientedCmp.eq_swap
  rw [hswap]
  cases cmp a b <;> rfl

theorem pairwise_sorted (l : List α) :
    (l.mergeSort fun a b => (cmp a b).isLE).Pairwise fun a b => (cmp a b).isLE = true :=
  List.pairwise_mergeSort (fun _ _ _ => Std.TransCmp.isLE_trans) isLE_total l

/-- Without ties, sorting forgets the order in which things were given. -/
theorem eq_of_perm (h : Separates cmp l) (hperm : l'.Perm l) :
    (l'.mergeSort fun a b => (cmp a b).isLE) = l.mergeSort fun a b => (cmp a b).isLE := by
  have hboth : (l'.mergeSort fun a b => (cmp a b).isLE).Perm
      (l.mergeSort fun a b => (cmp a b).isLE) :=
    ((List.mergeSort_perm l' _).trans hperm).trans (List.mergeSort_perm l _).symm
  refine hboth.eq_of_pairwise ?_ (pairwise_sorted l') (pairwise_sorted l)
  intro a b ha hb hab hba
  have hmem : a ∈ l := hperm.mem_iff.mp (List.mem_mergeSort.mp ha)
  have hmem' : b ∈ l := List.mem_mergeSort.mp hb
  exact h a hmem b hmem' (Std.OrientedCmp.isLE_antisymm hab hba)

/-- Lists in strict order that have the same things in them are the same list. -/
theorem eq_of_mem_iff (hl : l.Pairwise fun a b => cmp a b = .lt)
    (hl' : l'.Pairwise fun a b => cmp a b = .lt) (hmem : ∀ a, a ∈ l ↔ a ∈ l') : l = l' := by
  have hnodup {l : List α} (hl : l.Pairwise fun a b => cmp a b = .lt) : l.Nodup := by
    refine hl.imp fun {a b} hab => ?_
    rintro rfl
    exact absurd ((Std.ReflCmp.compare_self (a := a)).symm.trans hab) (by decide)
  have hperm : l.Perm l' := (List.perm_ext_iff_of_nodup (hnodup hl) (hnodup hl')).mpr hmem
  refine hperm.eq_of_pairwise (fun a b _ _ hab hba => ?_) hl hl'
  have hswap : cmp b a = (cmp a b).swap := Std.OrientedCmp.eq_swap
  rw [hab, hba] at hswap
  exact absurd hswap (by decide)

/-- What ties with a thing stays in the order in which it was given. -/
theorem filter_tied (a : α) (l : List α) :
    (l.mergeSort fun b c => (cmp b c).isLE).filter (fun b => (cmp a b).isEq) =
      l.filter fun b => (cmp a b).isEq := by
  -- the tied things are in order already, whatever their order is
  have hpairwise : (l.filter fun b => (cmp a b).isEq).Pairwise fun b c => (cmp b c).isLE = true := by
    refine List.pairwise_of_forall_mem_list fun b hb c hc => ?_
    have hab : cmp a b = .eq := Ordering.isEq_iff_eq_eq.mp (List.mem_filter.mp hb).2
    have hac : cmp a c = .eq := Ordering.isEq_iff_eq_eq.mp (List.mem_filter.mp hc).2
    rw [Std.TransCmp.congr_left (Std.OrientedCmp.eq_symm hab), hac]
    rfl
  have hsub := List.sublist_mergeSort (fun _ _ _ => Std.TransCmp.isLE_trans) isLE_total
    hpairwise List.filter_sublist
  have hsub' := hsub.filter fun b => (cmp a b).isEq
  rw [List.filter_filter] at hsub'
  simp only [Bool.and_self] at hsub'
  refine (hsub'.eq_of_length ?_).symm
  exact (((List.mergeSort_perm l _).filter _).length_eq).symm

/-- **A sorted list is the same for every order of its things exactly if it has no
ties.** -/
theorem perm_iff :
    (∀ l' : List α, l'.Perm l →
      (l'.mergeSort fun a b => (cmp a b).isLE) = l.mergeSort fun a b => (cmp a b).isLE) ↔
      Separates cmp l := by
  refine ⟨?_, ?_⟩
  · intro h a ha b hb hab
    -- with either of the two in front, the tied things begin with it
    have hfront : ∀ c, c ∈ l → cmp a c = .eq →
        ((l.mergeSort fun a b => (cmp a b).isLE).filter fun b => (cmp a b).isEq).head? = some c := by
      intro c hc hac
      obtain ⟨before, after, rfl⟩ := List.append_of_mem hc
      have htied : (cmp a c).isEq = true := Ordering.isEq_iff_eq_eq.mpr hac
      rw [← h (c :: (before ++ after)) List.perm_middle.symm, filter_tied, List.filter_cons,
        if_pos htied, List.head?_cons]
    have hself : cmp a a = .eq := Std.ReflCmp.compare_self
    exact Option.some.inj ((hfront a ha hself).symm.trans (hfront b hb hab))
  · intro h l' hperm
    exact eq_of_perm h hperm

omit [Std.TransCmp cmp] in
/-- A list falls in two parts by a test in one way only. -/
theorem parts_unique {q : α → Bool} {before after before' after' : List α}
    (h : before ++ after = before' ++ after') (hbefore : ∀ b ∈ before, q b = true)
    (hafter : ∀ b ∈ after, q b = false) (hbefore' : ∀ b ∈ before', q b = true)
    (hafter' : ∀ b ∈ after', q b = false) :
    before = before' ∧ after = after' := by
  have hfront : ∀ {xs ys : List α}, (∀ b ∈ xs, q b = true) → (∀ b ∈ ys, q b = false) →
      (xs ++ ys).filter q = xs := by
    intro xs ys hxs hys
    have hnone : ys.filter q = [] :=
      List.filter_eq_nil_iff.mpr fun b hb hq => Bool.noConfusion ((hys b hb).symm.trans hq)
    rw [List.filter_append, List.filter_eq_self.mpr hxs, hnone, List.append_nil]
  have heq : before = before' := by
    rw [← hfront hbefore hafter, h, hfront hbefore' hafter']
  refine ⟨heq, ?_⟩
  rw [heq] at h
  exact List.append_cancel_left h

theorem isLE_of_mergeSort {a : α} {before after : List α} {l : List α}
    (h : (l.mergeSort fun a b => (cmp a b).isLE) = before ++ a :: after) :
    ∀ b ∈ after, (!(cmp a b).isLE) = false := by
  intro b hb
  have hsorted : (l.mergeSort fun a b => (cmp a b).isLE).Pairwise _ := pairwise_sorted l
  rw [h, List.pairwise_append, List.pairwise_cons] at hsorted
  rw [hsorted.2.1.1 b hb]
  rfl

/-- **Sorting commutes with leaving things out.** -/
theorem filter_mergeSort (p : α → Bool) (l : List α) :
    (l.mergeSort fun a b => (cmp a b).isLE).filter p =
      (l.filter p).mergeSort fun a b => (cmp a b).isLE := by
  have htrans : ∀ a b c, (cmp a b).isLE = true → (cmp b c).isLE = true → (cmp a c).isLE = true :=
    fun _ _ _ => Std.TransCmp.isLE_trans
  induction l with
  | nil => simp
  | cons a l ih =>
      obtain ⟨before, after, hcons, hsort, hless⟩ := List.mergeSort_cons htrans isLE_total a l
      cases hp : p a with
      | false =>
          rw [List.filter_cons_of_neg (by simp [hp]), ← ih, hcons, hsort]
          simp [hp]
      | true =>
          obtain ⟨before', after', hcons', hsort', hless'⟩ :=
            List.mergeSort_cons htrans isLE_total a (l.filter p)
          rw [List.filter_cons_of_pos hp, hcons', hcons, List.filter_append,
            List.filter_cons_of_pos hp]
          rw [hsort, hsort', List.filter_append] at ih
          -- what is less than the first thing stands before it, on either side
          obtain ⟨hbefore, hafter⟩ := parts_unique ih
            (fun b hb => hless b (List.mem_filter.mp hb).1)
            (fun b hb => isLE_of_mergeSort hcons b (List.mem_filter.mp hb).1)
            hless' (isLE_of_mergeSort hcons')
          rw [hbefore, hafter]

/-! ## Runs of equal keys -/

section Keys

variable {β : Type} {key : β → α} {keys : List α} {items : List β}

omit [Std.TransCmp cmp] in
theorem nodup_eraseDups [DecidableEq α] (l : List α) : l.eraseDups.Nodup := by
  cases l with
  | nil => simp
  | cons a l =>
      rw [List.eraseDups_cons, List.nodup_cons]
      exact ⟨by simp [List.mem_eraseDups], nodup_eraseDups _⟩
termination_by l.length
decreasing_by exact Nat.lt_succ_of_le (List.length_filter_le _ _)

omit [Std.TransCmp cmp] in
/-- Different things in order are in strict order. -/
theorem pairwise_lt [Std.LawfulEqCmp cmp]
    (hsorted : keys.Pairwise fun a b => (cmp a b).isLE = true) (hnodup : keys.Nodup) :
    keys.Pairwise fun a b => cmp a b = .lt := by
  refine (hsorted.and hnodup).imp fun {a b} h => ?_
  rcases Ordering.isLE_iff_eq_lt_or_eq_eq.mp h.1 with hlt | heq
  · exact hlt
  · exact absurd (Std.LawfulEqCmp.eq_of_compare heq) h.2

/-- What has the least key stands in front. -/
theorem filter_append_filter [DecidableEq α] [Std.LawfulEqCmp cmp] {k : α}
    (hsorted : items.Pairwise fun a b => (cmp (key a) (key b)).isLE = true)
    (hleast : ∀ a ∈ items, (cmp k (key a)).isLE = true) :
    items.filter (fun a => key a == k) ++ items.filter (fun a => key a != k) = items := by
  induction items with
  | nil => rfl
  | cons a items ih =>
      rw [List.pairwise_cons] at hsorted
      obtain ⟨hfirst, hsorted⟩ := hsorted
      by_cases h : key a = k
      · rw [List.filter_cons_of_pos (by simp [h]), List.filter_cons_of_neg (by simp [h]),
          List.cons_append, ih hsorted fun b hb => hleast b (List.mem_cons_of_mem a hb)]
      · -- nothing after it can have the key either
        have hnone : items.filter (fun b => key b == k) = [] := by
          rw [List.filter_eq_nil_iff]
          intro b hb hkey
          have hle := hfirst b hb
          rw [beq_iff_eq.mp hkey] at hle
          exact h (Std.LawfulEqCmp.eq_of_compare
            (Std.OrientedCmp.isLE_antisymm hle (hleast a List.mem_cons_self)))
        have hall : items.filter (fun b => key b != k) = items := by
          rw [List.filter_eq_self]
          intro b hb
          exact bne_iff_ne.mpr fun hkey =>
            (List.filter_eq_nil_iff.mp hnone b hb) (beq_iff_eq.mpr hkey)
        rw [List.filter_cons_of_neg (by simp [h]), List.filter_cons_of_pos (by simp [h]), hnone,
          hall]
        rfl

/-- **A list that is sorted by a key is its runs of equal keys, one after the other.** -/
theorem flatMap_filter_key [DecidableEq α] [Std.LawfulEqCmp cmp]
    (hkeys : keys.Pairwise fun a b => cmp a b = .lt)
    (hsorted : items.Pairwise fun a b => (cmp (key a) (key b)).isLE = true)
    (hmem : ∀ a ∈ items, key a ∈ keys) :
    keys.flatMap (fun k => items.filter fun a => key a == k) = items := by
  have hself (k : α) : cmp k k = .eq := Std.ReflCmp.compare_self
  induction keys generalizing items with
  | nil =>
      have hnone : items = [] :=
        List.eq_nil_iff_forall_not_mem.mpr fun a ha => List.not_mem_nil (hmem a ha)
      rw [hnone]
      rfl
  | cons k keys ih =>
      rw [List.pairwise_cons] at hkeys
      obtain ⟨hleast, hkeys⟩ := hkeys
      -- the later keys are those of the items that do not have this one
      have hrest := ih hkeys (hsorted.filter fun a => key a != k) (by
        intro a ha
        obtain ⟨ha, hne⟩ := List.mem_filter.mp ha
        exact (List.mem_cons.mp (hmem a ha)).resolve_left (bne_iff_ne.mp hne))
      -- leaving out the items of `k` takes nothing from a later key, as `k` is less than it
      have hsame : keys.flatMap (fun k' => items.filter fun a => key a == k') =
          keys.flatMap fun k' => (items.filter fun a => key a != k).filter fun a => key a == k' := by
        refine List.flatMap_congr fun k' hk' => ?_
        rw [List.filter_filter]
        refine List.filter_congr fun a _ => ?_
        cases hkey : key a == k' with
        | false => rfl
        | true =>
            have hne : key a ≠ k := by
              rintro rfl
              have hlt := hleast k' hk'
              rw [beq_iff_eq.mp hkey, hself] at hlt
              exact absurd hlt (by simp)
            exact (bne_iff_ne.mpr hne).symm
      rw [List.flatMap_cons, hsame, hrest]
      -- `k` is the least key, so sorted items have those of `k` in front
      have hfront : ∀ a ∈ items, (cmp k (key a)).isLE = true := by
        intro a ha
        rcases List.mem_cons.mp (hmem a ha) with heq | hlater
        · rw [heq, hself]
          rfl
        · rw [hleast _ hlater]
          rfl
      exact filter_append_filter hsorted hfront

end Keys

end Sorted

end LockAudit.Sorting
