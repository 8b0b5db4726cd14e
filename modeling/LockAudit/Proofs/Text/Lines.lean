import LockAudit.Proofs.Text.Words
import LockAudit.Text.Lines
import Mathlib.Data.List.Basic

/-!
# What is left of a text, and on which line

A reader gives back what it has not used up, and that is always an end of the text that it
was given. A reader that gets on leaves less than it was given.

The line on which an end of a document starts is told from the line feeds in it. Where the
document has no other line ends, that is the line that the ends of the lines are counted to
as well.
-/

namespace LockAudit.Text

variable {cs ds rest : List Char}

/-- Something was read from the front of a text, and the rest is left. -/
structure Leaves (cs rest : List Char) : Prop where
  suffix : rest <:+ cs
  less : rest.length < cs.length

theorem Leaves.cons (c : Char) (h : rest <:+ cs) : Leaves (c :: cs) rest where
  suffix := h.trans (List.suffix_cons c cs)
  less := by
    have := h.length_le
    simp only [List.length_cons]
    omega

theorem Leaves.trans (h : Leaves cs ds) (h' : rest <:+ ds) : Leaves cs rest where
  suffix := h'.trans h.suffix
  less := Nat.lt_of_le_of_lt h'.length_le h.less

theorem Leaves.of_suffix (h : ds <:+ cs) (h' : Leaves ds rest) : Leaves cs rest where
  suffix := h'.suffix.trans h
  less := Nat.lt_of_lt_of_le h'.less h.length_le

/-- Taking some characters leaves the others. -/
theorem Leaves.drop {n : Nat} (hn : 0 < n) (h : n ≤ cs.length) : Leaves cs (cs.drop n) where
  suffix := List.drop_suffix n cs
  less := by
    rw [List.length_drop]
    omega

/-! ## Lines -/

theorem newlines_append (cs ds : List Char) : newlines (cs ++ ds) = newlines cs + newlines ds :=
  List.countP_append

theorem newlines_feed (cs : List Char) : newlines ('\n' :: cs) = newlines cs + 1 :=
  List.countP_cons_of_pos (by simp)

theorem lineAt_append (before start : List Char) :
    lineAt (before ++ start) start = newlines before + 1 := by
  rw [lineAt, newlines_append, Nat.add_sub_cancel]

theorem newlines_le (h : rest <:+ cs) : newlines rest ≤ newlines cs := h.sublist.countP_le

theorem newlines_of_not_mem (h : '\n' ∉ cs) : newlines cs = 0 := by
  rw [newlines, List.countP_eq_zero]
  intro c hc heq
  exact h (of_decide_eq_true heq ▸ hc)

theorem length_splitOn (cs : List Char) : (splitOn '\n' cs).length = newlines cs + 1 := by
  induction cs with
  | nil => rfl
  | cons c cs ih =>
      by_cases h : c = '\n'
      · rw [splitOn, if_pos h, List.length_cons, ih, h, newlines_feed]
      · obtain ⟨piece, pieces, heq, heq'⟩ := splitOn_cons h cs
        rw [heq', newlines, List.countP_cons_of_neg (by simpa using h), ← newlines, ← ih, heq]
        rfl

/-- The text starts on a line of the document, counted from none, and takes up the rest of
that line; before it on the line stands something of the given kind. -/
structure StandsOn (gap : Char → Bool) (document start : List Char) (n : Nat) : Prop where
  line : ∃ before, (∀ c ∈ before, gap c = true) ∧
    (splitOn '\n' document)[n]? = some (before ++ start.takeWhile (· ≠ '\n'))
  count : newlines document = n + newlines start

namespace StandsOn

variable {gap : Char → Bool} {document start before : List Char} {n : Nat}

/-- On the first line, behind what may stand there. -/
theorem here (h : ∀ c ∈ before, gap c = true) (hfeed : '\n' ∉ before) (start : List Char) :
    StandsOn gap (before ++ start) start 0 where
  line := by
    refine ⟨before, h, ?_⟩
    rw [← List.head?_eq_getElem?, head?_splitOn, List.takeWhile_append_of_pos]
    intro c hc
    exact decide_eq_true fun heq => hfeed (heq ▸ hc)
  count := by
    rw [newlines_append, newlines_of_not_mem hfeed]

/-- On a later line, if a line goes before. -/
theorem below (before : List Char) (h : StandsOn gap document start n) :
    StandsOn gap (before ++ '\n' :: document) start (newlines before + 1 + n) where
  line := by
    obtain ⟨inner, hinner, hline⟩ := h.line
    refine ⟨inner, hinner, ?_⟩
    rw [splitOn_append_cons, List.getElem?_append_right (by rw [length_splitOn]; omega),
      length_splitOn, Nat.add_sub_cancel_left]
    exact hline
  count := by
    rw [newlines_append, newlines_feed, h.count]
    omega

theorem lineAt_eq (h : StandsOn gap document start n) : lineAt document start = n + 1 := by
  unfold lineAt
  rw [h.count, Nat.add_sub_cancel]

end StandsOn

/-- Where line feeds alone end lines, the lines of a text are those between its line feeds,
only that nothing is counted after the last one. -/
theorem linesAfter_splitOn (line : List Char)
    (h : ∀ c ∈ dropReturns cs, isLineEnd c = true → c = '\n') :
    ∃ piece pieces last, splitOn '\n' (dropReturns cs) = piece :: pieces ∧
      (last = [] ∨ last = [[]]) ∧ (line.reverse ++ piece) :: pieces = linesAfter line cs ++ last := by
  fun_induction linesAfter line cs with
  | case1 line hempty => exact ⟨[], [], [[]], rfl, .inr rfl, by simp [List.isEmpty_iff.mp hempty]⟩
  | case2 line hline => exact ⟨[], [], [], rfl, .inl rfl, by simp⟩
  -- a return before a feed is dropped, and the feed ends the line
  | case3 line cs ih =>
      rw [dropReturns, List.forall_mem_cons] at h
      obtain ⟨piece, pieces, last, hsplit, hlast, hlines⟩ := ih h.2
      refine ⟨[], piece :: pieces, last, ?_, hlast, ?_⟩
      · rw [dropReturns, splitOn, if_pos rfl, hsplit]
      · rw [List.append_nil, List.cons_append, ← hlines]
        rfl
  | case4 line c cs hreturn hend ih =>
      rw [dropReturns.eq_3 c cs hreturn, List.forall_mem_cons] at h
      -- the only line end left is the feed
      obtain rfl := h.1 hend
      obtain ⟨piece, pieces, last, hsplit, hlast, hlines⟩ := ih h.2
      refine ⟨[], piece :: pieces, last, ?_, hlast, ?_⟩
      · rw [dropReturns.eq_3 _ cs hreturn, splitOn, if_pos rfl, hsplit]
      · rw [List.append_nil, List.cons_append, ← hlines]
        rfl
  | case5 line c cs hreturn hend ih =>
      rw [dropReturns.eq_3 c cs hreturn, List.forall_mem_cons] at h
      -- a character of the line goes to the front of the piece that is being cut
      have hfeed : c ≠ '\n' := fun heq => hend (by rw [heq]; rfl)
      obtain ⟨piece, pieces, last, hsplit, hlast, hlines⟩ := ih h.2
      obtain ⟨piece', pieces', heq, heq'⟩ := splitOn_cons hfeed (dropReturns cs)
      rw [hsplit] at heq
      obtain ⟨rfl, rfl⟩ := List.cons.inj heq
      refine ⟨c :: piece, pieces, last, ?_, hlast, ?_⟩
      · rw [dropReturns.eq_3 c cs hreturn, heq']
      · rw [← hlines, List.reverse_cons, List.append_assoc]
        rfl

/-- A line that is not empty has the same number either way. -/
theorem getElem?_lines {n : Nat} {line : List Char} (hline : line ≠ [])
    (h : ∀ c ∈ dropReturns cs, isLineEnd c = true → c = '\n') :
    (lines cs)[n]? = some line ↔ (splitOn '\n' (dropReturns cs))[n]? = some line := by
  obtain ⟨piece, pieces, last, hsplit, hlast, hlines⟩ := linesAfter_splitOn [] h
  rw [List.reverse_nil, List.nil_append] at hlines
  rw [hsplit, hlines, ← lines]
  rcases hlast with rfl | rfl
  · rw [List.append_nil]
  · rw [List.getElem?_append]
    split
    · rfl
    · rename_i hlast
      rw [List.getElem?_eq_none (Nat.le_of_not_lt hlast), List.getElem?_singleton]
      split
      · simp [hline.symm]
      · rfl

end LockAudit.Text
