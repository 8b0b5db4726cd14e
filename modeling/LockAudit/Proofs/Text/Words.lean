import LockAudit.Proofs.PackageName

/-!
# Texts put together and cut again

References and versions are written by joining pieces with blanks, dots and brackets,
and read by cutting at them. The pieces come back as long as none of them holds what
is cut at: words are found again if they hold no white space, and the pieces between
dots if they hold no dot. A bracket may stand anywhere, even in a word, because what is
looked for is the first one that follows a blank.
-/

namespace LockAudit.Text

variable {sep : Char} {piece cs word : List Char}

/-! ## Pieces between separators -/

theorem splitOn_of_not_mem (h : sep ∉ cs) : splitOn sep cs = [cs] := by
  induction cs with
  | nil => rfl
  | cons c cs ih =>
      rw [List.mem_cons, not_or] at h
      obtain ⟨hc, hcs⟩ := h
      rw [splitOn, if_neg (Ne.symm hc), ih hcs]

theorem splitOn_append (h : sep ∉ piece) (cs : List Char) :
    splitOn sep (piece ++ sep :: cs) = piece :: splitOn sep cs := by
  induction piece with
  | nil => rw [List.nil_append, splitOn, if_pos rfl]
  | cons c piece ih =>
      rw [List.mem_cons, not_or] at h
      obtain ⟨hc, hpiece⟩ := h
      rw [List.cons_append, splitOn, if_neg (Ne.symm hc), ih hpiece]

/-- **Pieces joined by a separator that is in none of them come back.** -/
theorem splitOn_intercalate {pieces : List (List Char)} (hne : pieces ≠ [])
    (h : ∀ piece ∈ pieces, sep ∉ piece) :
    splitOn sep ([sep].intercalate pieces) = pieces := by
  induction pieces with
  | nil => exact absurd rfl hne
  | cons piece pieces ih =>
      rw [List.forall_mem_cons] at h
      obtain ⟨hpiece, hpieces⟩ := h
      cases pieces with
      | nil => rw [List.intercalate_singleton, splitOn_of_not_mem hpiece]
      | cons next pieces =>
          rw [List.intercalate_cons_cons, List.append_assoc, List.singleton_append,
            splitOn_append hpiece, ih (List.cons_ne_nil next pieces) hpieces]

/-- What holds of the separator and in all pieces holds in the pieces joined. -/
theorem forall_mem_intercalate {P : Char → Prop} {pieces : List (List Char)} (hsep : P sep)
    (h : ∀ piece ∈ pieces, ∀ c ∈ piece, P c) : ∀ c ∈ [sep].intercalate pieces, P c := by
  induction pieces with
  | nil => simp
  | cons piece pieces ih =>
      rw [List.forall_mem_cons] at h
      cases pieces with
      | nil =>
          rw [List.intercalate_singleton]
          exact h.1
      | cons next pieces =>
          intro c hc
          rw [List.intercalate_cons_cons, List.append_assoc, List.mem_append, List.mem_append,
            List.mem_singleton] at hc
          rcases hc with hc | rfl | hc
          · exact h.1 c hc
          · exact hsep
          · exact ih h.2 c hc

theorem isInfix_intercalate {pieces : List (List Char)} (h : piece ∈ pieces) :
    piece <:+: [sep].intercalate pieces := by
  induction pieces with
  | nil => exact absurd h (by simp)
  | cons first pieces ih =>
      cases pieces with
      | nil =>
          exact ⟨[], [], by simp [List.mem_singleton.mp h]⟩
      | cons next pieces =>
          rw [List.intercalate_cons_cons]
          rcases List.mem_cons.mp h with rfl | h
          · exact ⟨[], [sep] ++ [sep].intercalate (next :: pieces), by simp⟩
          · exact (ih h).trans (List.suffix_append _ _).isInfix

theorem splitOn_ne_nil (sep : Char) (cs : List Char) : splitOn sep cs ≠ [] := by
  cases cs with
  | nil => simp [splitOn]
  | cons c cs =>
      rw [splitOn]
      split
      · simp
      · split <;> simp

/-- A character that does not separate belongs to the first piece. -/
theorem splitOn_cons {c : Char} (h : c ≠ sep) (cs : List Char) :
    ∃ piece pieces, splitOn sep cs = piece :: pieces ∧
      splitOn sep (c :: cs) = (c :: piece) :: pieces := by
  obtain ⟨piece, pieces, heq⟩ := List.exists_cons_of_ne_nil (splitOn_ne_nil sep cs)
  refine ⟨piece, pieces, heq, ?_⟩
  rw [splitOn, if_neg h, heq]

/-- **The pieces of a text, joined again, are the text.** -/
theorem intercalate_splitOn (sep : Char) (cs : List Char) :
    [sep].intercalate (splitOn sep cs) = cs := by
  induction cs with
  | nil => rfl
  | cons c cs ih =>
      by_cases h : c = sep
      · obtain ⟨piece, pieces, heq⟩ := List.exists_cons_of_ne_nil (splitOn_ne_nil sep cs)
        rw [heq] at ih
        rw [splitOn, if_pos h, heq, List.intercalate_cons_cons, ih, h]
        rfl
      · obtain ⟨piece, pieces, heq, heq'⟩ := splitOn_cons h cs
        rw [heq] at ih
        rw [heq', ← ih]
        cases pieces with
        | nil => simp
        | cons next pieces => simp [List.intercalate_cons_cons]

/-- The pieces on either side of a separator stay what they are. -/
theorem splitOn_append_cons (sep : Char) (before cs : List Char) :
    splitOn sep (before ++ sep :: cs) = splitOn sep before ++ splitOn sep cs := by
  induction before with
  | nil => simp [splitOn]
  | cons c before ih =>
      by_cases h : c = sep
      · rw [List.cons_append, splitOn, if_pos h, ih, splitOn, if_pos h, List.cons_append]
      · obtain ⟨piece, pieces, heq, heq'⟩ := splitOn_cons h before
        rw [List.cons_append, splitOn, if_neg h, ih, heq, heq']
        rfl

theorem head?_splitOn (sep : Char) (cs : List Char) :
    (splitOn sep cs).head? = some (cs.takeWhile (· ≠ sep)) := by
  induction cs with
  | nil => rfl
  | cons c cs ih =>
      by_cases h : c = sep
      · simp [splitOn, h]
      · obtain ⟨piece, pieces, heq, heq'⟩ := splitOn_cons h cs
        rw [heq, List.head?_cons, Option.some.injEq] at ih
        simp [heq', h, ih]

theorem not_mem_of_mem_splitOn (h : piece ∈ splitOn sep cs) : sep ∉ piece := by
  induction cs generalizing piece with
  | nil =>
      rw [List.mem_singleton.mp h]
      simp
  | cons c cs ih =>
      by_cases hc : c = sep
      · rw [splitOn, if_pos hc] at h
        rcases List.mem_cons.mp h with rfl | h
        · simp
        · exact ih h
      · obtain ⟨first, pieces, heq, heq'⟩ := splitOn_cons hc cs
        rw [heq'] at h
        rcases List.mem_cons.mp h with rfl | h
        · have hfirst : sep ∉ first := ih (by rw [heq]; exact List.mem_cons_self)
          simp [Ne.symm hc, hfirst]
        · exact ih (by rw [heq]; exact List.mem_cons_of_mem _ h)

/-- A text begins with a piece and a separator exactly if the piece is the first of
several. -/
theorem isPrefix_iff_splitOn (h : sep ∉ piece) :
    piece ++ [sep] <+: cs ↔ (splitOn sep cs).dropLast.head? = some piece := by
  induction piece generalizing cs with
  | nil =>
      cases cs with
      | nil => simp [splitOn]
      | cons c cs =>
          by_cases hc : c = sep
          · simp [splitOn, hc, splitOn_ne_nil, List.dropLast_cons_of_ne_nil]
          · obtain ⟨first, pieces, _, heq⟩ := splitOn_cons hc cs
            rw [heq]
            cases pieces <;> simp [Ne.symm hc]
  | cons d piece ih =>
      rw [List.mem_cons, not_or] at h
      obtain ⟨hd, hpiece⟩ := h
      cases cs with
      | nil => simp [splitOn]
      | cons c cs =>
          rw [List.cons_append, List.cons_prefix_cons, ih hpiece]
          -- a separator ends the piece where the searched one still goes on
          by_cases hc : c = sep
          · have hne : d ≠ c := fun heq => hd (heq.trans hc).symm
            simp [splitOn, hc, splitOn_ne_nil, List.dropLast_cons_of_ne_nil, hc ▸ hne]
          · obtain ⟨first, pieces, heq, heq'⟩ := splitOn_cons hc cs
            rw [heq, heq']
            cases pieces <;> simp [eq_comm]

/-- **Between two separators stands a piece that is neither the first nor the last.** -/
theorem isInfix_iff_splitOn (h : sep ∉ piece) :
    sep :: (piece ++ [sep]) <:+: cs ↔ piece ∈ (splitOn sep cs).tail.dropLast := by
  induction cs with
  | nil => simp [splitOn]
  | cons c cs ih =>
      rw [List.infix_cons_iff, List.cons_prefix_cons, isPrefix_iff_splitOn h, ih]
      by_cases hc : c = sep
      · -- the piece may be the first one after this separator
        obtain ⟨first, pieces, heq⟩ := List.exists_cons_of_ne_nil (splitOn_ne_nil sep cs)
        rw [splitOn, if_pos hc, heq, List.tail_cons, List.tail_cons]
        cases pieces with
        | nil => simp
        | cons next pieces => simp [hc, eq_comm]
      · obtain ⟨first, pieces, heq, heq'⟩ := splitOn_cons hc cs
        rw [heq', heq]
        simp [Ne.symm hc]

theorem stripList_isInfix (cs : List Char) : stripList cs <:+: cs := by
  have hback : (cs.dropWhile isBlank).reverse.dropWhile isBlank <:+: (cs.dropWhile isBlank).reverse :=
    (List.dropWhile_suffix isBlank).isInfix
  rw [← List.reverse_infix, List.reverse_reverse] at hback
  exact hback.trans (List.dropWhile_suffix isBlank).isInfix

/-! ## Words -/

/-- A text without white space is a word. -/
def IsWord (cs : List Char) : Prop := cs ≠ [] ∧ ∀ c ∈ cs, isBlank c = false

/-- The visible characters of ASCII are no white space. -/
theorem isBlank_visible {c : Char} (h : 33 ≤ c.toNat ∧ c.toNat < 127) : isBlank c = false := by
  unfold isBlank Ranges.contains blankRanges
  simp only [List.any_cons, List.any_nil, Bool.or_eq_false_iff, Bool.and_eq_false_iff,
    decide_eq_false_iff_not, and_true]
  omega

theorem IsWord.isTrimmed (h : IsWord cs) : IsTrimmed cs where
  first := by
    intro c hc
    exact h.2 c (List.mem_of_head? hc)
  last := by
    intro c hc
    exact h.2 c (List.mem_of_getLast? hc)

theorem wordsAfter_append (h : ∀ c ∈ piece, isBlank c = false) (word cs : List Char) :
    wordsAfter word (piece ++ cs) = wordsAfter (piece.reverse ++ word) cs := by
  induction piece generalizing word with
  | nil => rfl
  | cons c piece ih =>
      rw [List.forall_mem_cons] at h
      obtain ⟨hc, hpiece⟩ := h
      rw [List.cons_append, wordsAfter, hc, if_neg (by simp), ih hpiece, List.reverse_cons,
        List.append_assoc]
      rfl

theorem wordsAfter_end (h : IsWord cs) : wordsAfter [] cs = [cs] := by
  have hfinished := wordsAfter_append h.2 [] []
  rw [List.append_nil, List.append_nil] at hfinished
  rw [hfinished, wordsAfter, if_neg (by simp [h.1]), List.reverse_reverse]

theorem wordsAfter_blank (h : IsWord word) (cs : List Char) :
    wordsAfter [] (word ++ ' ' :: cs) = word :: wordsAfter [] cs := by
  have hblank : isBlank ' ' = true := by decide
  rw [wordsAfter_append h.2, List.append_nil, wordsAfter, if_pos hblank, if_neg (by simp [h.1]),
    List.reverse_reverse]

/-- Two words with a blank between them. -/
theorem words_pair {first second : List Char} (hfirst : IsWord first) (hsecond : IsWord second) :
    words (String.ofList (first ++ ' ' :: second)) = [String.ofList first, String.ofList second] := by
  unfold words
  rw [String.toList_ofList, wordsAfter_blank hfirst, wordsAfter_end hsecond]
  rfl

/-- What words are found has no white space in it. -/
theorem wordsAfter_isWord (hword : ∀ c ∈ word, isBlank c = false) :
    ∀ w ∈ wordsAfter word cs, IsWord w := by
  induction cs generalizing word with
  | nil =>
      intro w hw
      rw [wordsAfter] at hw
      split at hw
      · exact absurd hw (by simp)
      · rename_i hne
        rw [List.mem_singleton] at hw
        rw [hw]
        exact ⟨by simpa using hne, fun c hc => hword c (List.mem_reverse.mp hc)⟩
  | cons c cs ih =>
      intro w hw
      rw [wordsAfter] at hw
      split at hw
      · -- a blank ends the word that was being read, if there is one
        split at hw
        · exact ih (by simp) w hw
        · rename_i hne
          rcases List.mem_cons.mp hw with rfl | hw
          · exact ⟨by simpa using hne, fun c hc => hword c (List.mem_reverse.mp hc)⟩
          · exact ih (by simp) w hw
      · rename_i hc
        refine ih ?_ w hw
        rw [List.forall_mem_cons]
        exact ⟨by simpa using hc, hword⟩

theorem isWord_of_mem_words {s w : String} (h : w ∈ words s) : IsWord w.toList := by
  unfold words at h
  obtain ⟨cs, hcs, rfl⟩ := List.mem_map.mp h
  rw [String.toList_ofList]
  exact wordsAfter_isWord (by simp) cs hcs

/-- What words are found stand in the text. -/
theorem wordsAfter_isInfix {w : List Char} (h : w ∈ wordsAfter word cs) :
    w <:+: word.reverse ++ cs := by
  induction cs generalizing word with
  | nil =>
      rw [wordsAfter] at h
      split at h
      · exact absurd h (by simp)
      · exact List.mem_singleton.mp h ▸ (List.prefix_append _ _).isInfix
  | cons c cs ih =>
      have hrest (h : w ∈ wordsAfter [] cs) : w <:+: word.reverse ++ c :: cs :=
        (ih h).trans ((List.suffix_cons c cs).trans (List.suffix_append _ _)).isInfix
      rw [wordsAfter] at h
      split at h
      · split at h
        · exact hrest h
        · rcases List.mem_cons.mp h with rfl | h
          · exact (List.prefix_append _ _).isInfix
          · exact hrest h
      · have hword := ih h
        rwa [List.reverse_cons, List.append_assoc, List.singleton_append] at hword

theorem isInfix_of_mem_words {s w : String} (h : w ∈ words s) : w.toList <:+: s.toList := by
  unfold words at h
  obtain ⟨cs, hcs, rfl⟩ := List.mem_map.mp h
  rw [String.toList_ofList]
  exact wordsAfter_isInfix hcs

/-- A word in lower case is a word. -/
theorem IsWord.lowerAfter (h : IsWord cs) (before : List Char) : IsWord (lowerAfter before cs) := by
  obtain ⟨hne, hblank⟩ := h
  -- no letter has a blank in what it lowers to
  have hchars : ∀ c ∈ Text.lowerAfter before cs, isBlank c = false := by
    clear hne
    induction cs generalizing before with
    | nil => simp [Text.lowerAfter]
    | cons c cs ih =>
        rw [List.forall_mem_cons] at hblank
        obtain ⟨hc, hcs⟩ := hblank
        obtain ⟨image, himage, _, _, hkeep⟩ := lowerAfter_cons before c cs
        intro d hd
        rw [himage, List.mem_append] at hd
        rcases hd with hd | hd
        · exact hkeep hc d hd
        · exact ih (c :: before) hcs d hd
  refine ⟨?_, hchars⟩
  cases cs with
  | nil => exact absurd rfl hne
  | cons c cs =>
      obtain ⟨image, himage, hne', _⟩ := lowerAfter_cons before c cs
      rw [himage]
      exact List.append_ne_nil_of_left_ne_nil hne' _

theorem IsWord.lower {s : String} (h : IsWord s.toList) : IsWord (lower s).toList := by
  unfold Text.lower
  rw [String.toList_ofList]
  exact h.lowerAfter []

/-! ## What stands before a bracket -/

theorem append_of_splitFirst? {sep before after : List Char}
    (h : splitFirst? sep cs = some (before, after)) : before ++ (sep ++ after) = cs := by
  induction cs generalizing before with
  | nil =>
      rw [splitFirst?] at h
      split at h
      · rename_i hempty
        cases h
        rw [List.isEmpty_iff.mp hempty]
        rfl
      · exact absurd h (by simp)
  | cons c cs ih =>
      rw [splitFirst?] at h
      split at h
      · rename_i hprefix
        obtain ⟨rest, hrest⟩ := List.isPrefixOf_iff_prefix.mp hprefix
        cases h
        rw [← hrest, List.drop_left, List.nil_append]
      · obtain ⟨⟨before', after'⟩, hsplit, heq⟩ := Option.map_eq_some_iff.mp h
        cases heq
        rw [List.cons_append, ih hsplit]

/-- A character other than the blank is passed over. -/
theorem splitFirst?_cons {c : Char} (h : c ≠ ' ') (cs : List Char) :
    splitFirst? [' ', '('] (c :: cs) =
      (splitFirst? [' ', '('] cs).map fun (before, after) => (c :: before, after) := by
  rw [splitFirst?, if_neg]
  simp [Ne.symm h]

theorem splitFirst?_append (h : ' ' ∉ piece) (cs : List Char) :
    splitFirst? [' ', '('] (piece ++ cs) =
      (splitFirst? [' ', '('] cs).map fun (before, after) => (piece ++ before, after) := by
  induction piece with
  | nil => simp
  | cons c piece ih =>
      rw [List.mem_cons, not_or] at h
      obtain ⟨hc, hpiece⟩ := h
      rw [List.cons_append, splitFirst?_cons (Ne.symm hc), ih hpiece, Option.map_map]
      rfl

/-- A blank that no bracket follows is passed over as well. -/
theorem splitFirst?_blank (h : cs.head? ≠ some '(') :
    splitFirst? [' ', '('] (' ' :: cs) =
      (splitFirst? [' ', '('] cs).map fun (before, after) => (' ' :: before, after) := by
  rw [splitFirst?, if_neg]
  cases cs with
  | nil => simp
  | cons c cs =>
      have hc : c ≠ '(' := fun heq => h (by rw [heq]; rfl)
      simp [Ne.symm hc]

theorem splitFirst?_bracket (cs : List Char) :
    splitFirst? [' ', '('] (' ' :: '(' :: cs) = some ([], cs) := by
  rw [splitFirst?, if_pos (by simp)]
  rfl

end LockAudit.Text
