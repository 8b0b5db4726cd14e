import LockAudit.File.Glob

/-!
# Patterns that look for a text

A star stands for any text, slashes included, and most characters stand for themselves. So
a pattern that has stars at its ends and no other special characters looks for the text
between them, wherever it stands.
-/

namespace LockAudit.File.Glob

variable {cs ds : List Char} {ps : List Piece}

theorem mem_suffixes : ds ∈ suffixes cs ↔ ds <:+ cs := by
  induction cs with
  | nil => rw [suffixes, List.mem_singleton, List.suffix_nil]
  | cons c cs ih => rw [suffixes, List.mem_cons, ih, List.suffix_cons_iff]

theorem holdsOf_star :
    holdsOf (.star :: ps) cs = true ↔ ∃ rest, rest <:+ cs ∧ holdsOf ps rest = true := by
  rw [holdsOf, List.any_eq_true]
  simp only [mem_suffixes]

/-- Characters that stand for themselves take as much off the text. -/
theorem holdsOf_chars (own : List Char) :
    holdsOf (own.map .char ++ ps) cs = true ↔
      ∃ rest, cs = own ++ rest ∧ holdsOf ps rest = true := by
  induction own generalizing cs with
  | nil => simp
  | cons d own ih =>
      cases cs with
      | nil => simp [holdsOf]
      | cons c cs => simp [holdsOf, Piece.holds, ih, and_assoc]

/-- The character has no special meaning in a pattern. -/
def IsLiteral (c : Char) : Prop := c ≠ '*' ∧ c ≠ '?' ∧ c ≠ '['

theorem piecesWithin_literals {own rest : List Char} {fuel : Nat} (h : ∀ c ∈ own, IsLiteral c) :
    piecesWithin (own.length + fuel) (own ++ rest) = own.map .char ++ piecesWithin fuel rest := by
  induction own with
  | nil => rw [List.length_nil, Nat.zero_add, List.nil_append, List.map_nil, List.nil_append]
  | cons c own ih =>
      rw [List.forall_mem_cons] at h
      obtain ⟨⟨hstar, hany, hset⟩, hown⟩ := h
      rw [List.length_cons, Nat.succ_add, List.cons_append, piecesWithin, if_neg hstar,
        if_neg hany, if_neg hset, ih hown]
      rfl

/-- **With stars around it, a text is looked for.** -/
theorem holds_between {own : String} (h : ∀ c ∈ own.toList, IsLiteral c) (text : String) :
    holds ("*" ++ own ++ "*") text = true ↔ own.toList <:+: text.toList := by
  -- the pattern is a star, the text's own characters and a star
  have hpieces : pieces ("*" ++ own ++ "*") = .star :: (own.toList.map .char ++ [.star]) := by
    have hlength : ("*" ++ own ++ "*").length = own.toList.length + 1 + 1 := by
      rw [← String.length_toList, String.toList_append, String.toList_append]
      simp [Nat.add_comm]
    have hown : piecesWithin (own.toList.length + 1) (own.toList ++ ['*']) =
        own.toList.map .char ++ [.star] := piecesWithin_literals h
    unfold pieces
    rw [hlength, String.toList_append, String.toList_append]
    exact congrArg (Piece.star :: ·) hown
  have hend (rest : List Char) : holdsOf [.star] rest = true :=
    holdsOf_star.mpr ⟨[], List.nil_suffix, rfl⟩
  unfold holds
  rw [hpieces, holdsOf_star]
  simp only [holdsOf_chars, hend, and_true]
  refine ⟨?_, ?_⟩
  · intro h
    obtain ⟨_, ⟨before, hbefore⟩, rest, rfl⟩ := h
    exact ⟨before, rest, by rw [List.append_assoc, hbefore]⟩
  · intro h
    obtain ⟨before, rest, hwhole⟩ := h
    exact ⟨own.toList ++ rest, ⟨before, by rw [← List.append_assoc, hwhole]⟩, rest, rfl⟩

end LockAudit.File.Glob
