import LockAudit.File.Path
import LockAudit.Proofs.Text.Words
import Mathlib.Data.List.Basic

/-!
# The text of a path

A path is written as its root and its names with slashes between them, so names can be
looked for in the text of a path. A name that is looked for with a slash on either side is
found only where both slashes are: the last name has none after it, and the first name of
a path without a root has none before it.
-/

namespace LockAudit.File.Path

variable {p : Path} {name : String}

/-- The path is one that a text can spell. -/
structure IsSpelled (p : Path) : Prop where
  root : p.root = "" ∨ p.root = "/" ∨ p.root = "//"
  names : ∀ n ∈ p.names, n ≠ "" ∧ '/' ∉ n.toList ∧ n ≠ "."

theorem ofText_isSpelled (s : String) : (ofText s).IsSpelled where
  root := by
    unfold ofText
    simp only
    split <;> simp
  names := by
    intro n hn
    obtain ⟨cs, hcs, rfl⟩ := List.mem_map.mp hn
    obtain ⟨hpiece, hkept⟩ := List.mem_filter.mp hcs
    rw [Bool.and_eq_true, Bool.not_eq_true', List.isEmpty_eq_false_iff, decide_eq_true_iff] at hkept
    rw [String.toList_ofList]
    refine ⟨?_, Text.not_mem_of_mem_splitOn hpiece, ?_⟩
    · exact fun hempty => hkept.1 (String.ofList_eq_empty_iff.mp hempty)
    · exact fun hdot => hkept.2 (String.ofList_injective hdot)

/-- The names that have a slash before them in the text of the path. -/
def slashed (p : Path) : List String := if p.root.isEmpty then p.names.tail else p.names

theorem mem_map_toList {names : List String} :
    name.toList ∈ names.map String.toList ↔ name ∈ names :=
  List.mem_map_of_injective fun _ _ => String.toList_injective

/-- After the root, the pieces of the text are the names. -/
theorem text_pieces (hp : p.IsSpelled) (h : p.names ≠ []) :
    ∃ cs, p.text.toList = p.root.toList ++ cs ∧
      Text.splitOn '/' cs = p.names.map String.toList := by
  have hsome : (p.root.isEmpty && p.names.isEmpty) = false := by simp [h]
  refine ⟨['/'].intercalate (p.names.map String.toList), ?_, ?_⟩
  · unfold text
    rw [hsome, if_neg (by simp), String.toList_append, String.toList_intercalate]
    rfl
  · refine Text.splitOn_intercalate (by simpa using h) fun piece hpiece => ?_
    obtain ⟨n, hn, rfl⟩ := List.mem_map.mp hpiece
    exact (hp.names n hn).2.1

/-- **A name with a slash on either side is looked for** among the names that have one
before them, the last name left out. -/
theorem isInfix_text_iff (hp : p.IsSpelled) (h : p.names ≠ [])
    (hname : name ≠ "" ∧ '/' ∉ name.toList) :
    '/' :: (name.toList ++ ['/']) <:+: p.text.toList ↔ name ∈ p.slashed.dropLast := by
  obtain ⟨cs, htext, hpieces⟩ := text_pieces hp h
  have hslash (cs : List Char) : Text.splitOn '/' ('/' :: cs) = [] :: Text.splitOn '/' cs :=
    if_pos rfl
  rw [Text.isInfix_iff_splitOn hname.2, htext, ← mem_map_toList]
  unfold slashed
  rcases hp.root with hroot | hroot | hroot
  · have hwhole : Text.splitOn '/' (p.root.toList ++ cs) = p.names.map String.toList := by
      rw [hroot]
      exact hpieces
    rw [hwhole, hroot, if_pos (by simp), List.map_dropLast, List.map_tail]
  · have hwhole : Text.splitOn '/' (p.root.toList ++ cs) = [] :: p.names.map String.toList := by
      rw [hroot, ← hpieces]
      exact hslash cs
    rw [hwhole, hroot, if_neg (by decide), List.map_dropLast, List.tail_cons]
  · have hwhole : Text.splitOn '/' (p.root.toList ++ cs) =
        [] :: [] :: p.names.map String.toList := by
      rw [hroot, ← hpieces, ← hslash, ← hslash]
      rfl
    -- the empty name between the two slashes is not the one that is looked for
    have hnil : name.toList ≠ [] := by simpa using hname.1
    have hne : p.names.map String.toList ≠ [] := by simpa using h
    rw [hwhole, hroot, if_neg (by decide), List.map_dropLast, List.tail_cons,
      List.dropLast_cons_of_ne_nil hne, List.mem_cons, or_iff_right hnil]

end LockAudit.File.Path
