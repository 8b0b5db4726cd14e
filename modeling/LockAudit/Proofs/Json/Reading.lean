import LockAudit.Json.Decode
import LockAudit.Proofs.Number.Integer
import LockAudit.Proofs.Result
import LockAudit.Proofs.Text.Lines
import Mathlib.Data.List.DropRight

/-!
# How far a value reaches

The readers are bounded by a number that the text is measured against. The bound is never
what a reader stops at: a value uses up at least one character, and so does each thing
between two values, so twice the length of the text is enough. A value that is read with
some bound is therefore the value that `readFirst` finds.
-/

namespace LockAudit.Json

open Text (Leaves)

variable {cs rest : List Char} {v : Value}

theorem skip_suffix (cs : List Char) : skip cs <:+ cs := List.dropWhile_suffix _

theorem skip_skip (cs : List Char) : skip (skip cs) = skip cs := List.dropWhile_idempotent _ cs

theorem skip_of_head (h : ∀ c ∈ cs.head?, isSpace c = false) : skip cs = cs := by
  cases cs with
  | nil => rfl
  | cons c cs =>
      have hc : ¬ isSpace c = true := by rw [h c rfl]; simp
      exact List.dropWhile_cons_of_neg hc

/-- What stands after the first character that is not white space. -/
theorem after_skip {c : Char} (h : skip cs = c :: rest) : Leaves cs rest :=
  (Leaves.cons c (List.suffix_refl rest)).of_suffix (h ▸ skip_suffix cs)

/-! ## Every reader gets on -/

theorem readChars_leaves {start read chars : List Char} {pending : Option Nat}
    (h : readChars start pending read cs = .ok (chars, rest)) : Leaves cs rest := by
  fun_induction readChars start pending read cs with
  | case2 =>
      cases h
      exact .cons _ (List.suffix_refl _)
  | case6 pending read a b c d rest' hmore n hunit pending' read' hadd ih =>
      exact (ih h).of_suffix (List.suffix_append ['\\', 'u', a, b, c, d] _)
  | case8 pending read c rest' hshort hc e hescape ih =>
      exact (ih h).of_suffix (List.suffix_append ['\\', c] _)
  | case11 pending read c rest' hquote hlast hunit hescape hc ih =>
      exact .cons _ (ih h).suffix
  | _ => exact absurd h (by simp)

theorem readString_leaves {s : String} (h : readString cs = .ok (s, rest)) : Leaves cs rest := by
  obtain ⟨⟨chars, rest'⟩, hchars, h⟩ := Result.bind_ok.mp h
  cases h
  exact readChars_leaves hchars

theorem takeWhole_leaves {digits : List Char} (h : takeWhole cs = some (digits, rest)) :
    Leaves cs rest := by
  unfold takeWhole at h
  split at h
  · cases h
    exact .cons _ (List.suffix_refl _)
  · dsimp only at h
    split at h
    · exact absurd h (by simp)
    · rename_i hempty
      cases h
      rw [List.isEmpty_iff] at hempty
      exact .drop (List.length_pos_iff.mpr hempty) (List.takeWhile_prefix _).length_le

theorem takeFraction_suffix (cs : List Char) : (takeFraction cs).2 <:+ cs := by
  unfold takeFraction
  split
  · dsimp only
    split
    · exact List.suffix_refl _
    · exact (List.drop_suffix _ _).trans (List.suffix_cons _ _)
  · exact List.suffix_refl _

theorem takeExponent_suffix (cs : List Char) : (takeExponent cs).2 <:+ cs := by
  unfold takeExponent
  split
  · dsimp only
    split
    · split
      · exact List.suffix_refl _
      · exact ((List.drop_suffix _ _).trans (Number.takeSign_suffix _)).trans (List.suffix_cons _ _)
    · exact List.suffix_refl _
  · exact List.suffix_refl _

theorem readNumber_leaves (h : readNumber cs = .ok (v, rest)) : Leaves cs rest := by
  unfold readNumber at h
  dsimp only at h
  split at h
  · exact absurd h (by simp)
  · rename_i digits after hwhole
    have hdigits : Leaves cs after := by
      split at hwhole
      · exact .cons _ (takeWhole_leaves hwhole).suffix
      · exact takeWhole_leaves hwhole
    have hafter : Leaves cs (takeExponent (takeFraction after).2).2 :=
      hdigits.trans ((takeExponent_suffix _).trans (takeFraction_suffix _))
    split at h
    · split at h
      · cases h
        exact hafter
      · exact absurd h (by simp)
    · cases h
      exact hafter

theorem readScalar_leaves (h : readScalar cs = .ok (v, rest)) : Leaves cs rest := by
  unfold readScalar at h
  split at h
  · rename_i name value hfind
    cases h
    have hmem := List.mem_of_find?_eq_some hfind
    have hprefix : name.toList <+: cs := by simpa using List.find?_some hfind
    have hpositive : ∀ l ∈ literals, 0 < l.1.length := by decide
    exact .drop (hpositive _ hmem) hprefix.length_le
  · exact readNumber_leaves h

/-- **What is read is used up.** By induction on the bound, for the three readers at
once. -/
theorem read_leaves (fuel : Nat) :
    (∀ cs v rest, readValue fuel cs = .ok (v, rest) → Leaves cs rest) ∧
    (∀ read cs v rest, readItems fuel read cs = .ok (v, rest) → Leaves cs rest) ∧
    (∀ read cs v rest, readFields fuel read cs = .ok (v, rest) → Leaves cs rest) := by
  induction fuel with
  | zero => simp [readValue, readItems, readFields]
  | succ fuel ih =>
      obtain ⟨ihValue, ihItems, ihFields⟩ := ih
      refine ⟨?_, ?_, ?_⟩
      · intro cs v rest h
        unfold readValue at h
        split at h
        · -- a text ends behind its closing quote
          obtain ⟨⟨s, rest'⟩, hs, h⟩ := Result.bind_ok.mp h
          cases h
          exact .cons _ (readString_leaves hs).suffix
        · -- a table ends at once, or behind its fields
          split at h
          · rename_i hclose
            cases h
            exact .cons _ (after_skip hclose).suffix
          · exact .cons _ ((ihFields _ _ _ _ h).suffix.trans (skip_suffix _))
        · -- a list ends at once, or behind its items
          split at h
          · rename_i hclose
            cases h
            exact .cons _ (after_skip hclose).suffix
          · exact .cons _ ((ihItems _ _ _ _ h).suffix.trans (skip_suffix _))
        · exact readScalar_leaves h
      · intro read cs v rest h
        unfold readItems at h
        obtain ⟨⟨item, after⟩, hitem, h⟩ := Result.bind_ok.mp h
        -- the item leaves less, and what comes behind it no more than that
        have hitem := ihValue _ _ _ hitem
        dsimp only at h
        split at h
        · rename_i hclose
          cases h
          exact hitem.trans (after_skip hclose).suffix
        · rename_i hcomma
          have hmore := (ihItems _ _ _ _ h).suffix.trans (skip_suffix _)
          exact hitem.trans (hmore.trans (after_skip hcomma).suffix)
        · exact absurd h (by simp)
      · intro read cs v rest h
        unfold readFields at h
        split at h
        · obtain ⟨⟨name, after⟩, hname, h⟩ := Result.bind_ok.mp h
          -- the name may leave what it likes: the value behind the colon leaves less
          have hname := (readString_leaves hname).suffix
          dsimp only at h
          split at h
          · rename_i hcolon
            obtain ⟨⟨value, after'⟩, hvalue, h⟩ := Result.bind_ok.mp h
            have hvalue : Leaves after after' :=
              (ihValue _ _ _ hvalue).of_suffix ((skip_suffix _).trans (after_skip hcolon).suffix)
            dsimp only at h
            split at h
            · rename_i hclose
              cases h
              exact .cons _ (((after_skip hclose).suffix.trans hvalue.suffix).trans hname)
            · rename_i hcomma
              have hmore := (ihFields _ _ _ _ h).suffix.trans (skip_suffix _)
              have hrest := (hmore.trans (after_skip hcomma).suffix).trans hvalue.suffix
              exact .cons _ (hrest.trans hname)
            · exact absurd h (by simp)
          · exact absurd h (by simp)
        · exact absurd h (by simp)

/-! ## The bound does not matter -/

/-- **A bound of twice the length is enough.** What is read with any bound is read with
every bound that is as large as this. -/
theorem read_stable (fuel : Nat) :
    (∀ cs v rest, readValue fuel cs = .ok (v, rest) →
      ∀ bound, 2 * cs.length ≤ bound → readValue bound cs = .ok (v, rest)) ∧
    (∀ read cs v rest, readItems fuel read cs = .ok (v, rest) →
      ∀ bound, 2 * cs.length < bound → readItems bound read cs = .ok (v, rest)) ∧
    (∀ read cs v rest, readFields fuel read cs = .ok (v, rest) →
      ∀ bound, 2 * cs.length < bound → readFields bound read cs = .ok (v, rest)) := by
  induction fuel with
  | zero => simp [readValue, readItems, readFields]
  | succ fuel ih =>
      obtain ⟨ihValue, ihItems, ihFields⟩ := ih
      refine ⟨?_, ?_, ?_⟩
      · intro cs v rest h bound hbound
        -- a value takes at least one character, so any bound that is large enough is positive
        have hless := ((read_leaves _).1 _ _ _ h).less
        obtain ⟨bound, rfl⟩ : ∃ n, bound = n + 1 := ⟨bound - 1, by omega⟩
        unfold readValue at h ⊢
        split at h
        · exact h
        · -- a table: its fields stand in a shorter text
          rename_i inner
          have hinner := (skip_suffix inner).length_le
          simp only [List.length_cons] at hbound
          split at h
          · exact h
          · exact ihFields _ _ _ _ h _ (by omega)
        · -- a list: the same for its items
          rename_i inner
          have hinner := (skip_suffix inner).length_le
          simp only [List.length_cons] at hbound
          split at h
          · exact h
          · exact ihItems _ _ _ _ h _ (by omega)
        · exact h
      · intro read cs v rest h bound hbound
        obtain ⟨bound, rfl⟩ : ∃ n, bound = n + 1 := ⟨bound - 1, by omega⟩
        unfold readItems at h ⊢
        obtain ⟨⟨item, after⟩, hitem, h⟩ := Result.bind_ok.mp h
        -- the item leaves less of the text, and the bound falls by no more than that
        have hless := ((read_leaves _).1 _ _ _ hitem).less
        refine Result.bind_ok.mpr ⟨(item, after), ihValue _ _ _ hitem _ (by omega), ?_⟩
        dsimp only at h ⊢
        split at h
        · exact h
        · rename_i more hcomma
          have hmore := (after_skip hcomma).less
          have hskip := (skip_suffix more).length_le
          exact ihItems _ _ _ _ h _ (by omega)
        · exact absurd h (by simp)
      · intro read cs v rest h bound hbound
        obtain ⟨bound, rfl⟩ : ∃ n, bound = n + 1 := ⟨bound - 1, by omega⟩
        unfold readFields at h ⊢
        split at h
        · obtain ⟨⟨name, after⟩, hname, h⟩ := Result.bind_ok.mp h
          -- a field is a name, a colon and a value, and each of the three leaves less
          have hless := (readString_leaves hname).less
          simp only [List.length_cons] at hbound
          refine Result.bind_ok.mpr ⟨(name, after), hname, ?_⟩
          dsimp only at h ⊢
          split at h
          · rename_i inner hcolon
            have hinner := (after_skip hcolon).less
            have hskip := (skip_suffix inner).length_le
            obtain ⟨⟨value, after'⟩, hvalue, h⟩ := Result.bind_ok.mp h
            have hless' := ((read_leaves _).1 _ _ _ hvalue).less
            refine Result.bind_ok.mpr ⟨(value, after'), ihValue _ _ _ hvalue _ (by omega), ?_⟩
            dsimp only at h ⊢
            split at h
            · exact h
            · rename_i more hcomma
              have hmore := (after_skip hcomma).less
              have hskip' := (skip_suffix more).length_le
              exact ihFields _ _ _ _ h _ (by omega)
            · exact absurd h (by simp)
          · exact absurd h (by simp)
        · exact absurd h (by simp)

/-- A value that is read with some bound is the one that stands at the front. -/
theorem readFirst_of_readValue {fuel : Nat} (h : readValue fuel cs = .ok (v, rest)) :
    readFirst cs = .ok (v, rest) :=
  (read_stable fuel).1 _ _ _ h _ (by omega)

end LockAudit.Json
