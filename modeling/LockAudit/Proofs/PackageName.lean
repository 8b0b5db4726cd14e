import LockAudit.PackageName
import LockAudit.Proofs.Text.Lower

/-!
# Looking names up

A name in the form in which it is looked up is already in that form. So it makes no
difference whether an index is asked by the name of a dependency or by the name of
the group that the dependency is in.
-/

namespace LockAudit

/-! ## White space at the ends -/

namespace Text

/-- A text neither begins nor ends with white space. -/
structure IsTrimmed (cs : List Char) : Prop where
  first : ∀ c ∈ cs.head?, isBlank c = false
  last : ∀ c ∈ cs.getLast?, isBlank c = false

variable {cs : List Char}

theorem head?_dropWhile_isBlank (cs : List Char) :
    ∀ c ∈ (cs.dropWhile isBlank).head?, isBlank c = false := by
  intro c hc
  have hfirst := List.head?_dropWhile_not isBlank cs
  rw [Option.mem_def.mp hc] at hfirst
  simpa using hfirst

/-- What is dropped at the start of a text does not change its end. -/
theorem getLast?_dropWhile_isBlank (cs : List Char) (c : Char)
    (hc : c ∈ (cs.dropWhile isBlank).getLast?) :
    c ∈ cs.getLast? := by
  induction cs with
  | nil => exact hc
  | cons d cs ih =>
      rw [List.dropWhile_cons] at hc
      split at hc
      · have hlast : cs.getLast? = some c := ih hc
        rw [List.getLast?_cons, hlast]
        rfl
      · exact hc

theorem stripList_isTrimmed (cs : List Char) : IsTrimmed (stripList cs) where
  first := by
    intro c hc
    unfold stripList at hc
    rw [List.head?_reverse] at hc
    -- the second trimming works on the reverse, so its end is the first trimming's start
    have hlast := getLast?_dropWhile_isBlank _ c hc
    rw [List.getLast?_reverse] at hlast
    exact head?_dropWhile_isBlank cs c hlast
  last := by
    intro c hc
    unfold stripList at hc
    rw [List.getLast?_reverse] at hc
    exact head?_dropWhile_isBlank _ c hc

theorem dropWhile_isBlank (h : ∀ c ∈ cs.head?, isBlank c = false) : cs.dropWhile isBlank = cs := by
  cases cs with
  | nil => rfl
  | cons c cs => rw [List.dropWhile_cons_of_neg]; simpa using h c rfl

theorem IsTrimmed.stripList_eq (h : IsTrimmed cs) : stripList cs = cs := by
  have hlast : ∀ c ∈ cs.reverse.head?, isBlank c = false := by
    rw [List.head?_reverse]
    exact h.last
  unfold stripList
  rw [dropWhile_isBlank h.first, dropWhile_isBlank hlast, List.reverse_reverse]

/-- Lower case leaves the end of a text free of white space. -/
theorem lowerAfter_last (before : List Char) (h : ∀ c ∈ cs.getLast?, isBlank c = false) :
    ∀ c ∈ (lowerAfter before cs).getLast?, isBlank c = false := by
  induction cs generalizing before with
  | nil => exact h
  | cons c cs ih =>
      obtain ⟨image, himage, hne, _, hblank⟩ := lowerAfter_cons before c cs
      intro d hd
      rw [himage, List.getLast?_append] at hd
      cases cs with
      | nil =>
          have hmem : d ∈ image := List.mem_of_getLast? hd
          exact hblank (h c rfl) d hmem
      | cons c' cs =>
          -- something is left of the rest of the text, so the end is found there
          have hrest : lowerAfter (c :: before) (c' :: cs) ≠ [] := by
            obtain ⟨image', himage', hne', _⟩ := lowerAfter_cons (c :: before) c' cs
            rw [himage']
            exact List.append_ne_nil_of_left_ne_nil hne' _
          have hsome := List.getLast?_isSome.mpr hrest
          obtain ⟨e, he⟩ := Option.isSome_iff_exists.mp hsome
          rw [he] at hd
          have hend : ∀ e ∈ (c' :: cs).getLast?, isBlank e = false := by
            intro e he
            refine h e ?_
            rwa [List.getLast?_cons_cons]
          exact ih (c :: before) hend d (he.trans hd)

theorem IsTrimmed.lowerAfter (h : IsTrimmed cs) (before : List Char) :
    IsTrimmed (lowerAfter before cs) where
  first := by
    cases cs with
    | nil => exact h.first
    | cons c cs =>
        obtain ⟨image, himage, hne, _, hblank⟩ := lowerAfter_cons before c cs
        intro d hd
        rw [himage] at hd
        cases image with
        | nil => exact absurd rfl hne
        | cons e image =>
            obtain rfl : e = d := Option.some.inj hd
            exact hblank (h.first c rfl) e List.mem_cons_self
  last := lowerAfter_last before h.last

/-- A character put in the place of another, as a map. -/
theorem replaceChar_singleton (old new : Char) (cs : List Char) :
    replaceChar old [new] cs = cs.map fun c => if c = old then new else c := by
  induction cs with
  | nil => rfl
  | cons c cs ih =>
      unfold replaceChar at ih ⊢
      rw [List.flatMap_cons, ih, List.map_cons]
      split <;> rfl

theorem IsTrimmed.replaceChar (h : IsTrimmed cs) {old new : Char} (hnew : isBlank new = false) :
    IsTrimmed (replaceChar old [new] cs) := by
  rw [replaceChar_singleton]
  refine ⟨?_, ?_⟩
  · intro c hc
    rw [List.head?_map, Option.mem_def, Option.map_eq_some_iff] at hc
    obtain ⟨d, hd, rfl⟩ := hc
    split
    · exact hnew
    · exact h.first d hd
  · intro c hc
    rw [List.getLast?_map, Option.mem_def, Option.map_eq_some_iff] at hc
    obtain ⟨d, hd, rfl⟩ := hc
    split
    · exact hnew
    · exact h.last d hd

end Text

/-! ## Names -/

namespace PackageName

open Text

theorem canonical_toList (name : String) :
    (canonical name).toList = replaceChar '_' ['-'] (lowerAfter [] (stripList name.toList)) := by
  simp [canonical, normalize, lower, strip]

theorem normalize_toList (name : String) :
    (normalize name).toList = lowerAfter [] (stripList name.toList) := by
  unfold normalize lower strip
  rw [String.toList_ofList, String.toList_ofList]

/-- A name as it is stored is stored as it is. -/
theorem normalize_normalize (name : String) : normalize (normalize name) = normalize name := by
  have htrim : IsTrimmed (normalize name).toList := by
    rw [normalize_toList]
    exact (stripList_isTrimmed name.toList).lowerAfter []
  have hfinal : ∀ c ∈ (normalize name).toList, lowerChar c = [c] := by
    rw [normalize_toList]
    exact lowerAfter_final [] _
  rw [← String.toList_inj, normalize_toList, htrim.stripList_eq, lowerAfter_of_final hfinal]

/-- Storing a name does not make it blank. -/
theorem isBlankText_normalize {name : String} (h : isBlankText name = false) :
    isBlankText (normalize name) = false := by
  unfold isBlankText at h ⊢
  rw [List.isEmpty_eq_false_iff] at h ⊢
  rw [normalize_toList, ((stripList_isTrimmed name.toList).lowerAfter []).stripList_eq]
  cases hcs : stripList name.toList with
  | nil => exact absurd hcs h
  | cons c cs =>
      obtain ⟨image, himage, hne, _⟩ := lowerAfter_cons [] c cs
      rw [himage]
      exact List.append_ne_nil_of_left_ne_nil hne _

theorem canonical_isTrimmed (name : String) : IsTrimmed (canonical name).toList := by
  rw [canonical_toList]
  exact ((stripList_isTrimmed name.toList).lowerAfter []).replaceChar (by decide)

/-- **A name in look-up form is in look-up form.** -/
theorem canonical_canonical (name : String) : canonical (canonical name) = canonical name := by
  have hfinal : ∀ c ∈ (canonical name).toList, lowerChar c = [c] ∧ c ≠ '_' := by
    rw [canonical_toList, replaceChar_singleton]
    intro c hc
    obtain ⟨d, hd, rfl⟩ := List.mem_map.mp hc
    split
    · exact ⟨by decide, by decide⟩
    · rename_i hne
      exact ⟨lowerAfter_final [] _ d hd, hne⟩
  have hlower : lowerAfter [] (canonical name).toList = (canonical name).toList :=
    lowerAfter_of_final fun c hc => (hfinal c hc).1
  have hreplace : ∀ c ∈ (canonical name).toList, (if c = '_' then '-' else c) = id c := by
    intro c hc
    rw [if_neg (hfinal c hc).2]
    rfl
  rw [← String.toList_inj, canonical_toList, (canonical_isTrimmed name).stripList_eq, hlower,
    replaceChar_singleton, List.map_congr_left hreplace, List.map_id]

/-- White space around a name does not count in look-ups. -/
theorem canonical_strip (name : String) : canonical (strip name) = canonical name := by
  have hstrip : stripList (strip name).toList = stripList name.toList := by
    unfold strip
    rw [String.toList_ofList, (stripList_isTrimmed name.toList).stripList_eq]
  rw [← String.toList_inj, canonical_toList, canonical_toList, hstrip]

theorem strip_canonical (name : String) : strip (canonical name) = canonical name := by
  unfold strip
  rw [(canonical_isTrimmed name).stripList_eq, String.ofList_toList]

/-- A name is blank exactly if it is looked up as nothing. -/
theorem isBlankText_canonical (name : String) :
    isBlankText (canonical name) = isBlankText name := by
  unfold isBlankText
  rw [(canonical_isTrimmed name).stripList_eq, canonical_toList, replaceChar_singleton,
    List.isEmpty_map]
  cases hcs : stripList name.toList with
  | nil => rfl
  | cons c cs =>
      obtain ⟨image, himage, hne, _⟩ := lowerAfter_cons [] c cs
      rw [himage, List.isEmpty_eq_false_iff.mpr (List.append_ne_nil_of_left_ne_nil hne _)]
      rfl

end PackageName

end LockAudit
