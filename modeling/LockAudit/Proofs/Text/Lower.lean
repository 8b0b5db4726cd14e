import LockAudit.Text.Lower
import Mathlib.Logic.Basic

/-!
# Lower case is final

Taking a text to lower case twice is the same as taking it once, and it makes no
white space. Neither is obvious: the letters move by distances that only the table
knows, so it has to be checked that none of them lands on another letter of the
table. The check goes run against run, not letter against letter.

A capital sigma is the one character whose image depends on its neighbours.
Both of its images are final, so what stands around it no longer matters the second
time.
-/

namespace LockAudit.Text

/-! ## The table -/

namespace CaseRun

/-- The images of a run lie outside a stretch of code points. -/
def avoids (r : CaseRun) (first last : Nat) : Bool :=
  r.image + (r.last - r.first) < first || last < r.image

/-- No image of the first run belongs to the second: it lies outside, or the second
run takes every other code point and the images are those in between. -/
def misses (r s : CaseRun) : Bool :=
  r.avoids s.first s.last ||
    (s.step == 2 && (r.step == 2 || r.first == r.last) && (r.image + s.first) % 2 == 1)

theorem holds_iff {r : CaseRun} {n : Nat} :
    r.holds n = true ↔ r.first ≤ n ∧ n ≤ r.last ∧ (n - r.first) % r.step = 0 := by
  simp [holds, and_assoc]

theorem image_avoids {r : CaseRun} {n first last : Nat} (h : r.holds n = true)
    (havoids : r.avoids first last = true) :
    n - r.first + r.image < first ∨ last < n - r.first + r.image := by
  obtain ⟨hfirst, hlast, _⟩ := holds_iff.mp h
  simp only [avoids, Bool.or_eq_true, decide_eq_true_eq] at havoids
  omega

theorem image_misses {r s : CaseRun} {n : Nat} (h : r.holds n = true)
    (hmisses : r.misses s = true) :
    s.holds (n - r.first + r.image) = false := by
  rw [Bool.eq_false_iff, ne_eq, holds_iff]
  intro h
  obtain ⟨hlow, hhigh, hmod⟩ := h
  unfold misses at hmisses
  rw [Bool.or_eq_true] at hmisses
  rcases hmisses with hout | hbetween
  · have := image_avoids h hout
    omega
  · obtain ⟨hfirst, hlast, hstep⟩ := holds_iff.mp h
    simp only [Bool.and_eq_true, Bool.or_eq_true, beq_iff_eq] at hbetween
    obtain ⟨⟨htwo, hparity⟩, hodd⟩ := hbetween
    rw [htwo] at hmod
    rcases hparity with hparity | hparity
    · rw [hparity] at hstep; omega
    · omega

/-- The images of a run are characters, and neither white space, nor letters whose
lower case is not in the table. -/
def isSound (r : CaseRun) : Bool :=
  r.image + (r.last - r.first) < 0x110000 && r.avoids 0xd800 0xdfff && r.avoids 65 90 &&
    r.avoids 0x130 0x130 && blankRanges.all fun b => r.avoids b.1 b.2

end CaseRun

set_option maxRecDepth 10000 in
theorem lowerRuns_isSound : ∀ r ∈ lowerRuns, r.isSound = true := by
  decide +kernel

set_option maxRecDepth 10000 in
theorem lowerRuns_misses : (lowerRuns.all fun r => lowerRuns.all (r.misses ·)) = true := by
  decide +kernel

/-! ## One letter -/

/-- What is true of all ASCII characters can be checked. -/
theorem forall_ascii {p : Char → Prop} (h : ∀ n < 128, p (Char.ofNat n)) {c : Char}
    (hc : c.toNat < 128) :
    p c := by
  have := h c.toNat hc
  rwa [Char.ofNat_toNat] at this

theorem toNat_image {r : CaseRun} (hr : r ∈ lowerRuns) {n : Nat} (h : r.holds n = true) :
    (Char.ofNat (n - r.first + r.image)).toNat = n - r.first + r.image := by
  have hsound := lowerRuns_isSound r hr
  simp only [CaseRun.isSound, Bool.and_eq_true, decide_eq_true_eq] at hsound
  have havoids := CaseRun.image_avoids h hsound.1.1.1.2
  obtain ⟨hfirst, hlast, _⟩ := CaseRun.holds_iff.mp h
  have hvalid : (n - r.first + r.image).isValidChar := by
    rcases havoids with hlow | hhigh
    · exact Or.inl hlow
    · have hbound : n - r.first + r.image < 0x110000 := by omega
      exact Or.inr ⟨hhigh, hbound⟩
  unfold Char.ofNat
  rw [dif_pos hvalid]
  rfl

/-- The lower case of a letter that the table has is a letter that it does not have. -/
theorem lowerChar_image {r : CaseRun} (hr : r ∈ lowerRuns) {n : Nat} (h : r.holds n = true) :
    lowerChar (Char.ofNat (n - r.first + r.image)) = [Char.ofNat (n - r.first + r.image)] := by
  have hsound := lowerRuns_isSound r hr
  simp only [CaseRun.isSound, Bool.and_eq_true] at hsound
  have hnone : lowerRuns.find? (·.holds (n - r.first + r.image)) = none := by
    rw [List.find?_eq_none]
    intro s hs
    have hmisses := List.all_eq_true.mp (List.all_eq_true.mp lowerRuns_misses r hr) s hs
    rw [CaseRun.image_misses h hmisses]
    simp
  unfold lowerChar
  rw [toNat_image hr h, hnone]
  split
  · rename_i hascii
    -- an image among the ASCII characters is no capital letter
    have hnumber := toNat_image hr h
    have hsmall := CaseRun.image_avoids h hsound.1.1.2
    have hfixed := forall_ascii
      (p := fun c => c.toNat < 65 ∨ 90 < c.toNat → c.toLower = c) (by decide)
      (by rw [hnumber]; exact hascii)
    rw [hnumber] at hfixed
    rw [hfixed hsmall]
  · have hdotted := CaseRun.image_avoids h hsound.1.2
    rw [if_neg (by omega)]

/-- Where the lower case of a letter comes from. -/
inductive LowersTo (c : Char) : Char → Prop
  | ascii (h : c.toNat < 128) : LowersTo c c.toLower
  | dotted {d : Char} (h : d = 'i' ∨ d = '\u0307') : LowersTo c d
  | run {r : CaseRun} (mem : r ∈ lowerRuns) (holds : r.holds c.toNat = true) :
      LowersTo c (Char.ofNat (c.toNat - r.first + r.image))
  | same (h : lowerChar c = [c]) : LowersTo c c

theorem lowersTo_of_mem {c d : Char} (hd : d ∈ lowerChar c) : LowersTo c d := by
  unfold lowerChar at hd
  split at hd
  · rename_i hascii
    obtain rfl := List.mem_singleton.mp hd
    exact .ascii hascii
  · rename_i hascii
    split at hd
    · rw [List.mem_cons, List.mem_singleton] at hd
      exact .dotted hd
    · rename_i hdotted
      split at hd
      · rename_i r hfind
        obtain rfl := List.mem_singleton.mp hd
        have hholds : r.holds c.toNat = true := by simpa using List.find?_some hfind
        exact .run (List.mem_of_find?_eq_some hfind) hholds
      · rename_i hfind
        obtain rfl := List.mem_singleton.mp hd
        refine .same ?_
        unfold lowerChar
        rw [if_neg hascii, if_neg hdotted, hfind]

/-- **The lower case of a letter is final.** -/
theorem lowerChar_final {c d : Char} (hd : d ∈ lowerChar c) : lowerChar d = [d] := by
  cases lowersTo_of_mem hd with
  | ascii h => exact forall_ascii (p := fun c => lowerChar c.toLower = [c.toLower]) (by decide) h
  | dotted h => rcases h with rfl | rfl <;> decide +kernel
  | run mem holds => exact lowerChar_image mem holds
  | same h => exact h

theorem isBlank_image {r : CaseRun} (hr : r ∈ lowerRuns) {n : Nat} (h : r.holds n = true) :
    isBlank (Char.ofNat (n - r.first + r.image)) = false := by
  have hsound := lowerRuns_isSound r hr
  simp only [CaseRun.isSound, Bool.and_eq_true, List.all_eq_true] at hsound
  unfold isBlank Ranges.contains
  rw [List.any_eq_false, toNat_image hr h]
  intro b hb
  have hout := CaseRun.image_avoids h (hsound.2 b hb)
  simp only [Bool.and_eq_true, decide_eq_true_eq]
  omega

/-- No letter becomes white space. -/
theorem lowerChar_isBlank {c d : Char} (hc : isBlank c = false) (hd : d ∈ lowerChar c) :
    isBlank d = false := by
  cases lowersTo_of_mem hd with
  | ascii h =>
      exact forall_ascii (p := fun c => isBlank c = false → isBlank c.toLower = false) (by decide)
        h hc
  | dotted h => rcases h with rfl | rfl <;> decide
  | run mem holds => exact isBlank_image mem holds
  | same h => exact hc

theorem lowerChar_ne_nil (c : Char) : lowerChar c ≠ [] := by
  unfold lowerChar
  split
  · simp
  · split
    · simp
    · split <;> simp

/-! ## Whole texts -/

/-- What becomes of the first letter of a text: final letters, at least one, and white
space only out of white space. -/
theorem lowerAfter_cons (before : List Char) (c : Char) (cs : List Char) :
    ∃ image, lowerAfter before (c :: cs) = image ++ lowerAfter (c :: before) cs ∧ image ≠ [] ∧
      (∀ d ∈ image, lowerChar d = [d]) ∧ (isBlank c = false → ∀ d ∈ image, isBlank d = false) := by
  refine ⟨_, rfl, ?_⟩
  split
  · -- Which form of the sigma stands there does not matter: both are final.
    have hforms : ∀ d, d = 'ς' ∨ d = 'σ' → lowerChar d = [d] ∧ isBlank d = false := by
      rintro d (rfl | rfl) <;> decide +kernel
    refine ⟨by simp, fun d hd => ?_, fun _ d hd => ?_⟩
    · obtain rfl := List.mem_singleton.mp hd
      exact (hforms _ (ite_eq_or_eq _ _ _)).1
    · obtain rfl := List.mem_singleton.mp hd
      exact (hforms _ (ite_eq_or_eq _ _ _)).2
  · exact ⟨lowerChar_ne_nil c, fun d hd => lowerChar_final hd,
      fun hc d hd => lowerChar_isBlank hc hd⟩

theorem lowerAfter_final (before cs : List Char) :
    ∀ d ∈ lowerAfter before cs, lowerChar d = [d] := by
  induction cs generalizing before with
  | nil => simp [lowerAfter]
  | cons c cs ih =>
      obtain ⟨image, himage, _, hfinal, _⟩ := lowerAfter_cons before c cs
      intro d hd
      rw [himage, List.mem_append] at hd
      rcases hd with hd | hd
      · exact hfinal d hd
      · exact ih (c :: before) d hd

/-- A text of final letters stays as it is, whatever stands before it. -/
theorem lowerAfter_of_final {before cs : List Char} (h : ∀ d ∈ cs, lowerChar d = [d]) :
    lowerAfter before cs = cs := by
  induction cs generalizing before with
  | nil => rfl
  | cons c cs ih =>
      have hc : lowerChar c = [c] := h c List.mem_cons_self
      have hsigma : c ≠ 'Σ' := by
        intro heq
        subst heq
        exact absurd hc (by decide +kernel)
      have hcs : ∀ d ∈ cs, lowerChar d = [d] := by
        intro d hd
        exact h d (List.mem_cons_of_mem c hd)
      rw [lowerAfter, if_neg hsigma, hc, ih hcs]
      rfl

theorem lower_lower (s : String) : lower (lower s) = lower s := by
  unfold lower
  rw [String.toList_ofList, lowerAfter_of_final (lowerAfter_final [] s.toList)]

end LockAudit.Text
