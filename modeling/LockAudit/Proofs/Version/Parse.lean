import LockAudit.Proofs.Number.Integer
import LockAudit.Proofs.Result
import LockAudit.Proofs.Version.Satisfiable

/-!
# What reading a version gives

Text has many shapes that no version has: identifiers that are empty, words that are
all digits, numbers too long to be written again. Reading refuses them all, so what
it does give is well-formed, and `IsWritten` says in which way.
-/

namespace LockAudit.Version

/-- A build identifier: not empty, of plain letters, digits and dashes. -/
def isBuildPart (s : String) : Bool := !s.toList.isEmpty && s.toList.all isIdentifierChar

/-- The version is one that some text spells. -/
structure IsWritten (v : Version) : Prop where
  isWritable : v.isWritable = true
  isWellFormed : v.isWellFormed = true
  build : ∀ part ∈ v.build, isBuildPart part = true

variable {whole : String} {part : List Char} {v : Version}

/-! ## Identifiers -/

/-- An identifier that was read is a number that can be written or a proper word. -/
theorem readIdentifier_ok {i : Identifier} (h : readIdentifier whole part = .ok i) :
    i.isWritable = true ∧ i.isWellFormed = true := by
  unfold readIdentifier at h
  split at h
  · exact absurd h (by simp)
  · rename_i hpart
    rw [Bool.or_eq_true, not_or, Bool.not_eq_true, Bool.not_eq_true, Bool.not_eq_false'] at hpart
    split at h
    · split at h
      · exact absurd h (by simp)
      · split at h
        · rename_i n hn
          cases h
          exact ⟨Number.ofDigits_isWritable hn, rfl⟩
        · exact absurd h (by simp)
    · -- no number: the identifier keeps its text, and the checks before are its well-formedness
      rename_i hdigits
      cases h
      refine ⟨rfl, ?_⟩
      rw [Bool.not_eq_true] at hdigits
      unfold Identifier.isWellFormed
      simp only [String.toList_ofList]
      rw [hpart.1, hpart.2, hdigits]
      rfl

theorem readPre_ok {cs : Option (List Char)} {pre : List Identifier}
    (h : readPre whole cs = .ok pre) :
    ∀ i ∈ pre, i.isWritable = true ∧ i.isWellFormed = true := by
  cases cs with
  | none => cases h; simp
  | some cs =>
      intro i hi
      obtain ⟨part, _, hpart⟩ := (Result.mem_of_mapM h).mp hi
      exact readIdentifier_ok hpart

theorem readBuild_ok {cs : Option (List Char)} {build : List String}
    (h : readBuild whole cs = .ok build) :
    ∀ s ∈ build, isBuildPart s = true := by
  cases cs with
  | none => cases h; simp
  | some cs =>
      intro s hs
      obtain ⟨part, _, hpart⟩ := (Result.mem_of_mapM h).mp hs
      unfold readBuildPart at hpart
      split at hpart
      · exact absurd hpart (by simp)
      · rename_i hchars
        cases hpart
        rw [Bool.or_eq_true, not_or, Bool.not_eq_true, Bool.not_eq_true,
          Bool.not_eq_false'] at hchars
        unfold isBuildPart
        rw [String.toList_ofList, hchars.1, hchars.2]
        rfl

theorem readNumber_isWritable {digits : Option (List Char)} {n : Nat}
    (h : readNumber digits = .ok n) :
    Number.isWritable n = true :=
  Number.ofDigits_isWritable (Result.mapError_ok.mp h)

/-! ## Versions -/

/-- **Whatever is read can be written and is well-formed.** -/
theorem toVersion_isWritten {w : Written} (h : w.toVersion whole = .ok v) : v.IsWritten := by
  unfold Written.toVersion at h
  obtain ⟨major, hmajor, h⟩ := Result.bind_ok.mp h
  obtain ⟨minor, hminor, h⟩ := Result.bind_ok.mp h
  obtain ⟨patch, hpatch, h⟩ := Result.bind_ok.mp h
  obtain ⟨pre, hpre, h⟩ := Result.bind_ok.mp h
  obtain ⟨build, hbuild, h⟩ := Result.bind_ok.mp h
  cases h
  have hidentifiers := readPre_ok hpre
  refine ⟨?_, ?_, readBuild_ok hbuild⟩
  · unfold isWritable
    simp only
    rw [readNumber_isWritable hmajor, readNumber_isWritable hminor, readNumber_isWritable hpatch]
    exact List.all_eq_true.mpr fun i hi => (hidentifiers i hi).1
  · exact List.all_eq_true.mpr fun i hi => (hidentifiers i hi).2

theorem parse_isWritten {text : String} (h : parse text = .ok v) : v.IsWritten := by
  unfold parse at h
  split at h
  · exact absurd h (by simp)
  · split at h
    · exact toVersion_isWritten h
    · exact absurd h (by simp)

end LockAudit.Version
