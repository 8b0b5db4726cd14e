import LockAudit.Proofs.Version.Parse
import LockAudit.Version.Expression

/-!
# Ranges that were read

The decision procedures on ranges are exact for ranges of well-formed versions. A
range that was read is one: its versions were read themselves, or are the ends of a
caret or a tilde, which are releases.
-/

namespace LockAudit

namespace VersionRange

variable {whole text : String} {r s : VersionRange}

theorem readPartial_isWellFormed {p : Partial} (h : readPartial whole text = .ok p) :
    p.version.isWellFormed = true := by
  unfold readPartial at h
  split at h
  · exact absurd h (by simp)
  · split at h
    · exact absurd h (by simp)
    · split at h
      · exact absurd h (by simp)
      · exact absurd h (by simp)
      · rename_i v hv
        cases h
        exact (Version.toVersion_isWritten hv).isWellFormed

/-- The end of a caret is a release. -/
theorem caretEnd_release (p : Partial) :
    ∃ major minor patch, p.caretEnd = .release major minor patch := by
  unfold Partial.caretEnd
  split
  · exact ⟨_, _, _, rfl⟩
  · split
    · exact ⟨_, _, _, rfl⟩
    · split
      · exact ⟨_, _, _, rfl⟩
      · split <;> exact ⟨_, _, _, rfl⟩

/-- The end of a tilde is a release. -/
theorem tildeEnd_release (p : Partial) :
    ∃ major minor patch, p.tildeEnd = .release major minor patch := by
  unfold Partial.tildeEnd
  split <;> exact ⟨_, _, _, rfl⟩

theorem caretEnd_pre (p : Partial) : p.caretEnd.pre = [] := by
  obtain ⟨major, minor, patch, h⟩ := caretEnd_release p
  rw [h]
  rfl

theorem tildeEnd_pre (p : Partial) : p.tildeEnd.pre = [] := by
  obtain ⟨major, minor, patch, h⟩ := tildeEnd_release p
  rw [h]
  rfl

theorem isWellFormed_of_pre {v : Version} (h : v.pre = []) : v.isWellFormed = true := by
  unfold Precedence.isWellFormed
  rw [h]
  rfl

theorem expand_isWellFormed {p : Partial} (m : Mark) (h : p.version.isWellFormed = true) :
    Group.isWellFormed (m.expand p) = true := by
  cases m with
  | plain op => simp [Mark.expand, Group.isWellFormed, h]
  | caret =>
      simp [Mark.expand, Group.isWellFormed, h, isWellFormed_of_pre (caretEnd_pre p)]
  | tilde =>
      simp [Mark.expand, Group.isWellFormed, h, isWellFormed_of_pre (tildeEnd_pre p)]

theorem readClause_isWellFormed {tokens rest : List Token} {clause : Group}
    (h : readClause whole tokens = .ok (clause, rest)) :
    clause.isWellFormed = true := by
  unfold readClause at h
  split at h
  · exact absurd h (by simp)
  · cases h; rfl
  · obtain ⟨p, hp, h⟩ := Result.bind_ok.mp h
    cases h
    exact expand_isWellFormed _ (readPartial_isWellFormed hp)
  · obtain ⟨p, hp, h⟩ := Result.bind_ok.mp h
    cases h
    exact expand_isWellFormed _ (readPartial_isWellFormed hp)
  · exact absurd h (by simp)
  · exact absurd h (by simp)
  · exact absurd h (by simp)

/-- **Run.** Clause after clause, the groups stay well-formed. -/
theorem readGroups_isWellFormed {fuel : Nat} {done groups : List Group} {clauses : Group}
    {tokens : List Token} (h : readGroups whole fuel done clauses tokens = .ok groups)
    (hdone : ∀ g ∈ done, g.isWellFormed = true) (hclauses : clauses.isWellFormed = true) :
    ∀ g ∈ groups, g.isWellFormed = true := by
  induction fuel generalizing done clauses tokens with
  | zero => exact absurd h (by simp [readGroups])
  | succ fuel ih =>
      rw [readGroups] at h
      obtain ⟨⟨clause, rest⟩, hclause, h⟩ := Result.bind_ok.mp h
      have hmore := Group.isWellFormed_append hclauses (readClause_isWellFormed hclause)
      -- the clause ends the group, which joins those that are done
      have hfinished : ∀ g ∈ done ++ [clauses ++ clause], g.isWellFormed = true := by
        intro g hg
        rcases List.mem_append.mp hg with hg | hg
        · exact hdone g hg
        · rw [List.mem_singleton.mp hg]
          exact hmore
      simp only at h
      split at h
      · cases h; exact hfinished
      · exact ih h hdone hmore
      · exact ih h hfinished rfl
      · exact absurd h (by simp)

theorem parse_isWellFormed (h : parse text = .ok r) : r.isWellFormed = true := by
  unfold parse at h
  split at h
  · exact absurd h (by simp)
  · exact absurd h (by simp)
  · obtain ⟨groups, hgroups, h⟩ := Result.bind_ok.mp h
    cases h
    exact List.all_eq_true.mpr (readGroups_isWellFormed hgroups (by simp) rfl)

theorem union_isWellFormed (hr : r.isWellFormed = true) (hs : s.isWellFormed = true) :
    (r.union s).isWellFormed = true := by
  unfold isWellFormed union at *
  rw [List.all_append, hr, hs]
  rfl

theorem parseAllAfter_isWellFormed {texts : List String} (h : parseAllAfter r texts = .ok s)
    (hr : r.isWellFormed = true) :
    s.isWellFormed = true := by
  induction texts generalizing r with
  | nil => cases h; exact hr
  | cons text texts ih =>
      rw [parseAllAfter] at h
      obtain ⟨t, ht, h⟩ := Result.bind_ok.mp h
      exact ih h (union_isWellFormed hr (parse_isWellFormed ht))

/-- **Ranges that were read are of well-formed versions.** -/
theorem parseAll_isWellFormed {texts : List String} (h : parseAll texts = .ok r) :
    r.isWellFormed = true :=
  parseAllAfter_isWellFormed h rfl

end VersionRange

end LockAudit
