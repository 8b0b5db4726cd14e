import LockAudit.Proofs.Version.Expression
import LockAudit.Proofs.Version.Language

/-!
# The text of a range is read as the range

A range keeps groups of plain comparators. What it was read from had more ways to say the
same: carets and tildes, versions that leave out numbers, stars beside other clauses. All
of that has been spelled out by the time it is written, so the text of a range is an
expression of its own, in which every clause is an operator and a whole version, and a
group that asks for nothing is a star.

So the text spells the groups one by one, and reading it gives them back with all their
versions in full. The one thing in the way is the limit on digits: the end of a caret or a
tilde may have one digit more than what was read, and then the range cannot be written.
-/

namespace LockAudit

/-! ## Texts with no white space at their ends -/

namespace Text

/-- There is text, and no white space at either end of it. -/
structure IsFramed (s : String) : Prop where
  ne_nil : s.toList ≠ []
  isTrimmed : IsTrimmed s.toList

theorem IsWord.isFramed {s : String} (h : IsWord s.toList) : IsFramed s := ⟨h.1, h.isTrimmed⟩

/-- What is put between two texts does not show at their ends. -/
theorem IsFramed.append {s t : String} (hs : IsFramed s) (ht : IsFramed t) (sep : String) :
    IsFramed (s ++ sep ++ t) where
  ne_nil := by
    rw [String.toList_append]
    exact List.append_ne_nil_of_right_ne_nil _ ht.ne_nil
  isTrimmed := by
    rw [String.toList_append, String.toList_append]
    refine ⟨fun c hc => ?_, fun c hc => ?_⟩
    · rw [List.append_assoc, List.head?_append_of_ne_nil _ hs.ne_nil] at hc
      exact hs.isTrimmed.first c hc
    · rw [List.getLast?_append_of_ne_nil _ ht.ne_nil] at hc
      exact ht.isTrimmed.last c hc

theorem isFramed_intercalate {texts : List String} (sep : String) (hne : texts ≠ [])
    (h : ∀ s ∈ texts, IsFramed s) : IsFramed (sep.intercalate texts) := by
  induction texts with
  | nil => exact absurd rfl hne
  | cons s texts ih =>
      rw [List.forall_mem_cons] at h
      cases texts with
      | nil =>
          rw [String.intercalate_singleton]
          exact h.1
      | cons t texts =>
          rw [String.intercalate_cons_cons]
          exact h.1.append (ih (List.cons_ne_nil t texts) h.2) sep

theorem IsFramed.strip_eq {s : String} (h : IsFramed s) : strip s = s := by
  unfold strip
  rw [h.isTrimmed.stripList_eq, String.ofList_toList]

theorem IsFramed.isEmpty_eq {s : String} (h : IsFramed s) : s.isEmpty = false := by
  rw [Bool.eq_false_iff]
  intro hempty
  exact h.ne_nil (by rw [String.isEmpty_iff.mp hempty]; rfl)

end Text

/-- All versions of the group are such as texts spell. -/
def Group.IsWritten (g : Group) : Prop := ∀ c ∈ g, c.version.IsWritten

namespace VersionRange

variable {r s : VersionRange} {gs done : List Group} {g : Group} {c : Comparator}

/-! ## The expression of a range -/

/-- A plain operator is found by its text. -/
theorem mem_marks (op : Operator) : (op.text, Mark.plain op) ∈ marks := by
  cases op <;> decide

/-- A comparator is written as a clause. -/
theorem exists_clause (h : c.version.IsWritten) :
    ∃ clause : Clause, clause.Fits ∧ clause.comparators = [c] ∧
      (Expression.one (.one clause)).Spells c.text := by
  refine ⟨.marked ⟨c.op.text, .plain c.op, mem_marks c.op⟩ ⟨c.version.written, h.isProper⟩,
    h.fits, ?_, ?_⟩
  · change [Comparator.mk c.op c.version.written.value] = [c]
    rw [h.value_eq]
  · have hversion : String.ofList c.version.written.text = c.version.text := by
      rw [← Version.text_toList, String.ofList_toList]
    change Spaced [.op c.op.text (.plain c.op), .version (String.ofList c.version.written.text)]
      (c.op.text ++ c.version.text).toList
    rw [hversion]
    exact Spaced.pair (.op c.op.text (.plain c.op)) (.version c.version.text)

/-- A group is written as clauses with commas between them, and without comparators as a
star. -/
theorem exists_clauses (h : g.IsWritten) :
    ∃ clauses : Clauses, clauses.Fits ∧ clauses.comparators = g ∧
      (Expression.one clauses).Spells g.text := by
  induction g with
  | nil =>
      -- the empty group is written as the star, which reads as no comparator
      have hempty : IsGap [] := List.forall_mem_nil _
      have hstar : Spaced [.star] ([] ++ (Token.star.text.toList ++ [])) :=
        .cons hempty (.nil hempty)
      exact ⟨.one .star, trivial, rfl, hstar⟩
  | cons c g ih =>
      unfold Group.IsWritten at h
      rw [List.forall_mem_cons] at h
      obtain ⟨clause, hfits, hcomparators, hspells⟩ := exists_clause h.1
      cases g with
      | nil => exact ⟨.one clause, hfits, hcomparators, hspells⟩
      | cons d g =>
          obtain ⟨clauses, hfits', hcomparators', hspells'⟩ := ih h.2
          refine ⟨.more clause clauses, ⟨hfits, hfits'⟩, ?_, ?_⟩
          · rw [Clauses.comparators, hcomparators, hcomparators']
            rfl
          · have htext : Group.text (c :: d :: g) = c.text ++ ", " ++ Group.text (d :: g) :=
              String.intercalate_cons_cons
            rw [htext]
            exact Clauses.spells_append hspells hspells'

theorem exists_expression (h : ∀ g ∈ gs, g.IsWritten) (hne : gs ≠ []) :
    ∃ e : Expression, e.Fits ∧ e.groups = gs ∧
      e.Spells (" || ".intercalate (gs.map Group.text)) := by
  induction gs with
  | nil => exact absurd rfl hne
  | cons g gs ih =>
      rw [List.forall_mem_cons] at h
      obtain ⟨clauses, hfits, hcomparators, hspells⟩ := exists_clauses h.1
      cases gs with
      | nil =>
          refine ⟨.one clauses, hfits, congrArg (fun g => [g]) hcomparators, ?_⟩
          rw [List.map_singleton, String.intercalate_singleton]
          exact hspells
      | cons g' gs =>
          obtain ⟨e, hfits', hgroups, hspells'⟩ := ih h.2 (List.cons_ne_nil g' gs)
          refine ⟨.more clauses e, ⟨hfits, hfits'⟩, ?_, ?_⟩
          · rw [Expression.groups, hcomparators, hgroups]
          · rw [List.map_cons, List.map_cons, String.intercalate_cons_cons]
            exact hspells.or hspells'

/-! ## Reading the text -/

theorem isFramed_comparator (h : c.version.IsWritten) : Text.IsFramed c.text := by
  have hop : ∀ d ∈ c.op.text.toList, Text.isBlank d = false := by
    have hmarks := (marks_proper _ (mem_marks c.op)).2.1
    exact fun d hd => isBlank_of_isMarkChar (List.all_eq_true.mp hmarks d hd)
  have hword := Version.text_isWord h
  refine Text.IsWord.isFramed ⟨?_, ?_⟩
  · rw [Comparator.text, String.toList_append]
    exact List.append_ne_nil_of_right_ne_nil _ hword.1
  · rw [Comparator.text, String.toList_append, List.forall_mem_append]
    exact ⟨hop, hword.2⟩

theorem isFramed_group (h : g.IsWritten) : Text.IsFramed g.text := by
  cases g with
  | nil => exact Text.IsWord.isFramed ⟨by decide, List.forall_mem_singleton.mpr (by decide)⟩
  | cons c g =>
      have hne : (c :: g).map Comparator.text ≠ [] := List.cons_ne_nil _ _
      refine Text.isFramed_intercalate ", " hne fun s hs => ?_
      obtain ⟨d, hd, rfl⟩ := List.mem_map.mp hs
      exact isFramed_comparator (h d hd)

/-- The range of some groups, with their text for a source. -/
def ofGroups (gs : List Group) : VersionRange := ⟨gs, " || ".intercalate (gs.map Group.text)⟩

theorem isFramed_source (h : ∀ g ∈ gs, g.IsWritten) (hne : gs ≠ []) :
    Text.IsFramed (ofGroups gs).source := by
  refine Text.isFramed_intercalate " || " (by simpa using hne) fun s hs => ?_
  obtain ⟨g, hg, rfl⟩ := List.mem_map.mp hs
  exact isFramed_group (h g hg)

/-- **Groups are read from their text as they are.** -/
theorem parse_source (h : ∀ g ∈ gs, g.IsWritten) (hne : gs ≠ []) :
    parse (ofGroups gs).source = .ok (ofGroups gs) := by
  obtain ⟨e, hfits, rfl, hspells⟩ := exists_expression h hne
  refine parse_eq_ok.mpr ⟨e, hspells, hfits, ?_⟩
  exact congrArg (VersionRange.mk e.groups) (isFramed_source h hne).strip_eq

/-- One group more, and its text behind the others. -/
theorem ofGroups_union (h : ∀ g ∈ done, g.IsWritten) (hg : g.IsWritten) :
    (ofGroups done).union (ofGroups [g]) = ofGroups (done ++ [g]) := by
  have hnew : (ofGroups [g]).source.isEmpty = false :=
    (isFramed_source (List.forall_mem_singleton.mpr hg) (List.cons_ne_nil g [])).isEmpty_eq
  cases done with
  | nil =>
      unfold union
      have hnone : (ofGroups []).source.isEmpty = true := rfl
      rw [List.filter_cons_of_neg (by simp [hnone]), List.filter_cons_of_pos (by simp [hnew])]
      exact congrArg (VersionRange.mk [g]) String.intercalate_singleton
  | cons first done =>
      have hold : (ofGroups (first :: done)).source.isEmpty = false :=
        (isFramed_source h (List.cons_ne_nil first done)).isEmpty_eq
      have hboth : (ofGroups (first :: done ++ [g])).source =
          (ofGroups (first :: done)).source ++ " || " ++ (ofGroups [g]).source := by
        unfold ofGroups
        rw [List.map_append, String.intercalate_append_of_ne_nil (by simp) (by simp)]
      unfold union
      rw [List.filter_cons_of_pos (by simp [hold]), List.filter_cons_of_pos (by simp [hnew]),
        List.filter_nil, String.intercalate_cons_cons, String.intercalate_singleton, ← hboth]
      rfl

/-- **Run.** Group after group, the range grows into the one that was written. -/
theorem parseAllAfter_groups (hdone : ∀ g ∈ done, g.IsWritten) (h : ∀ g ∈ gs, g.IsWritten) :
    parseAllAfter (ofGroups done) (gs.map Group.text) = .ok (ofGroups (done ++ gs)) := by
  induction gs generalizing done with
  | nil => rw [List.append_nil]; rfl
  | cons g gs ih =>
      rw [List.forall_mem_cons] at h
      have hone : ∀ g' ∈ [g], g'.IsWritten := List.forall_mem_singleton.mpr h.1
      have hread : parse g.text = .ok (ofGroups [g]) := by
        have hsource : (ofGroups [g]).source = g.text :=
          String.intercalate_singleton (s := " || ")
        rw [← hsource]
        exact parse_source hone (List.cons_ne_nil g [])
      rw [List.map_cons, parseAllAfter, hread, Result.ok_bind, ofGroups_union hdone h.1,
        ih (List.forall_mem_append.mpr ⟨hdone, hone⟩) h.2, List.append_assoc]
      rfl

/-! ## Ranges that were read -/

/-- The versions of the range are such as texts spell, unless they are too long to be
written. -/
def IsRead (r : VersionRange) : Prop :=
  ∀ g ∈ r.groups, ∀ c ∈ g, c.version.isWritable = true → c.version.IsWritten

theorem PartialText.isWritten {v : PartialText} (h : v.written.Fits) :
    v.written.value.IsWritten := by
  have hcut : v.written.IsCut := v.proper.isCut fun _ => Text.isDigit_of_isAsciiDigit
  have hread : v.written.toVersion "" = .ok v.written.value :=
    (Version.toVersion_eq_ok hcut).mpr ⟨v.proper.pre, v.proper.build, h, rfl⟩
  exact Version.toVersion_isWritten hread

theorem isWritten_release {major minor patch : Nat}
    (h : (Version.release major minor patch).isWritable = true) :
    (Version.release major minor patch).IsWritten :=
  ⟨h, rfl, List.forall_mem_nil _⟩

/-- A clause asks for the version that it names, and perhaps for the end of a caret or a
tilde. -/
theorem expand_isWritten {v : PartialText} (h : v.written.Fits) (m : Mark)
    (hc : c ∈ m.expand (partialOf v.written)) (hwritable : c.version.isWritable = true) :
    c.version.IsWritten := by
  have hversion : (partialOf v.written).version.IsWritten := PartialText.isWritten h
  cases m with
  | plain op =>
      obtain rfl := List.mem_singleton.mp hc
      exact hversion
  | caret =>
      -- the end of a caret is a release, and it can be written as the comparator can
      obtain ⟨major, minor, patch, hend⟩ := caretEnd_release (partialOf v.written)
      simp only [Mark.expand, List.mem_cons, List.not_mem_nil, or_false] at hc
      rcases hc with rfl | rfl
      · exact hversion
      · rw [hend] at hwritable ⊢
        exact isWritten_release hwritable
  | tilde =>
      obtain ⟨major, minor, patch, hend⟩ := tildeEnd_release (partialOf v.written)
      simp only [Mark.expand, List.mem_cons, List.not_mem_nil, or_false] at hc
      rcases hc with rfl | rfl
      · exact hversion
      · rw [hend] at hwritable ⊢
        exact isWritten_release hwritable

theorem Clause.isWritten {clause : Clause} (h : clause.Fits) (hc : c ∈ clause.comparators)
    (hwritable : c.version.isWritable = true) : c.version.IsWritten := by
  cases clause with
  | star => exact absurd hc List.not_mem_nil
  | bare version => exact expand_isWritten h (.plain .eq) hc hwritable
  | marked sign version => exact expand_isWritten h sign.mark hc hwritable

theorem Clauses.isWritten {clauses : Clauses} (h : clauses.Fits) (hc : c ∈ clauses.comparators)
    (hwritable : c.version.isWritable = true) : c.version.IsWritten := by
  induction clauses with
  | one clause => exact Clause.isWritten h hc hwritable
  | more clause rest ih =>
      rcases List.mem_append.mp hc with hc | hc
      · exact Clause.isWritten h.1 hc hwritable
      · exact ih h.2 hc

theorem Expression.isRead {e : Expression} (h : e.Fits) (source : String) :
    IsRead ⟨e.groups, source⟩ := by
  induction e with
  | one clauses =>
      intro g hg c hc
      obtain rfl := List.mem_singleton.mp hg
      exact Clauses.isWritten h hc
  | more clauses rest ih =>
      intro g hg c hc
      rcases List.mem_cons.mp hg with rfl | hg
      · exact Clauses.isWritten h.1 hc
      · exact ih h.2 g hg c hc

theorem parse_isRead {text : String} (h : parse text = .ok r) : r.IsRead := by
  obtain ⟨e, _, hfits, rfl⟩ := parse_eq_ok.mp h
  exact e.isRead hfits _

theorem parseAllAfter_isRead {texts : List String} (h : parseAllAfter r texts = .ok s)
    (hr : r.IsRead) : s.IsRead := by
  induction texts generalizing r with
  | nil => cases h; exact hr
  | cons text texts ih =>
      rw [parseAllAfter] at h
      obtain ⟨t, ht, h⟩ := Result.bind_ok.mp h
      exact ih h (List.forall_mem_append.mpr ⟨hr, parse_isRead ht⟩)

theorem parseAll_isRead {texts : List String} (h : parseAll texts = .ok r) : r.IsRead :=
  parseAllAfter_isRead h (List.forall_mem_nil _)

theorem IsRead.isWritten (h : r.IsRead) (hwritable : r.isWritable = true) :
    ∀ g ∈ r.groups, g.IsWritten := by
  intro g hg c hc
  exact h g hg c hc (List.all_eq_true.mp (List.all_eq_true.mp hwritable g hg) c hc)

/-- **Ranges are written without loss.** Take any range that was read, from one expression
or from several, in which no number has too many digits to be written. The texts of its
groups are read again as the same groups, with all versions in full; so is its own text,
unless the range has no groups. What is read then shows the text that it was read from, and
as its texts are those of its groups, writing it again changes nothing. -/
theorem printing_faithful {r : VersionRange}
    (hread : (∃ text, parse text = .ok r) ∨ ∃ texts, parseAll texts = .ok r)
    (hwritable : r.isWritable = true) :
    (∃ texts s, r.groupTexts? = .ok texts ∧ parseAll texts = .ok s ∧ s.groups = r.groups ∧
      s.groupTexts? = .ok texts) ∧
    (r.isEmpty = false → ∃ text s, r.text? = .ok text ∧ parse text = .ok s ∧
      s.groups = r.groups ∧ s.source = text ∧ s.text? = .ok text) := by
  have hisRead : r.IsRead := by
    rcases hread with ⟨text, h⟩ | ⟨texts, h⟩
    · exact parse_isRead h
    · exact parseAll_isRead h
  have hwritten := hisRead.isWritten hwritable
  -- what can be written depends on the groups alone, not on the text they came from
  have hgroupTexts (source : String) :
      (VersionRange.mk r.groups source).groupTexts? = .ok r.groupTexts := if_pos hwritable
  have htext (source : String) : (VersionRange.mk r.groups source).text? = .ok r.text :=
    if_pos hwritable
  refine ⟨?_, fun hempty => ?_⟩
  · have hall : parseAll r.groupTexts = .ok (ofGroups r.groups) :=
      parseAllAfter_groups (List.forall_mem_nil _) hwritten
    exact ⟨r.groupTexts, ofGroups r.groups, hgroupTexts r.source, hall, rfl, hgroupTexts _⟩
  · have hone : parse r.text = .ok (ofGroups r.groups) :=
      parse_source hwritten (List.isEmpty_eq_false_iff.mp hempty)
    exact ⟨r.text, ofGroups r.groups, htext r.source, hone, rfl, rfl, htext _⟩

/-- A caret, a star beside a clause and a star alone, and build identifiers. -/
theorem printing_faithful_expanded :
    ∃ r, parse "^1.2, * || * || ~0.3.0-rc.1+05" = .ok r ∧
      r.text? = .ok ">=1.2.0, <2.0.0 || * || >=0.3.0-rc.1+05, <0.4.0" ∧
      ∃ s, parse ">=1.2.0, <2.0.0 || * || >=0.3.0-rc.1+05, <0.4.0" = .ok s ∧
        s.groups = r.groups := by
  -- evaluated once; what is said of the range follows by the law
  have hread :
      (parse "^1.2, * || * || ~0.3.0-rc.1+05").toOption.map (fun r => (r.isWritable, r.text)) =
        some (true, ">=1.2.0, <2.0.0 || * || >=0.3.0-rc.1+05, <0.4.0") := by decide +kernel
  obtain ⟨r, hr, hparts⟩ := Option.map_eq_some_iff.mp hread
  obtain ⟨hwritable, htext⟩ := Prod.mk.inj hparts
  have hr := Result.ok_of_toOption hr
  have hexact := printing_faithful (Or.inl ⟨_, hr⟩) hwritable
  have hshown : r.text? = .ok ">=1.2.0, <2.0.0 || * || >=0.3.0-rc.1+05, <0.4.0" := by
    rw [text?, if_pos hwritable, htext]
  have hne : r.isEmpty = false := by
    cases hempty : r.isEmpty with
    | false => rfl
    | true =>
        have hnone : r.text = "" := by
          rw [text, groupTexts, List.isEmpty_iff.mp hempty]
          rfl
        rw [hnone] at htext
        exact absurd htext (by decide)
  obtain ⟨text, s, htext', hs, hgroups, _⟩ := hexact.2 hne
  rw [hshown] at htext'
  cases htext'
  exact ⟨r, hr, hshown, s, hs, hgroups⟩

end VersionRange

end LockAudit
