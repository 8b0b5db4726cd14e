import LockAudit.Proofs.Advisory.Isolation
import LockAudit.Proofs.Audit.Matching
import LockAudit.Proofs.Handling
import LockAudit.Report.Display

/-!
# Which reports can be delivered

A report is made of texts that come from lock files, feeds and suppressions, and not
every report can be put into words. A range with a number over the limit cannot be
written at all. And what a report is shown on may refuse a block, whatever the reason.
-/

namespace LockAudit

open Display

/-! ## Showings -/

namespace Showing

variable {s : Showing} {steps : List (Except Failure Block)}

end Showing

/-! ## The blocks of a report -/

namespace Report

variable {r : Report} {β : Type} {f : Block → Except Failure β}

/-- The report can be shown: the fixes in its table of findings can be written, and whatever
it is shown on takes each of its blocks. -/
structure IsShowable (r : Report) (f : Block → Except Failure β) : Prop where
  fixes : ∀ e ∈ r.entries, e.finding.record.patched.isWritable = true
  taken : ∀ block, .ok block ∈ r.blocks → ∃ shown, f block = .ok shown

/-- The text of a report fails, otherwise than with the failure of a file: up to some block all
are laid out, and that one is missing or cannot be. -/
inductive IsTrapped (r : Report) (layout : Block → Except Failure String) : Prop
  | block {before after : List (Except Failure Block)} {step : Except Failure Block}
      {cause : Failure} (blocks : r.blocks = before ++ step :: after)
      (laid : ∀ s ∈ before, ∃ text, s >>= layout = .ok text)
      (fails : step >>= layout = .error cause) (other : cause.isFileError = false) :
      r.IsTrapped layout

end Report

/-! ## The document of a report -/

namespace Report

/-- The report can be written: every range in it can. -/
structure IsWritable (r : Report) : Prop where
  findings : ∀ e ∈ r.entries, e.finding.record.isWritable = true
  suppressed : ∀ s ∈ r.suppressed, s.suppression.isWritable = true

theorem Entry.document_ok {e : Entry} :
    (∃ v, e.document = .ok v) ↔ e.finding.record.isWritable = true := by
  unfold document Advisory.Record.isWritable VersionRange.groupTexts?
  cases haffected : e.finding.record.affected.isWritable with
  | false => simp [haffected]
  | true => cases hpatched : e.finding.record.patched.isWritable <;> simp [haffected, hpatched]

end Report

theorem Suppression.document_ok {s : Suppression} :
    (∃ v, s.document = .ok v) ↔ s.isWritable = true := by
  unfold document isWritable
  cases hversion : s.version with
  | none => simp
  | some range => cases hw : range.isWritable <;> simp [VersionRange.text?, hw]

theorem SuppressedFinding.document_ok {s : SuppressedFinding} :
    (∃ v, s.document = .ok v) ↔ s.suppression.isWritable = true := by
  rw [← Suppression.document_ok]
  unfold document
  cases s.suppression.document <;> simp

theorem Report.document_ok {r : Report} : (∃ v, r.document = .ok v) ↔ r.IsWritable := by
  have hentries : (∃ vs, r.entries.mapM (·.document) = .ok vs) ↔
      ∀ e ∈ r.entries, e.finding.record.isWritable = true := by
    simp only [Result.mapM_ok, Entry.document_ok]
  have hsuppressed : (∃ vs, r.suppressed.mapM (·.document) = .ok vs) ↔
      ∀ s ∈ r.suppressed, s.suppression.isWritable = true := by
    simp only [Result.mapM_ok, SuppressedFinding.document_ok]
  unfold document
  refine ⟨?_, ?_⟩
  · intro h
    obtain ⟨v, hv⟩ := h
    obtain ⟨entries, he, hv⟩ := Result.bind_ok.mp hv
    obtain ⟨suppressed, hs, _⟩ := Result.bind_ok.mp hv
    exact ⟨hentries.mp ⟨entries, he⟩, hsuppressed.mp ⟨suppressed, hs⟩⟩
  · intro h
    obtain ⟨he, hs⟩ := h
    obtain ⟨entries, he⟩ := hentries.mpr he
    obtain ⟨suppressed, hs⟩ := hsuppressed.mpr hs
    rw [he, hs]
    exact ⟨_, rfl⟩

end LockAudit
