import LockAudit.Proofs.Limits
import LockAudit.Proofs.Suppression.Refusing

/-!
# Suppression files that stop the program

A suppression that cannot be honoured as written is a failure of its file, and so is
reported. One thing about an entry is not noticed in time: the instant at which it
expires may lie outside the calendar. The last day of the calendar is such an expiry,
since a date lasts to the start of the next day. And a document may nest too deeply to be
read at all.
-/

namespace LockAudit.Suppression

variable {place : Place} {path : Option String}

/-! ## Entries -/

/-- Reading an entry ends in a failure that is not reported: it has all that comes
before its expiry, and that lies outside the calendar. -/
inductive IsTrap : Value → Prop
  | expiry {fields : List (String × Value)} (known : unknownKeys fields = [])
      (texts : keyNotText? fields = none) (reason : (readName fields "reason").isSome = true)
      (version : HasVersion fields) (leaves : LeavesCalendar (Value.field "expires" fields)) :
      IsTrap (.table fields)

theorem refuse_caught {α : Type} {d : Defect} :
    Caught Failure.isReported (refuse place d : Except Failure α) := .error rfl

variable {files : File.Tree} {file : File.Path} {limits : Limits}

theorem readText_caught : Caught Failure.isReported (readText files file) := by
  unfold readText
  split
  · exact refuse_caught
  · split
    · exact refuse_caught
    · exact .ok

theorem jsonEntries_caught {cs : List Char} : Caught Failure.isReported (jsonEntries place cs) := by
  unfold jsonEntries
  split
  · exact .error rfl
  · exact refuse_caught
  · exact .ok
  · exact .ok

theorem tomlEntries_caught {cs : List Char} : Caught Failure.isReported (tomlEntries place cs) := by
  unfold tomlEntries
  split
  · exact .error rfl
  · exact refuse_caught
  · exact .ok

/-- Reading the document of a file fails without a report only where it nests too deeply. -/
theorem readDocument_uncaught :
    Uncaught Failure.isReported (readDocument files file limits) ↔
      ∃ cs said, readText files file = .ok cs ∧ limits.overflow? .suppressions cs = some said := by
  have hentries : ∀ cs, Caught Failure.isReported
      (if Text.lower file.ending = ".json" then jsonEntries ⟨none, some file.text⟩ cs
        else tomlEntries ⟨none, some file.text⟩ cs) := by
    intro cs
    split
    · exact jsonEntries_caught
    · exact tomlEntries_caught
  unfold readDocument
  simp only
  rw [Uncaught.bind_iff_of_caught readText_caught]
  refine exists_congr fun cs => ?_
  rw [Uncaught.bind_iff_of_rest_caught fun _ => hentries cs, Limits.checkText_uncaught]
  exact exists_and_left.symm

/-- Loading a suppression file ends in a failure that is not reported: its document nests too
deeply, or its entries are read up to one whose expiry lies outside the calendar. -/
inductive IsTrapped (files : File.Tree) (file : File.Path) (limits : Limits) : Prop
  | tooDeep {cs : List Char} {said : String} (reads : readText files file = .ok cs)
      (deep : limits.overflow? .suppressions cs = some said) : IsTrapped files file limits
  | entry {before after : List Value} {entry : Value} {read : List Suppression}
      (document : readDocument files file limits = .ok (.list (before ++ entry :: after)))
      (reads : ofEntries (some file.text) 0 before = .ok read) (trap : IsTrap entry) :
      IsTrapped files file limits

end LockAudit.Suppression
