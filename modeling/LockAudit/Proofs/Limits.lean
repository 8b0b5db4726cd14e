import LockAudit.Limits
import LockAudit.Proofs.Handling

/-!
# Limits that are met

A path about which nothing is said gives the fault of a file, which is reported. A document
that takes too much of the stack gives a failure that is not, wherever it is read.
-/

namespace LockAudit.Limits

variable {l : Limits} {path : File.Path} {kind : DocumentKind} {bytes : List UInt8}
  {cs : List Char} {c : Failure}

theorem checkStatus_eq_ok : l.checkStatus path = .ok () ↔ l.status path = none := by
  unfold checkStatus
  cases l.status path <;> simp

theorem checkStatus_eq_error :
    l.checkStatus path = .error c ↔ ∃ fault, l.status path = some fault ∧ c = .file fault := by
  unfold checkStatus
  cases l.status path <;> simp [eq_comm]

theorem checkText_eq_ok : l.checkText kind cs = .ok () ↔ l.overflow? kind cs = none := by
  unfold checkText
  cases l.overflow? kind cs <;> simp

theorem checkText_eq_error :
    l.checkText kind cs = .error c ↔
      ∃ said, l.overflow? kind cs = some said ∧ c = .tooDeep said := by
  unfold checkText
  cases l.overflow? kind cs <;> simp [eq_comm]

/-- A check that fails with too deep a document alone. -/
theorem uncaught_of_tooDeep {x : Except Failure Unit} {Says : String → Prop}
    (h : ∀ c, x = .error c ↔ ∃ said, Says said ∧ c = .tooDeep said) :
    Uncaught Failure.isReported x ↔ ∃ said, Says said := by
  refine ⟨?_, ?_⟩
  · intro hx
    obtain ⟨c, hc, _⟩ := hx
    obtain ⟨said, hsaid, _⟩ := (h c).mp hc
    exact ⟨said, hsaid⟩
  · intro hsays
    obtain ⟨said, hsaid⟩ := hsays
    exact ⟨.tooDeep said, (h _).mpr ⟨said, hsaid, rfl⟩, rfl⟩

theorem checkText_uncaught :
    Uncaught Failure.isReported (l.checkText kind cs) ↔
      ∃ said, l.overflow? kind cs = some said :=
  uncaught_of_tooDeep fun _ => checkText_eq_error

/-- The text that some bytes spell takes more of the stack than is left. -/
def Overflows (l : Limits) (kind : DocumentKind) (bytes : List UInt8) (said : String) : Prop :=
  ∃ cs, Text.Utf8.decode bytes = .ok cs ∧ l.overflow? kind cs = some said

theorem checkBytes_eq_ok :
    l.checkBytes kind bytes = .ok () ↔ ∀ said, ¬ l.Overflows kind bytes said := by
  unfold checkBytes Overflows
  cases Text.Utf8.decode bytes with
  | error fault => simp
  | ok cs => simp [checkText_eq_ok, Option.eq_none_iff_forall_ne_some]

theorem checkBytes_eq_error :
    l.checkBytes kind bytes = .error c ↔
      ∃ said, l.Overflows kind bytes said ∧ c = .tooDeep said := by
  unfold checkBytes Overflows
  cases Text.Utf8.decode bytes with
  | error fault => simp
  | ok cs => simp [checkText_eq_error]

end LockAudit.Limits
