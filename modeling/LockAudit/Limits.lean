import LockAudit.Failure
import LockAudit.File.Path
import LockAudit.Text.Utf8

/-!
# Limits

Two things around the program may put an end to an operation, whatever the files hold.
The system may refuse to say what stands at a path: a name is too long, say, or a directory
on the way must not be searched. And a document that nests deeply may take more of the
interpreter's stack than is left where it is read.

What the system refuses and how large the stack is are nothing that the program decides, so
both are left open here. A limit only says which paths and which documents it concerns.
-/

namespace LockAudit

/-- The documents that a run reads, each at a place of its own in the program. -/
inductive DocumentKind where
  | suppressions
  | lockfile
  | cache
  | feed
  deriving DecidableEq, Repr

/-- The limits of the system and of the interpreter. -/
structure Limits where
  /-- The fault with which the system refuses to say what stands at a path. -/
  status : File.Path → Option File.Fault := fun _ => none
  /-- What is said when a document takes more of the stack than is left. -/
  overflow? : DocumentKind → List Char → Option String := fun _ _ => none

namespace Limits

/-- No limits at all. -/
def unlimited : Limits := {}

/-- Fails at a path about which nothing is said. -/
def checkStatus (l : Limits) (path : File.Path) : Except Failure Unit :=
  match l.status path with
  | some fault => .error (.file fault)
  | none => .ok ()

/-- Fails for a text that takes too much of the stack. -/
def checkText (l : Limits) (kind : DocumentKind) (cs : List Char) : Except Failure Unit :=
  match l.overflow? kind cs with
  | some said => .error (.tooDeep said)
  | none => .ok ()

/-- Fails for bytes whose text takes too much of the stack. -/
def checkBytes (l : Limits) (kind : DocumentKind) (bytes : List UInt8) : Except Failure Unit :=
  match Text.Utf8.decode bytes with
  | .ok cs => l.checkText kind cs
  | .error _ => .ok ()

@[simp]
theorem checkStatus_unlimited {path : File.Path} : unlimited.checkStatus path = .ok () := rfl

@[simp]
theorem checkText_unlimited {kind : DocumentKind} {cs : List Char} :
    unlimited.checkText kind cs = .ok () := rfl

@[simp]
theorem checkBytes_unlimited {kind : DocumentKind} {bytes : List UInt8} :
    unlimited.checkBytes kind bytes = .ok () := by
  unfold checkBytes
  split <;> rfl

end Limits

end LockAudit
