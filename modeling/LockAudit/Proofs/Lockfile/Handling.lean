import LockAudit.Lockfile.Registry
import LockAudit.Proofs.Limits

/-!
# Lock files and their failures

A lock file that does not nest too deeply gives a graph or a failure that is reported,
whatever it holds. What goes wrong in an entry or in a reference is a failure of the lock
file, and a number over the limit is one of a value.
-/

namespace LockAudit.Lockfile

/-! ## Entries and references -/

namespace Builder

variable {b : Builder} {n : Node} {name version reference : String} {source : Option String}
  {line : Option Nat} {references : List String} {direct : Bool}

end Builder

/-! ## The two formats -/

/-- Reading the lock file at a path ends in a failure that is not reported: it is of a known
format, and its text takes more of the stack than is left. -/
inductive Registry.IsTrapped (r : Registry) (files : File.Tree) (path : File.Path)
    (name : Option String) (limits : Limits) : Prop
  | tooDeep {f : Format} {bytes : List UInt8} {changed : Int} {said : String}
      (chosen : r.choose path name = .ok f) (stated : limits.status path = none)
      (found : files.lookup? path = some (.file bytes changed))
      (deep : limits.Overflows .lockfile bytes said) : r.IsTrapped files path name limits

end LockAudit.Lockfile
