import LockAudit.Text.Lower

/-!
# Package names

A name is stored in lower case and without white space at its ends. For look-ups
it is also taken as the same with hyphens for underscores, because registries
treat the two alike.
-/

namespace LockAudit.PackageName

/-- A name as it is stored. -/
def normalize (name : String) : String := Text.lower (Text.strip name)

/-- A name as it is looked up. -/
def canonical (name : String) : String :=
  String.ofList (Text.replaceChar '_' ['-'] (normalize name).toList)

/-- The two names are looked up alike. -/
def agree (a b : String) : Bool := canonical a == canonical b

end LockAudit.PackageName
