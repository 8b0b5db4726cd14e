import LockAudit.Number.Integer
import LockAudit.Text.Quoted

/-!
# Semantic versions

A version is three numbers, a list of pre-release identifiers and a list of
build identifiers. Build identifiers never matter for order or identity, so what
does matter is a type of its own, `Precedence`, on which equality is plain
equality: two versions stand for the same release exactly when their precedences
are equal.

The order is that of SemVer 2.0. The numbers decide first; a pre-release comes
before its release; and pre-releases compare identifier by identifier, numbers
as numbers and before words, words by code point, a shorter list before any
longer one that continues it.
-/

namespace LockAudit

/-- One identifier of a pre-release. -/
inductive Identifier where
  | number (n : Nat)
  | word (s : String)
  deriving DecidableEq, Repr

/-- What decides where a version stands in the order. -/
structure Precedence where
  major : Nat
  minor : Nat
  patch : Nat
  pre : List Identifier := []
  deriving DecidableEq, Repr

/-- A version: its precedence, and build identifiers that do not count. -/
structure Version extends Precedence where
  build : List String := []
  deriving DecidableEq, Repr

namespace Identifier

/-- Numbers come before words. -/
def order : Identifier → Identifier → Ordering
  | number m, number n => compare m n
  | number _, word _ => .lt
  | word _, number _ => .gt
  | word s, word t => compare s t

/-- The written form of an identifier. -/
def text : Identifier → String
  | number n => toString n
  | word s => s

/-- The identifier is no number over the limit of what can be written. -/
def isWritable : Identifier → Bool
  | number n => Number.isWritable n
  | word _ => true

end Identifier

namespace Precedence

/-- Identifier by identifier; a list comes before what continues it. -/
def orderIdentifiers : List Identifier → List Identifier → Ordering
  | [], [] => .eq
  | [], _ :: _ => .lt
  | _ :: _, [] => .gt
  | a :: as, b :: bs => (a.order b).then (orderIdentifiers as bs)

/-- A pre-release comes before the release, which has no identifiers. -/
def orderPre : List Identifier → List Identifier → Ordering
  | [], [] => .eq
  | [], _ :: _ => .gt
  | _ :: _, [] => .lt
  | as, bs => orderIdentifiers as bs

/-- The order of versions. -/
def order (a b : Precedence) : Ordering :=
  (compare a.major b.major).then <| (compare a.minor b.minor).then <|
    (compare a.patch b.patch).then <| orderPre a.pre b.pre

/-- One version comes before another. -/
def isBefore (a b : Precedence) : Bool := a.order b == .lt

/-- One version does not come after another. -/
def isUpTo (a b : Precedence) : Bool := (a.order b).isLE

/-- The version is a pre-release. -/
def isPrerelease (v : Precedence) : Bool := !v.pre.isEmpty

end Precedence

namespace Version

/-- The version with the given numbers and nothing else. -/
def release (major minor patch : Nat) : Version := { major, minor, patch }

/-- Every number of the version can be written. -/
def isWritable (v : Version) : Bool :=
  Number.isWritable v.major && Number.isWritable v.minor && Number.isWritable v.patch &&
    v.pre.all (·.isWritable)

/-- The written form of a version. -/
def text (v : Version) : String :=
  toString v.major ++ "." ++ toString v.minor ++ "." ++ toString v.patch ++
    (if v.pre.isEmpty then "" else "-" ++ ".".intercalate (v.pre.map (·.text))) ++
    (if v.build.isEmpty then "" else "+" ++ ".".intercalate v.build)

/-- A version as messages show it. -/
def shown (v : Version) : String := "Version('" ++ v.text ++ "')"

end Version

end LockAudit
