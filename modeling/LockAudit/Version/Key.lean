import LockAudit.Version.Basic

/-!
# Keys of versions

What decides where a version stands can be laid out as a key: nested tuples of
numbers and texts, compared component by component, a tuple before any that
continues it. A number and a text cannot be compared, and neither can a tuple with
anything else, so a key has to be laid out in such a way that the two never meet:
each identifier starts with its kind, and the release part with whether it is one.

Versions with the same key are the same, and hashes are hashes of keys.
-/

namespace LockAudit

/-- A key, or a component of one. -/
inductive Key where
  | number (n : Nat)
  | text (s : String)
  | tuple (items : List Key)

namespace Key

mutual

/-- The order of two keys, if they can be compared. -/
def order? : Key → Key → Option Ordering
  | number m, number n => some (compare m n)
  | text s, text t => some (compare s t)
  | tuple as, tuple bs => orderItems? as bs
  | _, _ => none

/-- The order of two tuples: that of the first components that differ. -/
def orderItems? : List Key → List Key → Option Ordering
  | [], [] => some .eq
  | [], _ :: _ => some .lt
  | _ :: _, [] => some .gt
  | a :: as, b :: bs =>
    match order? a b with
    | some .eq => orderItems? as bs
    | decided => decided

end

end Key

/-- The kind of an identifier, and then its number or its word. -/
def Identifier.key : Identifier → Key
  | number n => .tuple [.number 0, .number n, .text ""]
  | word s => .tuple [.number 1, .number 0, .text s]

namespace Precedence

/-- A release is a one alone, a pre-release a zero with its identifiers. -/
def releaseKey : List Identifier → Key
  | [] => .tuple [.number 1]
  | a :: as => .tuple [.number 0, .tuple ((a :: as).map (·.key))]

/-- The key of a version. -/
def key (v : Precedence) : Key :=
  .tuple [.number v.major, .number v.minor, .number v.patch, releaseKey v.pre]

/-- The hash of a version, by a hash of keys. -/
def hashBy (hash : Key → UInt64) (v : Precedence) : UInt64 := hash v.key

end Precedence

end LockAudit
