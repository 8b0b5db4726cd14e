import LockAudit.Lockfile.Builder

/-!
# Sessions with a builder

A builder is asked for one thing after the other: to add an entry, to say what a
reference means, to build the graph. Every request is answered. A request that
fails leaves the builder as it was, and so does one that only asks.
-/

namespace LockAudit.Lockfile

/-- What an entry of a lock file says of a dependency. -/
structure Addition where
  name : String
  version : String
  source : Option String := none
  references : List String := []
  direct : Bool := false
  deriving DecidableEq, Repr

namespace Builder

/-- Something that a builder is asked for. -/
inductive Request where
  | add (what : Addition) (line : Option Nat)
  | resolve (reference : String) (line : Option Nat)
  | build
  deriving DecidableEq, Repr

/-- What a builder answers. -/
inductive Answer where
  | node (n : Node)
  | coordinate (c : Coordinate)
  | graph (g : Graph)

/-- The builder after a request, and its answer. -/
def perform (b : Builder) : Request → Builder × Except Failure Answer
  | .add what line =>
    match b.add what.name what.version what.source what.references what.direct line with
    | .ok (after, n) => (after, .ok (.node n))
    | .error cause => (b, .error cause)
  | .resolve reference line => (b, (b.resolve reference line).map .coordinate)
  | .build => (b, b.build.map .graph)

/-- The builder after some requests. -/
def after (b : Builder) (requests : List Request) : Builder :=
  requests.foldl (fun b request => (b.perform request).1) b

/-- What a request adds to the builder: an entry, if it asks for that and is granted. -/
def granted? (b : Builder) (request : Request) : Option Addition :=
  match request, (b.perform request).2 with
  | .add what _, .ok _ => some what
  | _, _ => none

/-- What some requests add to the builder. -/
def granted (b : Builder) : List Request → List Addition
  | [] => []
  | request :: requests =>
    (b.granted? request).toList ++ granted (b.perform request).1 requests

end Builder

end LockAudit.Lockfile
