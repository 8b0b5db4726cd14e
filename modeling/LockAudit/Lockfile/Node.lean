import LockAudit.Failure
import LockAudit.PackageName

/-!
# Dependencies

A dependency is a package at a version from a source. Packages of the workspace
itself have the source `path`. Two dependencies are the same when name, source
and precedence of the version agree; build identifiers and whether the workspace
asks for the package directly are facts about it, not part of what it is.

`NodeKey` is what a dependency is, `Coordinate` how it is written.
-/

namespace LockAudit.Lockfile

/-- The source of packages that belong to the workspace. -/
def pathSource : String := "path"

/-- What makes two dependencies the same. -/
structure NodeKey where
  name : String
  version : Precedence
  source : String
  deriving DecidableEq, Repr

/-- A dependency as it is written: with the version in full. -/
structure Coordinate where
  name : String
  version : Version
  source : String
  deriving DecidableEq, Repr

/-- A dependency of the workspace. -/
structure Node where
  name : String
  version : Version
  source : String := pathSource
  direct : Bool := false
  deriving DecidableEq, Repr

namespace Coordinate

/-- What the coordinate stands for. -/
def key (c : Coordinate) : NodeKey := ⟨c.name, c.version.toPrecedence, c.source⟩

/-- The coordinate as references spell it. -/
def text (c : Coordinate) : String := c.name ++ " " ++ c.version.text ++ " (" ++ c.source ++ ")"

/-- The coordinate as messages show it. -/
def shown (c : Coordinate) : String :=
  "(" ++ Text.quote c.name ++ ", " ++ c.version.shown ++ ", " ++ Text.quote c.source ++ ")"

end Coordinate

namespace Node

/-- The dependency with the given name, stored as names are; a blank name is
refused. -/
def of (name : String) (version : Version) (source : String) (direct : Bool) :
    Except ValueDefect Node :=
  if Text.isBlankText name then .error .emptyName
  else .ok ⟨PackageName.normalize name, version, source, direct⟩

/-- How the dependency is written. -/
def coordinate (n : Node) : Coordinate := ⟨n.name, n.version, n.source⟩

/-- What makes the dependency the same as another. -/
def key (n : Node) : NodeKey := n.coordinate.key

/-- The package belongs to the workspace. -/
def isPath (n : Node) : Bool := n.source == pathSource

/-- A short form for chains and titles. -/
def text (n : Node) : String := n.name ++ "@" ++ n.version.text

/-- The canonical order: by the name as it is looked up, then by version, then by
source. -/
def order (a b : Node) : Ordering :=
  (compare (PackageName.canonical a.name) (PackageName.canonical b.name)).then <|
    (a.version.order b.version.toPrecedence).then (compare a.source b.source)

end Node

end LockAudit.Lockfile
