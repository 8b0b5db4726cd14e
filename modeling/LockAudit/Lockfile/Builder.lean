import LockAudit.Lockfile.Graph

/-!
# Building a graph from entries

A lock file is a list of entries that refer to each other by name, by name and
version, or by name, version and source. Entries for the same dependency merge:
their references are united, and it is direct if one of them says so. References
are resolved only when the graph is built, against all entries; what a package of
the workspace refers to outside the workspace is then direct as well.
-/

namespace LockAudit.Lockfile

/-- What is known of one dependency. The coordinate is that of its first entry,
and so is the line. -/
structure Entry where
  coordinate : Coordinate
  node : Node
  line : Option Nat
  references : List String
  deriving DecidableEq, Repr

/-- The entries read so far, and the file they come from. -/
structure Builder where
  path : Option String := none
  entries : List Entry := []
  deriving DecidableEq, Repr

/-- A list with those of the given texts added that it does not hold yet. -/
def addNew (refs more : List String) : List String :=
  more.foldl (fun refs r => if refs.contains r then refs else refs ++ [r]) refs

namespace Builder

/-- A defect on a line of the builder's file. -/
def fail {α : Type} (b : Builder) (line : Option Nat) (d : Defect) : Except Failure α :=
  .error (.lockfile d ⟨line, b.path⟩)

/-- An entry with a further one for the same dependency merged into it. -/
def Entry.merge (e : Entry) (n : Node) (references : List String) : Entry :=
  { e with
    node := if n.direct && !e.node.direct then n else e.node
    references := addNew e.references references }

/-- The dependency that an entry of a lock file states. -/
def readNode (b : Builder) (name version : String) (source : Option String) (direct : Bool)
    (line : Option Nat) : Except Failure Node :=
  match Version.parse version with
  | .error (.malformed ..) => b.fail line (.unresolvedVersion name version)
  | .error (.oversized cause) => .error (.oversized cause)
  | .ok v =>
    let source := match source with
      | some s => if s.isEmpty then pathSource else s
      | none => pathSource
    match Node.of name v source direct with
    | .error _ => b.fail line .emptyName
    | .ok n => .ok n

/-- The source that an entry of a lock file states, if it states one. -/
def readSource (b : Builder) (line : Option Nat) (label : EntryLabel) (name : String)
    (fields : List (String × Value)) : Except Failure (Option String) :=
  match Value.field "source" fields with
  | .null => .ok none
  | .text source => .ok (some source)
  | _ => b.fail line (.entry label (.sourceNotText name))

/-- The references that an entry of a lock file states. -/
def readReferences (b : Builder) (line : Option Nat) (label : EntryLabel) (name : String)
    (fields : List (String × Value)) : Except Failure (List String) :=
  match Value.lookup? "dependencies" fields with
  | none => .ok []
  | some value => match value.texts? with
    | some references => .ok references
    | none => b.fail line (.entry label (.dependenciesNotTexts name))

/-- The entries with one more for a dependency. -/
def insert (b : Builder) (n : Node) (references : List String) (line : Option Nat) : Builder :=
  if b.entries.any (·.node.key == n.key) then
    { b with entries := b.entries.map fun e =>
        if e.node.key == n.key then Entry.merge e n references else e }
  else { b with entries := b.entries ++ [⟨n.coordinate, n, line, addNew [] references⟩] }

/-- The dependency with a key as the entries state it. -/
def get? (b : Builder) (key : NodeKey) : Option Node :=
  (b.entries.find? (·.node.key == key)).map (·.node)

/-- Adds an entry; gives the dependency as it is known afterwards. -/
def add (b : Builder) (name version : String) (source : Option String)
    (references : List String) (direct : Bool) (line : Option Nat) :
    Except Failure (Builder × Node) := do
  let n ← b.readNode name version source direct line
  let b := b.insert n references line
  pure (b, (b.get? n.key).getD n)

/-- A reference without its source, and the source if there is one: what stands
between the first opening parenthesis after a space and the closing one at the
end. -/
def splitSource (text : List Char) : List Char × Option (List Char) :=
  if text.getLast? = some ')' then
    match Text.splitFirst? [' ', '('] text with
    | some (before, source) => (before, some source.dropLast)
    | none => (text, none)
  else (text, none)

/-- A reference taken apart: a name, and a version and a source if given. -/
structure Reference where
  name : String
  version : Option Precedence
  source : Option String

/-- The parts of a reference. -/
def readReference (b : Builder) (line : Option Nat) (reference : String) :
    Except Failure Reference := do
  let (text, source) := splitSource (Text.stripList reference.toList)
  let source := source.map String.ofList
  match Text.words (String.ofList text) with
  | [name] => pure ⟨Text.lower name, none, source⟩
  | [name, version] =>
    match Version.parse version with
    | .ok v => pure ⟨Text.lower name, some v.toPrecedence, source⟩
    | .error (.malformed ..) => b.fail line (.badReferenceVersion reference)
    | .error (.oversized cause) => throw (.oversized cause)
  | _ => b.fail line (.badReference reference)

/-- The reference may mean an entry. -/
def Reference.fits (r : Reference) (e : Entry) : Bool :=
  e.coordinate.name == r.name &&
    (r.version.all fun v => e.coordinate.version.toPrecedence == v) &&
    r.source.all fun s => e.coordinate.source == s

/-- The coordinate of the one entry that a reference means. -/
def resolve (b : Builder) (reference : String) (line : Option Nat) : Except Failure Coordinate := do
  let r ← b.readReference line reference
  match b.entries.filter r.fits with
  | [e] => pure e.coordinate
  | [] => b.fail line (.unknownReference reference)
  | _ => b.fail line (.ambiguousReference reference)

/-- The links that the references of an entry make. -/
def entryEdges (b : Builder) (e : Entry) : Except Failure (List (Coordinate × Coordinate)) :=
  e.references.mapM fun r => do pure (e.coordinate, ← b.resolve r e.line)

/-- The links that all references make. -/
def edges (b : Builder) : Except Failure (List (Coordinate × Coordinate)) := do
  pure (← b.entries.mapM b.entryEdges).flatten

/-- The dependency with a key belongs to the workspace. -/
def isPath (b : Builder) (key : NodeKey) : Bool := ((b.get? key).map (·.isPath)).getD false

/-- A package of the workspace refers to this dependency outside it. -/
def isWanted (b : Builder) (edges : List (Coordinate × Coordinate)) (n : Node) : Bool :=
  !n.isPath && edges.any fun e => b.isPath e.1.key && e.2.key == n.key

/-- The graph of all entries. -/
def build (b : Builder) : Except Failure Graph := do
  let edges ← b.edges
  let nodes := b.entries.map fun e =>
    if b.isWanted edges e.node then { e.node with direct := true } else e.node
  (Graph.of nodes edges).mapError .value

end Builder

end LockAudit.Lockfile
