import LockAudit.File.Fault
import LockAudit.File.Path

/-!
# File trees

The files that a run can see are a value: places, each with a file or a directory
at it. A place is the names that lead to it from the working directory. Double
dots and a slash at its front lead out of the working directory, to directories
about which nothing more is known.

A place is only reached through directories, so looking a path up can fail in two
ways: a name on the way stands for nothing, or for a file.
-/

namespace LockAudit.File

/-- What stands at a place. A file has its bytes and the second of its last
change, counted from 1970. -/
inductive Entry where
  | directory
  | file (bytes : List UInt8) (changed : Int)
  deriving DecidableEq, Repr

/-- The names that lead to a place. -/
abbrev Place := List String

/-- Places with what stands at them, each place once. -/
structure Tree where
  entries : List (Place × Entry) := []
  deriving DecidableEq, Repr

namespace Tree

/-- The place lies outside the working directory, where all places are
directories as far as they are known. -/
def isOutside (at_ : Place) : Bool := at_.all fun name => name = ".." || name = "/"

/-- What stands at a place. -/
def entry? (t : Tree) (at_ : Place) : Option Entry :=
  if isOutside at_ then some .directory else t.entries.lookup at_

/-- The tree with something put at a place. -/
def put (t : Tree) (at_ : Place) (e : Entry) : Tree :=
  if t.entries.any (·.1 == at_) then
    ⟨t.entries.map fun old => if old.1 == at_ then (at_, e) else old⟩
  else ⟨t.entries ++ [(at_, e)]⟩

/-- The tree with nothing at a place. -/
def remove (t : Tree) (at_ : Place) : Tree := ⟨t.entries.filter (·.1 != at_)⟩

/-- The place that a name leads to from a directory. -/
def step (at_ : Place) (name : String) : Place :=
  if name = ".." then
    if at_ = ["/"] then at_ else if isOutside at_ then at_ ++ [".."] else at_.dropLast
  else at_ ++ [name]

/-- Follows names from a place that is already reached. -/
def follow (t : Tree) (at_ : Place) : List String → Except Cause Place
  | [] => .ok at_
  | name :: names =>
    match t.entry? at_ with
    | some .directory =>
      let next := step at_ name
      if (t.entry? next).isSome then follow t next names else .error .notFound
    | some (.file ..) => .error .notDirectory
    | none => .error .notFound

/-- Where the names of a path start. -/
def origin (p : Path) : Place := if p.root.isEmpty then [] else ["/"]

/-- The place that a path leads to, at which something stands. -/
def find (t : Tree) (p : Path) : Except Cause Place := t.follow (origin p) p.names

/-- What a path leads to. -/
def lookup? (t : Tree) (p : Path) : Option Entry :=
  match t.find p with
  | .ok at_ => t.entry? at_
  | .error _ => none

/-- Something stands at a path. -/
def exists? (t : Tree) (p : Path) : Bool := (t.lookup? p).isSome

/-- A directory stands at a path. -/
def isDirectory (t : Tree) (p : Path) : Bool := t.lookup? p == some .directory

/-- A file stands at a path. -/
def isFile (t : Tree) (p : Path) : Bool :=
  match t.lookup? p with
  | some (.file ..) => true
  | _ => false

/-- The place that a path leads to, at which something may or may not stand; the
directory above it has to be there. -/
def target (t : Tree) (p : Path) : Except Cause Place := do
  match p.names.getLast? with
  | none => pure (origin p)
  | some name =>
    let above ← t.find p.parent
    match t.entry? above with
    | some .directory => pure (step above name)
    | _ => throw .notDirectory

/-- The bytes and the last change of the file at a path. -/
def read (t : Tree) (p : Path) : Except Fault (List UInt8 × Int) :=
  match t.find p with
  | .error cause => .error ⟨cause, p.text, none⟩
  | .ok at_ =>
    match t.entry? at_ with
    | some (.file bytes changed) => .ok (bytes, changed)
    | _ => .error ⟨.isDirectory, p.text, none⟩

/-- The tree with a file written at a path. -/
def write (t : Tree) (p : Path) (bytes : List UInt8) (changed : Int := 0) : Except Fault Tree :=
  match t.target p with
  | .error cause => .error ⟨cause, p.text, none⟩
  | .ok at_ =>
    match t.entry? at_ with
    | some .directory => .error ⟨.isDirectory, p.text, none⟩
    | _ => .ok (t.put at_ (.file bytes changed))

/-- The tree without the file at a path. -/
def delete (t : Tree) (p : Path) : Except Fault Tree :=
  match t.find p with
  | .error cause => .error ⟨cause, p.text, none⟩
  | .ok at_ =>
    match t.entry? at_ with
    | some (.file ..) => .ok (t.remove at_)
    | _ => .error ⟨.isDirectory, p.text, none⟩

/-- The tree with what stands at a place moved to a path, where it takes the place
of a file but not of a directory. Where the path has no name of its own at its
end, it cannot be replaced at all. -/
def rename (t : Tree) (source : Place) (p : Path) : Except Cause Tree := do
  if p.name.isEmpty || p.name = ".." then throw .busy
  let at_ ← t.target p
  match t.entry? source, t.entry? at_ with
  | none, _ => throw .notFound
  | _, some .directory => throw .isDirectory
  | some e, _ => pure ((t.remove source).put at_ e)

/-- The tree with one directory made. -/
def makeOne (t : Tree) (p : Path) : Except Cause Tree := do
  let at_ ← t.target p
  if (t.entry? at_).isSome then throw .exists
  else pure (t.put at_ .directory)

/-- Makes one directory; one that is already there is no fault. -/
def ensureOne (t : Tree) (p : Path) : Tree × Except Fault Unit :=
  match t.makeOne p with
  | .ok t => (t, .ok ())
  | .error cause => (t, if t.isDirectory p then .ok () else .error ⟨cause, p.text, none⟩)

/-- The tree with a directory at a path, and with those above it made as needed;
also what was made before a fault stays. The first argument bounds the number of
directories above; that of the names is enough. -/
def makeDirectoriesWithin : Nat → Tree → Path → Tree × Except Fault Unit
  | 0, t, p => (t, .error ⟨.notFound, p.text, none⟩)
  | fuel + 1, t, p =>
    match t.makeOne p with
    | .error .notFound =>
      if p.names.isEmpty then (t, .error ⟨.notFound, p.text, none⟩)
      else match makeDirectoriesWithin fuel t p.parent with
        | (t, .ok ()) => t.ensureOne p
        | (t, .error fault) => (t, .error fault)
    | _ => t.ensureOne p

/-- The tree with a directory at a path, and with those above it made as needed;
also what was made before a fault stays. -/
def makeDirectories (t : Tree) (p : Path) : Tree × Except Fault Unit :=
  makeDirectoriesWithin (p.names.length + 1) t p

/-- The names that lead from a place to one below it. What only a name that leads out
leads to is not below it. -/
def namesFrom? (at_ whole : Place) : Option (List String) :=
  let names := whole.drop at_.length
  if at_.isPrefixOf whole && !names.isEmpty && names.all (fun name => name ≠ ".." && name ≠ "/") then
    some names
  else none

/-- The paths of everything below a place, in the order of their names. -/
def below (t : Tree) (at_ : Place) : List (List String × Entry) :=
  (t.entries.filterMap fun e =>
    (namesFrom? at_ e.1).map fun names => (names, e.2)).mergeSort
      fun a b => (Path.orderNames a.1 b.1).isLE

/-- The files in the working directory, by the text of their paths. -/
def files (t : Tree) : List (String × List UInt8) :=
  t.entries.filterMap fun e =>
    match e.2 with
    | .file bytes _ =>
      if e.1.any fun name => name = ".." || name = "/" then none
      else some ("/".intercalate e.1, bytes)
    | .directory => none

end Tree

end LockAudit.File
