import LockAudit.File.Glob
import LockAudit.File.Tree
import LockAudit.Limits
import LockAudit.Lockfile.Cargo
import LockAudit.Lockfile.Object

/-!
# Formats of lock files

A registry names the formats that are known, in a fixed order. A file's format is
the first whose file names it bears, unless it is given by name. Discovery looks
for such files below a directory and leaves out those that lie in directories of
version control, of builds or of installed packages.
-/

namespace LockAudit.Lockfile

/-- A format of lock files. -/
inductive Format where
  | cargo
  | json
  deriving DecidableEq, Repr

namespace Format

/-- The name of a format. -/
def name : Format → String
  | cargo => "cargo"
  | json => "json"

/-- The file names of a format. -/
def fileNames : Format → List String
  | cargo => ["Cargo.lock"]
  | json => ["dep-audit.lock.json"]

/-- The endings of further file names of a format. -/
def endings : Format → List String
  | cargo => []
  | json => [".lock.json"]

/-- A file with this name has the format. -/
def accepts (f : Format) (fileName : String) : Bool :=
  f.fileNames.contains fileName || f.endings.any fun e => e.toList.isSuffixOf fileName.toList

/-- The graph that the bytes of a lock file spell. -/
def parse (f : Format) (bytes : List UInt8) (path : Option String) : Except Failure Graph :=
  match Text.Utf8.decode bytes with
  | .error fault => .error (.lockfile (.notUtf8 fault.defect) ⟨none, path⟩)
  | .ok cs => match f with
    | cargo => Cargo.parseText cs path
    | json => Object.parseText cs path

/-- The graph of the lock file at a path. -/
def parseFile (f : Format) (files : File.Tree) (path : File.Path)
    (limits : Limits := .unlimited) : Except Failure Graph := do
  limits.checkStatus path
  match files.lookup? path with
  | none => throw (.fileMissing path.text)
  | some .directory => throw (.value (.notAFile path.text))
  | some (.file bytes _) =>
    limits.checkBytes .lockfile bytes
    f.parse bytes (some path.text)

end Format

/-- Formats by the names they are known under. -/
structure Registry where
  formats : List (String × Format) := []
  deriving DecidableEq, Repr

namespace Registry

/-- The formats that are always known. -/
def standard : Registry := ⟨[("cargo", .cargo), ("json", .json)]⟩

/-- The registry with a format under a name, in the place of an earlier one. -/
def register (r : Registry) (name : String) (f : Format) : Registry :=
  if r.formats.any (·.1 == name) then
    ⟨r.formats.map fun e => if e.1 == name then (name, f) else e⟩
  else ⟨r.formats ++ [(name, f)]⟩

/-- The names under which formats are known. -/
def names (r : Registry) : List String := r.formats.map (·.1)

/-- The file names of the formats. -/
def fileNames (r : Registry) : List String := r.formats.flatMap (·.2.fileNames)

/-- The first entry whose format a file with this name has. -/
def findEntry? (r : Registry) (fileName : String) : Option (String × Format) :=
  r.formats.find? (·.2.accepts fileName)

/-- The format of a file, by its name. -/
def find? (r : Registry) (path : File.Path) : Option Format :=
  (r.findEntry? path.name).map (·.2)

/-- The format with the given name, or that of the file if none is given. -/
def choose (r : Registry) (path : File.Path) (name : Option String) : Except ValueDefect Format :=
  match name.filter (!·.isEmpty) with
  | some name =>
    match r.formats.lookup name with
    | some f => .ok f
    | none => .error (.unknownFormat name r.names)
  | none =>
    match r.find? path with
    | some f => .ok f
    | none => .error (.noReader path.name)

/-- The graph of the lock file at a path. -/
def parseFile (r : Registry) (files : File.Tree) (path : File.Path) (name : Option String)
    (limits : Limits := .unlimited) : Except Failure Graph := do
  (← (r.choose path name).mapError .value).parseFile files path limits

end Registry

/-! ## Discovery -/

/-- Directories in which lock files are not looked for. -/
def ignoredDirectories : List String := [
  "*/.git/*", "*/target/*", "*/node_modules/*", "*/.venv/*", "*/venv/*", "*/__pycache__/*",
  "*/.pytest_cache/*"]

/-- A pattern stands for the path. -/
def isIgnored (patterns : List String) (path : File.Path) : Bool :=
  patterns.any fun p => File.Glob.holds p path.text

/-- A file that was discovered, with the name of its format. -/
structure Candidate where
  path : File.Path
  format : String
  deriving DecidableEq, Repr

/-- The path below a root that the given names lead to. -/
def pathBelow (root : File.Path) (names : List String) : File.Path :=
  ⟨root.root, root.names ++ names⟩

/-- The candidate for something below a root, if it is a file of a known format
and no pattern stands for its path. -/
def candidate? (patterns : List String) (root : File.Path) (found : List String × File.Entry) :
    Option Candidate :=
  let path := pathBelow root found.1
  match found.2 with
  | .directory => none
  | .file .. =>
    if isIgnored patterns path then none
    else (Registry.standard.findEntry? path.name).map fun e => ⟨path, e.1⟩

/-- The lock files below a root, in the order of their paths. -/
def discover (files : File.Tree) (root : File.Path) (patterns : Option (List String)) :
    Except ValueDefect (List Candidate) :=
  match files.find root with
  | .error _ => .error (.noRoot root.text)
  | .ok at_ =>
    .ok ((files.below at_).filterMap (candidate? (patterns.getD ignoredDirectories) root))

end LockAudit.Lockfile
