import LockAudit.Advisory.Record
import LockAudit.PackageName

/-!
# Advisory indexes

An index groups records by the name of their package as it is looked up. Groups
are in the order of these names, and the records of a group in the order of their
ids. An index also says where its records come from, and what went wrong when
they were loaded.
-/

namespace LockAudit.Advisory

/-- Records by package, with an account of where they come from. -/
structure Index where
  groups : List (String × List Record)
  fetchedAt : Calendar.Instant
  origin : String
  /-- An outdated feed was used. -/
  isStale : Bool := false
  diagnostics : List Diagnostic := []
  /-- The number of entries that were dropped because of a defect. -/
  malformed : Nat := 0
  /-- The number of records that were dropped because they are withdrawn. -/
  withdrawnDropped : Nat := 0
  deriving DecidableEq

/-- The name by which a record's package is looked up. -/
def Record.group (r : Record) : String := PackageName.canonical r.package

/-- The names of the groups of some records, sorted, each once. -/
def groupNames (records : List Record) : List String :=
  (records.map Record.group).eraseDups.mergeSort fun a b => (compare a b).isLE

/-- The records of one group, by id. -/
def groupRecords (records : List Record) (name : String) : List Record :=
  (records.filter (·.group == name)).mergeSort fun a b => (compare a.id b.id).isLE

/-- The records by group. -/
def grouped (records : List Record) : List (String × List Record) :=
  (groupNames records).map fun name => (name, groupRecords records name)

/-- Where the advisories of a report come from. -/
structure Provenance where
  origin : String
  fetchedAt : Calendar.Instant
  isStale : Bool
  /-- The number of records. -/
  size : Nat
  /-- The number of entries that were dropped because of a defect. -/
  malformed : Nat
  deriving DecidableEq

/-- The provenance as a document. -/
def Provenance.document (p : Provenance) : Value :=
  .table [
    ("origin", .text p.origin),
    ("fetched_at", .text p.fetchedAt.text),
    ("stale", .bool p.isStale),
    ("advisory_count", .int p.size),
    ("malformed_count", .int p.malformed)]

namespace Index

/-- All records, in order. -/
def records (i : Index) : List Record := i.groups.flatMap (·.2)

/-- The names under which records are found. -/
def packages (i : Index) : List String := i.groups.map (·.1)

/-- The records for a package. -/
def query (i : Index) (package : String) : List Record :=
  (i.groups.lookup (PackageName.canonical package)).getD []

/-- The records that are withdrawn. -/
def withdrawn (i : Index) : List Record := i.records.filter (·.isWithdrawn)

/-- The number of records. -/
def size (i : Index) : Nat := i.records.length

/-- Where the records come from. -/
def provenance (i : Index) : Provenance :=
  ⟨i.origin, i.fetchedAt, i.isStale, i.size, i.malformed⟩

/-- The index with one more diagnostic. -/
def withDiagnostic (i : Index) (d : Diagnostic) : Index :=
  { i with diagnostics := i.diagnostics ++ [d] }

/-- The index marked as outdated, with a diagnostic that says why. -/
def markedStale (i : Index) (d : Diagnostic) : Index :=
  { i.withDiagnostic d with isStale := true }

end Index

end LockAudit.Advisory
