import LockAudit.Advisory.Index
import LockAudit.Limits

/-!
# Advisory feeds

A feed is bytes with the time they were fetched and where from. Loading it gives
an index: an entry that cannot be read as a record, or repeats an earlier one, is
left out with a diagnostic, and only a feed that is no list of entries at all
fails to load.

Entries are admitted one after the other. `Admission` says what becomes of one,
given the keys of the records before it; `Load` collects the outcomes.
-/

namespace LockAudit.Advisory

/-- A feed as it was fetched. -/
structure Feed where
  bytes : List UInt8
  fetchedAt : Calendar.Instant
  origin : String
  deriving DecidableEq

/-- What becomes of withdrawn records. -/
inductive WithdrawnPolicy where
  | retain
  | drop
  deriving DecidableEq, Repr

namespace WithdrawnPolicy

/-- The name of a policy. -/
def name : WithdrawnPolicy → String
  | retain => "retain"
  | drop => "drop"

/-- The policy with a name. -/
def ofText (s : String) : Except ValueDefect WithdrawnPolicy :=
  if s = "retain" then .ok retain
  else if s = "drop" then .ok drop
  else .error (.unknownPolicy s)

/-- The policy leaves out this record. -/
def excludes (p : WithdrawnPolicy) (r : Record) : Bool := p == drop && r.isWithdrawn

end WithdrawnPolicy

/-- What diagnostics call an entry: its id, or its position. -/
def entryLabel (position : Nat) (entry : Value) : String :=
  match entry with
  | .table fields =>
    match Value.field "id" fields with
    | .text id => if Text.isBlankText id then "#" ++ toString position else Text.strip id
    | _ => "#" ++ toString position
  | _ => "#" ++ toString position

/-- What makes an entry a repetition of another. -/
def Record.key (r : Record) : String × String := (r.id, r.package)

/-- What becomes of an entry. -/
inductive Admission where
  | malformed (defect : RecordDefect)
  | repeated
  | withdrawn (r : Record)
  | kept (r : Record)
  deriving DecidableEq

/-- What becomes of an entry after records with the given keys. -/
def classify (policy : WithdrawnPolicy) (seen : List (String × String)) (entry : Value) :
    Except Failure Admission :=
  match readRecord entry with
  | .error (.dropped defect) => .ok (.malformed defect)
  | .error (.failed cause) => .error cause
  | .ok r =>
    if seen.contains r.key then .ok .repeated
    else if policy.excludes r then .ok (.withdrawn r)
    else .ok (.kept r)

/-- The diagnostic about an entry that is left out. -/
def droppedDiagnostic (label reason : String) : Diagnostic :=
  .of .malformedAdvisory ("advisory " ++ label ++ " dropped: " ++ reason) (some label)

/-- Some version lies in both ranges of a record. -/
def Record.overlaps (r : Record) : Bool := !r.patched.isEmpty && r.affected.intersects r.patched

/-- The diagnostics about a record that is kept. -/
def overlapDiagnostics (r : Record) : Except Number.Oversized (List Diagnostic) :=
  if r.overlaps then do
    let affected ← r.affected.text?
    let patched ← r.patched.text?
    pure [.of .rangeOverlap
      ("advisory " ++ r.id ++ ": affected (" ++ affected ++ ") overlaps patched (" ++ patched ++
        "); patched versions are not reported") (some r.id)]
  else pure []

/-- What the entries so far have come to. -/
structure Load where
  kept : List Record := []
  seen : List (String × String) := []
  diagnostics : List Diagnostic := []
  malformed : Nat := 0
  withdrawn : Nat := 0

namespace Load

/-- The load with an entry left out. -/
def leaveOut (l : Load) (label reason : String) : Load :=
  { l with
    malformed := l.malformed + 1
    diagnostics := l.diagnostics ++ [droppedDiagnostic label reason] }

/-- The load with one more entry. -/
def step (policy : WithdrawnPolicy) (l : Load) (position : Nat) (entry : Value) :
    Except Failure Load := do
  match ← classify policy l.seen entry with
  | .malformed defect => pure (l.leaveOut (entryLabel position entry) defect.message)
  | .repeated =>
    pure (l.leaveOut (entryLabel position entry) "duplicate of an earlier record")
  | .withdrawn r => pure { l with seen := l.seen ++ [r.key], withdrawn := l.withdrawn + 1 }
  | .kept r =>
    let found ← overlapDiagnostics r
    pure { l with
      kept := l.kept ++ [r], seen := l.seen ++ [r.key], diagnostics := l.diagnostics ++ found }

/-- The load with further entries, the first of which stands at a position. -/
def steps (policy : WithdrawnPolicy) : Load → Nat → List Value → Except Failure Load
  | l, _, [] => .ok l
  | l, position, entry :: entries => do
    steps policy (← l.step policy position entry) (position + 1) entries

/-- The diagnostics of a finished load. -/
def allDiagnostics (l : Load) : List Diagnostic :=
  if l.withdrawn = 0 then l.diagnostics
  else l.diagnostics ++
    [.of .withdrawnDropped (toString l.withdrawn ++ " withdrawn advisories excluded at load time")]

/-- The index of a finished load. -/
def index (l : Load) (fetchedAt : Calendar.Instant) (origin : String) : Index :=
  { groups := grouped l.kept
    fetchedAt, origin
    diagnostics := l.allDiagnostics
    malformed := l.malformed
    withdrawnDropped := l.withdrawn }

end Load

/-- The entries that a feed's document lists: itself, or its field `advisories`. -/
def documentEntries? : Value → Option (List Value)
  | .table fields => (Value.field "advisories" fields).list?
  | document => document.list?

namespace Feed

/-- The load fails. -/
def fail {α : Type} (f : Feed) (d : LoadDefect) : Except Failure α :=
  .error (.advisories d f.origin)

/-- The entries of a feed. -/
def entries (f : Feed) : Except Failure (List Value) :=
  match Text.Utf8.decode f.bytes with
  | .error fault => f.fail (.notUtf8 fault.defect)
  | .ok cs =>
    match Json.decode cs with
    | .error (.oversized cause) => .error (.oversized cause)
    | .error (.malformed defect rest) => f.fail (.invalidJson (Text.lineAt cs rest) defect)
    | .ok document =>
      match documentEntries? document with
      | some entries => .ok entries
      | none => f.fail .notAList

/-- The index of a feed. -/
def load (policy : WithdrawnPolicy) (f : Feed) : Except Failure Index := do
  let l ← Load.steps policy {} 0 (← f.entries)
  pure (l.index f.fetchedAt f.origin)

/-- The index of a feed whose document is not too large for the stack. -/
def loadWithin (policy : WithdrawnPolicy) (f : Feed) (limits : Limits) : Except Failure Index := do
  limits.checkBytes .feed f.bytes
  f.load policy

@[simp]
theorem loadWithin_unlimited {policy : WithdrawnPolicy} {f : Feed} :
    f.loadWithin policy .unlimited = f.load policy := by
  simp [loadWithin, bind, Except.bind]

end Feed

end LockAudit.Advisory
