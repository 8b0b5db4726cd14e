import LockAudit.Lockfile.Builder

/-!
# Lock files with a package list

A lock file of this format is the JSON document that `Graph.dump` writes: an
object whose field `packages` lists the dependencies. A dependency says itself
whether it is direct.

Defects of an entry are located at the line on which the entry starts. The lines
are found by walking over the text once more, value by value; of several fields
`packages` the last one counts.
-/

namespace LockAudit.Lockfile.Object

/-- The text after a value. -/
def dropValue (cs : List Char) : List Char :=
  match Json.readFirst cs with
  | .ok (_, rest) => rest
  | .error _ => []

/-- The lines on which the items of a list start, from one item on, and the text
after the list. The first argument bounds the number of items. -/
def itemLines (document : List Char) : Nat → List Char → List Nat × List Char
  | 0, cs => ([], cs)
  | _, [] => ([], [])
  | _, ']' :: rest => ([], rest)
  | fuel + 1, cs =>
    let line := Text.lineAt document cs
    let rest := match Json.skip (dropValue cs) with
      | ',' :: rest => Json.skip rest
      | rest => rest
    let (lines, rest) := itemLines document fuel rest
    (line :: lines, rest)

/-- The lines of the entries, from one field of the document on. The first
argument bounds the number of fields. -/
def fieldLines (document : List Char) : Nat → List Nat → List Char → List Nat
  | 0, lines, _ => lines
  | fuel + 1, lines, cs =>
    match Json.skip cs with
    | '"' :: rest =>
      match Json.readString rest with
      | .error _ => lines
      | .ok (name, rest) =>
        let value := Json.skip ((Json.skip rest).drop 1)
        -- Of two fields with this name the later one counts, as for its value.
        let (lines, rest) := match name, value with
          | "packages", '[' :: items => itemLines document items.length (Json.skip items)
          | _, value => (lines, dropValue value)
        match Json.skip rest with
        | ',' :: rest => fieldLines document fuel lines rest
        | rest => fieldLines document fuel lines rest
    | _ => lines

/-- The line on which each entry starts, in a text that is known to be JSON. -/
def entryLines (cs : List Char) : List Nat :=
  fieldLines cs cs.length [] ((Json.skip cs).drop 1)

/-- A defect of an entry. -/
def refuse {α : Type} (b : Builder) (index : Nat) (line : Option Nat) (d : EntryDefect) :
    Except Failure α :=
  b.fail line (.entry (.object index) d)

/-- Whether an entry says that its dependency is direct. -/
def readDirect (b : Builder) (index : Nat) (line : Option Nat) (name : String)
    (fields : List (String × Value)) : Except Failure Bool :=
  match Value.lookup? "direct" fields with
  | none => .ok false
  | some (.bool direct) => .ok direct
  | _ => refuse b index line (.directNotBool name)

/-- The builder with one entry added. -/
def addEntry (b : Builder) (index : Nat) (entry : Value) (line : Option Nat) :
    Except Failure Builder := do
  match entry with
  | .table fields =>
    match Value.field "name" fields with
    | .text name =>
      if Text.isBlankText name then refuse b index line .nameMissing
      else match Value.field "version" fields with
      | .text version =>
        let source ← b.readSource line (.object index) name fields
        let direct ← readDirect b index line name fields
        let references ← b.readReferences line (.object index) name fields
        pure (← b.add name version source references direct line).1
      | _ => refuse b index line (.versionMissing name)
    | _ => refuse b index line .nameMissing
  | _ => refuse b index line .notATable

/-- The builder with entries added from an index on, each with its line as far as
lines are given. -/
def addEntries (b : Builder) (index : Nat) : List Value → List Nat → Except Failure Builder
  | [], _ => .ok b
  | entry :: entries, [] => do
    addEntries (← addEntry b index entry none) (index + 1) entries []
  | entry :: entries, line :: lines => do
    addEntries (← addEntry b index entry (some line)) (index + 1) entries lines

/-- The graph of a lock file's text. -/
def parseText (cs : List Char) (path : Option String) : Except Failure Graph := do
  match Json.decode cs with
  | .error (.oversized cause) => throw (.oversized cause)
  | .error (.malformed defect rest) =>
    throw (.lockfile (.invalidJson defect) ⟨some (Text.lineAt cs rest), path⟩)
  | .ok (.table fields) =>
    match Value.field "packages" fields with
    | .list packages => (← addEntries { path } 0 packages (entryLines cs)).build
    | _ => throw (.lockfile .packagesNotList ⟨none, path⟩)
  | .ok _ => throw (.lockfile .notAnObject ⟨some 1, path⟩)

end LockAudit.Lockfile.Object
