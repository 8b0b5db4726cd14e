import LockAudit.Toml.Scalar

/-!
# Reading TOML

A document is a sequence of statements: table headers, headers of tables in a
list, and settings of dotted keys under the latest header. Which keys may still
be opened or set is a matter of two marks. A table that a header has opened, or
that a dotted key has gone through in an earlier section, is *declared*; a value
written as an inline table or a list is *frozen*, with everything below it. A
header for a further table in a list takes both marks off everything below the
list, because the names below it now stand for a new table.
-/

namespace LockAudit.Toml

/-- Fields by name, in the order in which they first appear. -/
abbrev Fields := List (String × Value)

/-- Changes the table behind a key, opening the tables on the way; none if the way
leads through something else. With `lists`, a list on the way stands for its
last table. -/
def updateTable (lists : Bool) (f : Fields → Option Fields) : Key → Fields → Option Fields
  | [], fields => f fields
  | name :: key, fields =>
    match Value.lookup? name fields with
    | none => do some (Value.setField name (.table (← updateTable lists f key [])) fields)
    | some (.table inner) => do
      some (Value.setField name (.table (← updateTable lists f key inner)) fields)
    | some (.list items) =>
      match lists, items.getLast? with
      | true, some (.table inner) => do
        let inner ← updateTable lists f key inner
        some (Value.setField name (.list (items.dropLast ++ [.table inner])) fields)
      | _, _ => none
    | some _ => none

/-- Opens a further table in the list behind a name. -/
def openInList (name : String) (fields : Fields) : Option Fields :=
  match Value.lookup? name fields with
  | none => some (Value.setField name (.list [.table []]) fields)
  | some (.list items) => some (Value.setField name (.list (items ++ [.table []])) fields)
  | some _ => none

/-- What has been read of a document. -/
structure Document where
  root : Fields := []
  declared : List Key := []
  frozen : List Key := []
  /-- Keys that count as declared from the next header on. -/
  pending : List Key := []
  header : Key := []

namespace Document

/-- The key has been opened by a header or gone through by a dotted key. -/
def isDeclared (d : Document) (key : Key) : Bool := d.declared.contains key

/-- The key leads to or through an inline table or a list. -/
def isFrozen (d : Document) (key : Key) : Bool := d.frozen.any (·.isPrefixOf key)

/-- A header ends the section, so what was pending is declared. -/
def endSection (d : Document) : Document :=
  { d with declared := d.declared ++ d.pending, pending := [] }

/-- Takes the marks off a key and everything below it. -/
def release (d : Document) (key : Key) : Document :=
  { d with
    declared := d.declared.filter (!key.isPrefixOf ·)
    frozen := d.frozen.filter (!key.isPrefixOf ·) }

end Document

/-- A value as inline, with everything below it fixed. -/
def isContainer : Value → Bool
  | .list _ | .table _ => true
  | _ => false

/-- A character of a part of a key that is not quoted. -/
def isBareKeyChar (c : Char) : Bool :=
  ('a' ≤ c && c ≤ 'z') || ('A' ≤ c && c ≤ 'Z') || Text.isAsciiDigit c || c = '-' || c = '_'

/-- One part of a key. -/
def readKeyPart (cs : List Char) : Except Fault (String × List Char) :=
  let bare := cs.takeWhile isBareKeyChar
  if bare.isEmpty then (readString? true cs).getD (.error (.malformed .invalidKeyStart cs))
  else .ok (String.ofList bare, cs.drop bare.length)

/-- A dotted key and the text after it. The first argument bounds the number of
parts; the length of the text and one more are enough. -/
def readKeyWithin : Nat → List Char → Except Fault (Key × List Char)
  | 0, cs => .error (.malformed .invalidKeyStart cs)
  | fuel + 1, cs => do
    let (part, rest) ← readKeyPart cs
    match skip rest with
    | '.' :: rest => do
      let (parts, rest) ← readKeyWithin fuel (skip rest)
      pure (part :: parts, rest)
    | rest => pure ([part], rest)

/-- A dotted key and the text after it. -/
def readKey (cs : List Char) : Except Fault (Key × List Char) := readKeyWithin (cs.length + 1) cs

/-- A dotted key and the text after the sign that follows it. -/
def readKeyAndEquals (cs : List Char) : Except Fault (Key × List Char) := do
  let (key, rest) ← readKey cs
  match rest with
  | '=' :: rest => pure (key, skip rest)
  | rest => throw (.malformed .expectedEquals rest)

mutual

/-- A value. The first argument bounds the nesting and the number of items; twice
the length of the text is enough. -/
def readValue : Nat → List Char → Except Fault (Value × List Char)
  | 0, cs => .error (.malformed .invalidValue cs)
  | fuel + 1, cs =>
    match cs with
    | '[' :: rest => do
      match ← skipLines rest with
      | ']' :: rest => pure (.list [], rest)
      | rest => readItems fuel [] rest
    | '\x7b' :: rest =>
      match skip rest with
      | '\x7d' :: rest => .ok (.table [], rest)
      | rest => readInlineFields fuel [] [] rest
    | cs =>
      match readString? false cs with
      | some result => do
        let (s, rest) ← result
        pure (.text s, rest)
      | none => readScalar cs

/-- The items of a list from one item on, after those already read in reverse. -/
def readItems : Nat → List Value → List Char → Except Fault (Value × List Char)
  | 0, _, cs => .error (.malformed .invalidValue cs)
  | fuel + 1, read, cs => do
    let (item, rest) ← readValue fuel cs
    match ← skipLines rest with
    | ']' :: rest => pure (.list (item :: read).reverse, rest)
    | ',' :: rest =>
      match ← skipLines rest with
      | ']' :: rest => pure (.list (item :: read).reverse, rest)
      | rest => readItems fuel (item :: read) rest
    | rest => throw (.malformed .unclosedArray rest)

/-- The fields of an inline table from one field on, after those already read and
the keys that are frozen among them. -/
def readInlineFields :
    Nat → List Key → Fields → List Char → Except Fault (Value × List Char)
  | 0, _, _, cs => .error (.malformed .invalidKeyStart cs)
  | fuel + 1, frozen, read, cs => do
    let (key, rest) ← readKeyAndEquals cs
    let (value, rest) ← readValue fuel rest
    if frozen.any (·.isPrefixOf key) then throw (.malformed (.immutable key) rest)
    let name := key.getLast?.getD ""
    match updateTable false some key.dropLast read with
    | none => throw (.malformed .overwritten rest)
    | some _ =>
      let setNew := fun fields =>
        if (Value.lookup? name fields).isSome then none
        else some (Value.setField name value fields)
      match updateTable false setNew key.dropLast read with
      | none => throw (.malformed (.duplicateInlineKey name) rest)
      | some read =>
        match skip rest with
        | '\x7d' :: rest => pure (.table read, rest)
        | ',' :: rest =>
          let frozen := if isContainer value then frozen ++ [key] else frozen
          readInlineFields fuel frozen read (skip rest)
        | rest => throw (.malformed .unclosedInlineTable rest)

end

/-- A header that opens a table, after its bracket. -/
def readTableHeader (d : Document) (cs : List Char) : Except Fault (Document × List Char) := do
  let (key, rest) ← readKey (skip cs)
  if d.isDeclared key || d.isFrozen key then throw (.malformed (.declaredTwice key) rest)
  match updateTable true some key d.root with
  | none => throw (.malformed .overwritten rest)
  | some root =>
    match rest with
    | ']' :: rest => pure ({ d with root, declared := d.declared ++ [key], header := key }, rest)
    | rest => throw (.malformed .expectedTableEnd rest)

/-- A header that opens a further table in a list, after its brackets. -/
def readArrayHeader (d : Document) (cs : List Char) : Except Fault (Document × List Char) := do
  let (key, rest) ← readKey (skip cs)
  if d.isFrozen key then throw (.malformed (.immutable key) rest)
  let d := d.release key
  match updateTable true (openInList (key.getLast?.getD "")) key.dropLast d.root with
  | none => throw (.malformed .overwritten rest)
  | some root =>
    match rest with
    | ']' :: ']' :: rest =>
      pure ({ d with root, declared := d.declared ++ [key], header := key }, rest)
    | rest => throw (.malformed .expectedArrayTableEnd rest)

/-- The keys that a dotted key goes through under a header. -/
def throughKeys (header key : Key) : List Key :=
  (List.range (key.length - 1)).map fun i => header ++ key.take (i + 1)

/-- The setting of a dotted key. -/
def readSetting (d : Document) (cs : List Char) : Except Fault (Document × List Char) := do
  let (key, rest) ← readKeyAndEquals cs
  let (value, rest) ← readValue (2 * rest.length + 2) rest
  let through := throughKeys d.header key
  match through.find? d.isDeclared with
  | some key => throw (.malformed (.redefined key) rest)
  | none =>
    let parent := d.header ++ key.dropLast
    if d.isFrozen parent then throw (.malformed (.immutable parent) rest)
    let name := key.getLast?.getD ""
    let setNew := fun fields =>
      if (Value.lookup? name fields).isSome then none else some (Value.setField name value fields)
    match updateTable true setNew parent d.root with
    | none => throw (.malformed .overwritten rest)
    | some root =>
      let frozen := if isContainer value then d.frozen ++ [d.header ++ key] else d.frozen
      pure ({ d with root, frozen, pending := d.pending ++ through }, rest)

/-- A statement at the start of a text that is neither empty nor a line end, and
what follows it on its line. -/
def readStatement (d : Document) (cs : List Char) : Except Fault (Document × List Char) :=
  match cs with
  | '[' :: '[' :: rest => readArrayHeader d.endSection rest
  | '[' :: rest => readTableHeader d.endSection rest
  | '#' :: _ => .ok (d, cs)
  | c :: _ =>
    if isBareKeyChar c || c = '"' || c = '\'' then readSetting d cs
    else .error (.malformed .invalidStatement cs)
  | [] => .ok (d, [])

/-- The statements of a text. The first argument bounds their number; the length
of the text and one more are enough. -/
def readStatements : Nat → Document → List Char → Except Fault Document
  | 0, d, _ => .ok d
  | fuel + 1, d, cs =>
    match skip cs with
    | [] => .ok d
    | '\n' :: rest => readStatements fuel d rest
    | rest => do
      let (d, rest) ← readStatement d rest
      match ← skipComment (skip rest) with
      | [] => pure d
      | '\n' :: rest => readStatements fuel d rest
      | rest => throw (.malformed .expectedLineEnd rest)

/-- The characters of a text as the reader sees them. -/
def source (cs : List Char) : List Char := Text.dropReturns cs

/-- The fields that a document spells. The places of faults are suffixes of its
`source`. -/
def decode (cs : List Char) : Except Fault Fields := do
  let cs := source cs
  pure (← readStatements (cs.length + 1) {} cs).root

end LockAudit.Toml
