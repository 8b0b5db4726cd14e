import LockAudit.Value

/-!
# Writing JSON

One writer serves the lock files, the reports and the cache. They differ in
three decisions, which `Style` names: whether characters outside ASCII are
escaped, whether fields are sorted by name, and whether every item stands on a
line of its own.
-/

namespace LockAudit.Json

/-- How a document is laid out. -/
structure Style where
  /-- Everything outside printable ASCII is escaped. -/
  ascii : Bool
  /-- Fields are in the order of their names. -/
  sorted : Bool
  /-- Items stand on lines of their own, each level indented by this much. -/
  indent : Option Nat

/-- One line, in the given order. -/
def Style.line : Style := ⟨true, false, none⟩

/-- The lines of a lock file. -/
def Style.lockfile : Style := ⟨true, true, some 2⟩

/-- The lines of a report. -/
def Style.report : Style := ⟨false, true, some 2⟩

/-- The escape of one code unit. -/
def escapeUnit (n : Nat) : List Char := '\\' :: 'u' :: Text.hexDigits 4 n

/-- The escape of a character, as one unit or as a pair. -/
def escapeCode (c : Char) : List Char :=
  if c.toNat < 0x10000 then escapeUnit c.toNat
  else
    let n := c.toNat - 0x10000
    escapeUnit (0xd800 + n / 0x400) ++ escapeUnit (0xdc00 + n % 0x400)

/-- A character as it stands in a string. -/
def writeChar (ascii : Bool) (c : Char) : List Char :=
  match c with
  | '"' => ['\\', '"']
  | '\\' => ['\\', '\\']
  | '\n' => ['\\', 'n']
  | '\r' => ['\\', 'r']
  | '\t' => ['\\', 't']
  | '\x0c' => ['\\', 'f']
  | '\x08' => ['\\', 'b']
  | c =>
    if c.toNat < 0x20 then escapeCode c
    else if ascii && 0x7e < c.toNat then escapeCode c
    else [c]

/-- A string with its quotes. -/
def writeText (ascii : Bool) (s : String) : List Char :=
  '"' :: s.toList.flatMap (writeChar ascii) ++ ['"']

/-- A double: the shortest digits, or the name of a value that has none. -/
def writeFloat (x : Float) : List Char :=
  match Number.Binary.ofFloat x with
  | .nan => "NaN".toList
  | .infinite negative => (if negative then "-Infinity" else "Infinity").toList
  | .finite .. => (Number.floatText x).toList

mutual

/-- A value with the fields of every table in the order of their names. -/
def sortKeys : Value → Value
  | .list items => .list (sortItems items)
  | .table fields => .table ((sortFields fields).mergeSort fun a b => (compare a.1 b.1).isLE)
  | v => v

/-- The items of a list with their tables sorted. -/
def sortItems : List Value → List Value
  | [] => []
  | item :: items => sortKeys item :: sortItems items

/-- The fields of a table with the tables in them sorted. -/
def sortFields : List (String × Value) → List (String × Value)
  | [] => []
  | (name, value) :: fields => (name, sortKeys value) :: sortFields fields

end

/-- What stands before an item at some depth. -/
def lineBreak (indent : Option Nat) (depth : Nat) : List Char :=
  match indent with
  | none => []
  | some n => '\n' :: List.replicate (n * depth) ' '

/-- What stands between two items at some depth. -/
def separator (indent : Option Nat) (depth : Nat) : List Char :=
  match indent with
  | none => [',', ' ']
  | some _ => ',' :: lineBreak indent depth

mutual

/-- A value at some depth; dates and times are written as their texts. -/
def writeValue (ascii : Bool) (indent : Option Nat) (depth : Nat) : Value → List Char
  | .null => "null".toList
  | .bool b => (if b then "true" else "false").toList
  | .int n => (toString n).toList
  | .float x => writeFloat x
  | .text s => writeText ascii s
  | .date d => writeText ascii d.text
  | .time t => writeText ascii t.text
  | .dateTime t => writeText ascii (t.date.text ++ "T" ++ t.time.text)
  | .list [] => ['[', ']']
  | .list (item :: items) =>
    '[' :: lineBreak indent (depth + 1) ++ writeValue ascii indent (depth + 1) item ++
      writeItems ascii indent (depth + 1) items ++ lineBreak indent depth ++ [']']
  | .table [] => ['\x7b', '\x7d']
  | .table ((name, value) :: fields) =>
    '\x7b' :: lineBreak indent (depth + 1) ++ writeText ascii name ++ [':', ' '] ++
      writeValue ascii indent (depth + 1) value ++
      writeFields ascii indent (depth + 1) fields ++ lineBreak indent depth ++ ['\x7d']

/-- The items of a list after the first. -/
def writeItems (ascii : Bool) (indent : Option Nat) (depth : Nat) : List Value → List Char
  | [] => []
  | item :: items =>
    separator indent depth ++ writeValue ascii indent depth item ++
      writeItems ascii indent depth items

/-- The fields of a table after the first. -/
def writeFields (ascii : Bool) (indent : Option Nat) (depth : Nat) :
    List (String × Value) → List Char
  | [] => []
  | (name, value) :: fields =>
    separator indent depth ++ writeText ascii name ++ [':', ' '] ++
      writeValue ascii indent depth value ++ writeFields ascii indent depth fields

end

/-- A document in a style, without a line end. -/
def encode (style : Style) (v : Value) : List Char :=
  writeValue style.ascii style.indent 0 (if style.sorted then sortKeys v else v)

end LockAudit.Json
