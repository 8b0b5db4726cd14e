import LockAudit.Calendar.Instant

/-!
# Decoded documents

Lock files, feeds, suppression files and the advisory cache are documents in one
of two data formats. Both decode to the same values, so that the rules about
entries are written once. A table keeps its fields in the order in which their
names first appear.

Messages show a value in the notation of `Value.describe`, which fails for an
integer that is too long to be written.
-/

namespace LockAudit

/-- A value of a decoded document. -/
inductive Value where
  | null
  | bool (b : Bool)
  | int (n : Int)
  | float (x : Float)
  | text (s : String)
  | date (d : Calendar.Date)
  | time (t : Calendar.Time)
  | dateTime (t : Calendar.DateTime)
  | list (items : List Value)
  | table (fields : List (String × Value))

namespace Value

instance : Inhabited Value := ⟨null⟩

/-- The value of the field with a name. -/
def lookup? (name : String) : List (String × Value) → Option Value
  | [] => none
  | (key, value) :: rest => if key = name then some value else lookup? name rest

/-- A table with a field set: in its old place if there is one, else at the end. -/
def setField (name : String) (value : Value) : List (String × Value) → List (String × Value)
  | [] => [(name, value)]
  | (key, old) :: rest =>
    if key = name then (key, value) :: rest else (key, old) :: setField name value rest

/-- The value of a field, `null` if the table has no such field. -/
def field (name : String) (fields : List (String × Value)) : Value :=
  (lookup? name fields).getD null

/-- The value counts as given: it is not `null`, false, zero or empty. -/
def isGiven : Value → Bool
  | null => false
  | bool b => b
  | int n => n ≠ 0
  | float x => x != 0
  | text s => !s.isEmpty
  | list items => !items.isEmpty
  | table fields => !fields.isEmpty
  | date _ | time _ | dateTime _ => true

/-- The text of a value that is one. -/
def text? : Value → Option String
  | text s => some s
  | _ => none

/-- The items of a value that is a list. -/
def list? : Value → Option (List Value)
  | list items => some items
  | _ => none

/-- The texts of a list that holds nothing else. -/
def texts? (v : Value) : Option (List String) := do (← v.list?).mapM text?

/-- What a value that is no table is called in messages. -/
def kindName : Value → String
  | null => "NoneType"
  | bool _ => "bool"
  | int _ => "int"
  | float _ => "float"
  | text _ => "str"
  | date _ => "datetime.date"
  | time _ => "datetime.time"
  | dateTime _ => "datetime.datetime"
  | list _ => "list"
  | table _ => "dict"

/-- The arguments of a clock time, without trailing zero seconds. -/
def describeClock (t : Calendar.Time) : List String :=
  [toString t.hour, toString t.minute] ++
    (if t.second = 0 ∧ t.micro = 0 then [] else [toString t.second]) ++
    (if t.micro = 0 then [] else [toString t.micro])

/-- The arguments of a date. -/
def describeDay (d : Calendar.Date) : List String :=
  [toString d.year, toString d.month, toString d.day]

/-- The offset of a timestamp as a further argument. -/
def describeOffset : Option Int → List String
  | none => []
  | some 0 => ["tzinfo=datetime.timezone.utc"]
  | some n => ["tzinfo=datetime.timezone(" ++ (Calendar.Duration.mk n).partsText ++ ")"]

/-- A name with arguments in parentheses. -/
def describeCall (name : String) (args : List String) : String :=
  name ++ "(" ++ ", ".intercalate args ++ ")"

mutual

/-- A value as messages show it. -/
def describe : Value → Except Number.Oversized String
  | null => pure "None"
  | bool b => pure (if b then "True" else "False")
  | int n => Number.write n
  | float x => pure (Number.floatText x)
  | text s => pure (Text.quote s)
  | date d => pure (describeCall "datetime.date" (describeDay d))
  | time t => pure (describeCall "datetime.time" (describeClock t))
  | dateTime t =>
    pure (describeCall "datetime.datetime"
      (describeDay t.date ++ describeClock t.time ++ describeOffset t.offset))
  | list items => do pure ("[" ++ ", ".intercalate (← describeItems items) ++ "]")
  | table fields => do pure ("\x7b" ++ ", ".intercalate (← describeFields fields) ++ "\x7d")

/-- The items of a list as messages show them. -/
def describeItems : List Value → Except Number.Oversized (List String)
  | [] => pure []
  | item :: items => do
    let first ← describe item
    pure (first :: (← describeItems items))

/-- The fields of a table as messages show them. -/
def describeFields : List (String × Value) → Except Number.Oversized (List String)
  | [] => pure []
  | (name, value) :: fields => do
    let first ← describe value
    pure ((Text.quote name ++ ": " ++ first) :: (← describeFields fields))

end

end Value

end LockAudit
