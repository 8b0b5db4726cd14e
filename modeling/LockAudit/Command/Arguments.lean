import LockAudit.Text.Blank

/-!
# Command-line arguments

Options and operands may stand in any order. An option with a value takes it from
the same argument, after an equals sign or right after its letter, or else the
next argument whatever that looks like. Letters without values can be put
together. Two dashes alone end the options.
-/

namespace LockAudit.Command

/-- An option: its names with their dashes, the first of which identifies it. -/
structure OptionSpec where
  name : String
  letter : Option Char := none
  takesValue : Bool := false
  deriving DecidableEq, Repr

/-- The arguments as they were given: options in order, each with its value if it
takes one, and operands. -/
structure Arguments where
  options : List (String × String) := []
  operands : List String := []
  deriving DecidableEq, Repr

/-- What an argument with options says: options that are complete, and perhaps one
whose value is the next argument. -/
structure Given where
  complete : List (String × String)
  pending : Option String

/-- A text before and after its first equals sign. -/
def splitValue (arg : String) : String × Option String :=
  match Text.splitFirst? ['='] arg.toList with
  | some (name, value) => (String.ofList name, some (String.ofList value))
  | none => (arg, none)

/-- What an option given by its name says. -/
def readLong (specs : List OptionSpec) (arg : String) : Option Given := do
  let (name, value) := splitValue arg
  let spec ← specs.find? (·.name == name)
  match spec.takesValue, value with
  | true, some value => some ⟨[(spec.name, value)], none⟩
  | true, none => some ⟨[], some spec.name⟩
  | false, none => some ⟨[(spec.name, "")], none⟩
  | false, some _ => none

/-- What options given by their letters say. -/
def readLetters (specs : List OptionSpec) : List Char → Option Given
  | [] => some ⟨[], none⟩
  | c :: cs => do
    let spec ← specs.find? (·.letter == some c)
    if spec.takesValue then
      if cs.isEmpty then some ⟨[], some spec.name⟩
      else some ⟨[(spec.name, String.ofList cs)], none⟩
    else
      let more ← readLetters specs cs
      some ⟨(spec.name, "") :: more.complete, more.pending⟩

/-- What an argument that starts with a dash says. -/
def readOption (specs : List OptionSpec) (arg : String) : Option Given :=
  match arg.toList with
  | '-' :: '-' :: _ => readLong specs arg
  | '-' :: letters => readLetters specs letters
  | _ => none

/-- The argument holds options. -/
def holdsOptions (arg : String) : Bool := arg.toList.head? = some '-' && 1 < arg.length

/-- The arguments from some point on, where the value of an option may be due;
none if they are not allowed. -/
def readFrom (specs : List OptionSpec) (read : Arguments) (pending : Option String) :
    List String → Option Arguments
  | [] => if pending.isSome then none else some read
  | arg :: rest =>
    match pending with
    | some name =>
      readFrom specs { read with options := read.options ++ [(name, arg)] } none rest
    | none =>
      if arg = "--" then some { read with operands := read.operands ++ rest }
      else if holdsOptions arg then do
        let given ← readOption specs arg
        readFrom specs { read with options := read.options ++ given.complete } given.pending rest
      else readFrom specs { read with operands := read.operands ++ [arg] } none rest

namespace Arguments

/-- The arguments that a command line gives; none if they are not allowed. -/
def read (specs : List OptionSpec) (args : List String) : Option Arguments :=
  readFrom specs {} none args

/-- All values given for an option. -/
def values (a : Arguments) (name : String) : List String :=
  (a.options.filter (·.1 == name)).map (·.2)

/-- The value given last for an option. -/
def value? (a : Arguments) (name : String) : Option String := (a.values name).getLast?

/-- The option is given. -/
def has (a : Arguments) (name : String) : Bool := a.options.any (·.1 == name)

end Arguments

end LockAudit.Command
