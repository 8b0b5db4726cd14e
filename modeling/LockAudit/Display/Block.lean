/-!
# What is shown

Commands show texts, panels and tables. A text either has one style, or may hold
markup for parts of it. How blocks are laid out is not said here.
-/

namespace LockAudit.Display

/-- A text in one style. -/
structure Styled where
  text : String
  style : String := ""
  deriving DecidableEq, Repr

/-- A cell of a table: a text that may hold markup, or one in a style. -/
inductive Cell where
  | plain (markup : String)
  | styled (text : Styled)
  deriving DecidableEq, Repr

/-- The inside of a panel. -/
inductive Body where
  | plain (markup : String)
  | styled (text : Styled)
  | group (texts : List Styled)
  deriving DecidableEq, Repr

/-- Something that is shown. -/
inductive Block where
  | plain (markup : String)
  | styled (text : Styled)
  | panel (title : Option String) (style : String) (body : Body)
  | table (title : String) (columns : List String) (rows : List (List Cell))
  deriving DecidableEq, Repr

end LockAudit.Display
