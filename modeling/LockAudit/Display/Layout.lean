import LockAudit.Display.Block
import LockAudit.Display.Markup
import LockAudit.Failure

/-!
# Plain text layout

Blocks as text of a fixed width without colours. A panel is a box as wide as the
page, with its title in the upper edge. The columns of a table are as wide as
their widest cell, and its title is centred above it. Nothing is wrapped: a line
that is too long for the page is not for this layout.

This is the layout of the program's own consoles. What a command does is not told from
it: how blocks are laid out is left open there.
-/

namespace LockAudit.Display.Layout

/-- The width of a page. -/
def pageWidth : Nat := 100

/-- The character is not shown at all. -/
def isHidden (c : Char) : Bool :=
  c = '\x07' || c = '\x08' || c = '\x0b' || c = '\x0c' || c = '\r'

/-- The lines of a text. -/
def textLines (cs : List Char) : List (List Char) := Text.splitOn '\n' (cs.filter (!isHidden ·))

/-- A character some times over. -/
def fill (n : Nat) (c : Char) : List Char := List.replicate n c

/-- A line padded to a width. -/
def padRight (width : Nat) (line : List Char) : List Char :=
  line ++ fill (width - line.length) ' '

/-- A line centred in a width; what cannot be halved goes to the right. -/
def center (width : Nat) (c : Char) (line : List Char) : List Char :=
  let spare := width - line.length
  fill (spare / 2) c ++ line ++ fill (spare - spare / 2) c

/-- The lines in a panel. -/
def bodyLines : Body → Except Markup.Defect (List (List Char))
  | .plain markup => do pure (textLines (← Markup.plain markup))
  | .styled text => .ok (textLines text.text.toList)
  | .group texts => .ok (texts.flatMap fun text => textLines text.text.toList)

/-- The lines of a panel. -/
def panelLines (title : Option String) (body : List (List Char)) : List (List Char) :=
  let inner := pageWidth - 2
  let head := match title with
    | some title => center inner '─' (' ' :: title.toList ++ [' '])
    | none => fill inner '─'
  ('╭' :: head ++ ['╮']) ::
    body.map (fun line => '│' :: ' ' :: padRight (inner - 2) line ++ [' ', '│']) ++
    ['╰' :: fill inner '─' ++ ['╯']]

/-- The lines in a cell. -/
def cellLines : Cell → Except Markup.Defect (List (List Char))
  | .plain markup => do pure (textLines (← Markup.plain markup))
  | .styled text => .ok (textLines text.text.toList)

/-- The width of a cell. -/
def cellWidth (cell : List (List Char)) : Nat := (cell.map (·.length)).foldl max 0

/-- The widths of columns, as far as rows have cells for them. -/
def columnWidths (columns : Nat) (rows : List (List (List (List Char)))) : List Nat :=
  (List.range columns).map fun i =>
    (rows.map fun row => cellWidth (row[i]?.getD [])).foldl max 0

/-- An edge of a table: its ends, its joints, and the line between them. -/
def edge (left line joint right : Char) (widths : List Nat) : List Char :=
  left :: [joint].intercalate (widths.map fun w => fill (w + 2) line) ++ [right]

/-- One line of cells. -/
def cellLine (bar : Char) (cells : List (Nat × List Char)) : List Char :=
  bar :: [bar].intercalate (cells.map fun c => ' ' :: padRight c.1 c.2 ++ [' ']) ++ [bar]

/-- The lines of a row: as many as its highest cell has. -/
def rowLines (bar : Char) (widths : List Nat) (row : List (List (List Char))) :
    List (List Char) :=
  let height := (row.map (·.length)).foldl max 1
  (List.range height).map fun i =>
    cellLine bar ((widths.zip row).map fun c => (c.1, c.2[i]?.getD []))

/-- The lines of a table. -/
def tableLines (title : String) (columns : List (List (List Char)))
    (rows : List (List (List (List Char)))) : List (List Char) :=
  let widths := columnWidths columns.length (columns :: rows)
  let top := edge '┏' '━' '┳' '┓' widths
  center top.length ' ' title.toList :: top ::
    rowLines '┃' widths columns ++
    [edge '┡' '━' '╇' '┩' widths] ++
    rows.flatMap (rowLines '│' widths) ++
    [edge '└' '─' '┴' '┘' widths]

/-- The lines of a block. -/
def blockLines : Block → Except Markup.Defect (List (List Char))
  | .plain markup => do pure (textLines (← Markup.plain markup))
  | .styled text => .ok (textLines text.text.toList)
  | .panel title _ body => do pure (panelLines title (← bodyLines body))
  | .table title columns rows => do
    let rows ← rows.mapM fun row => row.mapM cellLines
    pure (tableLines title (columns.map fun c => [c.toList]) rows)

/-- A block as text, each line with a line end. -/
def text (block : Block) : Except Failure String :=
  match blockLines block with
  | .ok lines => .ok (String.ofList (lines.flatMap fun line => line ++ ['\n']))
  | .error defect => .error (.foreign "MarkupError" defect.message)

end LockAudit.Display.Layout
