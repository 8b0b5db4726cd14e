import LockAudit.Audit.Run
import LockAudit.Report.Display

/-!
# What a command sees and leaves

A command leaves blocks on the console and on the console for errors, text on its output,
and files. All of these may refuse what they are given: a console that cannot lay out a
block, an output whose encoding lacks a character or whose other end is closed, a disk
that is full. When they do so, and with which failure, is nothing that the program decides.
It is left open, and so is how a block is laid out in a file.

A command that stops before its end has left something by then, and that stays.
-/

namespace LockAudit.Command

open Display (Block)

/-- What a command writes to, and what is refused there. One reason to refuse a text is half a
surrogate pair in the document that it comes from, for which U+FFFD stands in it. -/
structure Outputs where
  /-- The failure with which the console refuses a block. -/
  console : Block → Option Failure := fun _ => none
  /-- The failure with which the console for errors refuses a block. -/
  errors : Block → Option Failure := fun _ => none
  /-- The failure with which the output refuses a text. -/
  text : String → Option Failure := fun _ => none
  /-- What a block comes to in a file. -/
  layout : Block → Except Failure String
  /-- The failure with which a file refuses a text, and the bytes that it holds then, if it
  was opened. -/
  save : File.Path → String → Option (Option (List UInt8) × Failure) := fun _ _ => none

/-- What a command can see. -/
structure Environment where
  files : File.Tree
  /-- The environment variables that are set. -/
  settings : List (String × String)
  users : File.Users
  now : Calendar.ClockReading
  /-- What becomes of a request for a feed on the web. -/
  web : Advisory.WebFeed → Advisory.Exchange
  outputs : Outputs
  limits : Limits := .unlimited
  /-- The failure of looking for lock files below a directory. -/
  search : File.Path → Option Failure := fun _ => none
  /-- How far replacing the cache gets, if the system refuses a part of it. -/
  refusal : Option Advisory.Cache.Refusal := none
  /-- The lock file wins the race against a slow source. -/
  lockfileFirst : Bool := true
  /-- How many seconds a phase of an audit takes. -/
  seconds : String → Float := fun _ => 0

/-- What a command leaves. -/
structure Result where
  status : Nat
  console : List Block := []
  errors : List Block := []
  /-- The text that is written as it is. -/
  output : String := ""
  files : File.Tree
  /-- The failure that ended the command. -/
  crash : Option Failure := none

/-- Why a command stops before its end. -/
inductive Stop where
  | shown (message : String) (details : Option String)
  | crashed (cause : Failure)

/-- A command that stops before its end: what it has left by then, and why it stops. -/
structure Halt where
  left : Result
  stop : Stop

namespace Stop

/-- A command stops with an error that is shown, if it is of a kind that is. -/
def ofFailure (cause : Failure) : Stop :=
  if cause.isReported then .shown cause.message none else .crashed cause

/-- A command stops and has left no more than files. -/
def halt (files : File.Tree) (stop : Stop) : Halt := ⟨{ status := 0, files }, stop⟩

end Stop

/-- The block, unless it is refused. -/
def taken (refusal : Block → Option Failure) (block : Block) : Except Failure Block :=
  match refusal block with
  | some cause => .error cause
  | none => .ok block

namespace Result

/-- The result, unless a failure has ended the command by then. -/
def stoppedBy (r : Result) : Option Failure → Except Halt Result
  | some cause => .error ⟨r, .crashed cause⟩
  | none => .ok r

/-- The result with further blocks on the console. -/
def onConsole (r : Result) (out : Outputs) (blocks : List (Except Failure Block)) :
    Except Halt Result :=
  let showing := Showing.ofBlocks (blocks.map (· >>= taken out.console))
  { r with console := r.console ++ showing.blocks }.stoppedBy showing.stopped

/-- The result with further blocks on the console for errors. -/
def onErrors (r : Result) (out : Outputs) (blocks : List Block) : Except Halt Result :=
  let showing := Showing.ofBlocks (blocks.map (taken out.errors))
  { r with errors := r.errors ++ showing.blocks }.stoppedBy showing.stopped

/-- The result with further text on the output. -/
def onOutput (r : Result) (out : Outputs) (text : String) : Except Halt Result := do
  let r ← r.stoppedBy (out.text text)
  pure { r with output := r.output ++ text }

end Result

/-- What a command that stops leaves. An error is shown on the console for errors, and if
that refuses it, the command crashes after all. -/
def Halt.result (out : Outputs) (h : Halt) : Result :=
  match h.stop with
  | .crashed cause => { h.left with status := 1, crash := some cause }
  | .shown message details =>
    let panel := errorPanel message details
    match out.errors panel with
    | some cause => { h.left with status := 1, crash := some cause }
    | none => { h.left with status := 2, errors := h.left.errors ++ [panel] }

/-- The result, or what is left by the stop that takes its place. -/
def settle (out : Outputs) : Except Halt Result → Result
  | .ok r => r
  | .error h => h.result out

/-- The files with a text in one of them; if it is refused, how they are left, and why. -/
def Environment.save (env : Environment) (files : File.Tree) (path : File.Path) (text : String) :
    Except (File.Tree × Failure) File.Tree :=
  match env.outputs.save path text with
  | some (some left, cause) => .error ((files.write path left).toOption.getD files, cause)
  | some (none, cause) => .error (files, cause)
  | none => (files.write path (Text.Utf8.encode text.toList)).mapError fun fault =>
      (files, .file fault)

end LockAudit.Command
