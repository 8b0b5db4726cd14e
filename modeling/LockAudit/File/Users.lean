import LockAudit.File.Path

/-!
# Users and their homes

A tilde at the front of a path stands for a home directory: alone for that of the
user, before a name for that of the user of this name. The variable `HOME` tells the
first, whatever it says, and the database of users the second; the database tells the
first as well where the variable is not set. Nothing is assumed about what the two say.

What they say is taken as a path without its slashes at the end, and as the root if
nothing is left of it. A text that starts with a tilde itself is no home directory.
-/

namespace LockAudit.File

/-- What is known of the users' home directories. -/
structure Users where
  /-- What the variable `HOME` says, if it is set. -/
  home : Option String
  /-- What the database of users says of the user, if it knows the user. -/
  own : Option String
  /-- What the database of users says of the user of a name, if it knows one. -/
  named : String → Option String

namespace Users

/-- What is said of the home directory for which a name with a tilde at its front
stands. -/
def stated? (u : Users) (name : String) : Option String :=
  match name.toList.tail with
  | [] => u.home.or u.own
  | user => u.named (String.ofList user)

/-- The text of a directory without the slashes at its end; nothing stands for the
root. -/
def directoryText (s : String) : String :=
  match (s.toList.reverse.dropWhile (· = '/')).reverse with
  | [] => "/"
  | cs => String.ofList cs

/-- The home directory for which a name with a tilde at its front stands; none if
nothing is said of it, or what is said starts with a tilde. -/
def homeOf? (u : Users) (name : String) : Option Path := do
  let text := directoryText (← u.stated? name)
  if text.toList.head? = some '~' then none else some (.ofText text)

/-- The path with a name with a tilde at its front replaced by the home directory that
it stands for; none if there is none. -/
def expand? (u : Users) (p : Path) : Option Path :=
  match p.root, p.names with
  | "", first :: rest =>
    if first.toList.head? = some '~' then do
      let home ← u.homeOf? first
      some ⟨home.root, home.names ++ rest⟩
    else some p
  | _, _ => some p

end Users

end LockAudit.File
