/-!
# Base 64

The cache stores a feed's bytes in base 64, so that any bytes fit into a JSON
text. Writing is the usual padded form. Reading is lenient: characters outside
the alphabet are passed over, and the text ends at padding that completes a
group of four.
-/

namespace LockAudit.Text.Base64

/-- The character for six bits. -/
def digit (n : Nat) : Char :=
  if n < 26 then Char.ofNat (65 + n)
  else if n < 52 then Char.ofNat (71 + n)
  else if n < 62 then Char.ofNat (n - 4)
  else if n = 62 then '+'
  else '/'

/-- The six bits of a character of the alphabet. -/
def value? (c : Char) : Option Nat :=
  if 'A' ≤ c ∧ c ≤ 'Z' then some (c.toNat - 65)
  else if 'a' ≤ c ∧ c ≤ 'z' then some (c.toNat - 71)
  else if '0' ≤ c ∧ c ≤ '9' then some (c.toNat + 4)
  else if c = '+' then some 62
  else if c = '/' then some 63
  else none

/-- Three bytes make four characters; a shorter last group is padded. -/
def encode : List UInt8 → List Char
  | [] => []
  | [a] => [digit (a.toNat / 4), digit (a.toNat % 4 * 16), '=', '=']
  | [a, b] =>
    [digit (a.toNat / 4), digit (a.toNat % 4 * 16 + b.toNat / 16), digit (b.toNat % 16 * 4), '=']
  | a :: b :: c :: rest =>
    digit (a.toNat / 4) :: digit (a.toNat % 4 * 16 + b.toNat / 16) ::
      digit (b.toNat % 16 * 4 + c.toNat / 64) :: digit (c.toNat % 64) :: encode rest

/-- Reading inside a group: how many of its characters were read, the bits left
over from the last of them, and how many padding characters followed it. -/
structure Group where
  size : Nat
  left : Nat
  pads : Nat

/-- The bytes of a text, after those already read in reverse. -/
def decodeAfter (read : List UInt8) (g : Group) : List Char → Option (List UInt8)
  | [] => if g.size = 0 then some read.reverse else none
  | c :: cs =>
    if c = '=' then
      if g.size ≥ 2 then
        if g.size + g.pads + 1 ≥ 4 then some read.reverse
        else decodeAfter read { g with pads := g.pads + 1 } cs
      else decodeAfter read g cs
    else match value? c with
      | none => decodeAfter read g cs
      | some v =>
        match g.size with
        | 0 => decodeAfter read ⟨1, v, 0⟩ cs
        | 1 => decodeAfter (UInt8.ofNat (g.left * 4 + v / 16) :: read) ⟨2, v % 16, 0⟩ cs
        | 2 => decodeAfter (UInt8.ofNat (g.left * 16 + v / 4) :: read) ⟨3, v % 4, 0⟩ cs
        | _ => decodeAfter (UInt8.ofNat (g.left * 64 + v) :: read) ⟨0, 0, 0⟩ cs

/-- The bytes that a text spells; none if it is not ASCII or a group is left
incomplete. -/
def decode? (cs : List Char) : Option (List UInt8) :=
  if cs.all (·.toNat < 128) then decodeAfter [] ⟨0, 0, 0⟩ cs else none

end LockAudit.Text.Base64
