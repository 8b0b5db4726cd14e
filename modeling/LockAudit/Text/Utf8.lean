/-!
# UTF-8

Files and feeds are bytes. Reading them as text fails at the first byte that no
well-formed text could hold at that place, with one of three reasons and the
run of bytes that is to blame: the bytes of a character that were well-formed
before it broke off.
-/

namespace LockAudit.Text.Utf8

/-- Why bytes are not UTF-8. -/
inductive Defect where
  | invalidStart
  | invalidContinuation
  | unexpectedEnd
  deriving DecidableEq, Repr

/-- What a defect is called in messages. -/
def Defect.reason : Defect → String
  | .invalidStart => "invalid start byte"
  | .invalidContinuation => "invalid continuation byte"
  | .unexpectedEnd => "unexpected end of data"

/-- The first defect of some bytes: where the blamed run starts, its first byte
and its length. -/
structure Fault where
  defect : Defect
  position : Nat
  first : UInt8
  count : Nat
  deriving DecidableEq, Repr

/-- The byte continues a character. -/
def isContinuation (b : UInt8) : Bool := 0x80 ≤ b && b < 0xc0

/-- The second byte may follow the first: it continues a character, and the pair
starts neither an overlong form, nor a surrogate, nor a code point past the last. -/
def isSecond (first second : UInt8) : Bool :=
  isContinuation second && !(first == 0xe0 && second < 0xa0) && !(first == 0xed && second ≥ 0xa0) &&
    !(first == 0xf0 && second < 0x90) && !(first == 0xf4 && second ≥ 0x90)

/-- How many bytes the character that starts with this byte has; none if no
character starts so. -/
def width? (b : UInt8) : Option Nat :=
  if b < 0x80 then some 1
  else if b < 0xc2 then none
  else if b < 0xe0 then some 2
  else if b < 0xf0 then some 3
  else if b < 0xf5 then some 4
  else none

/-- The low bits that a continuation byte adds. -/
def low (b : UInt8) : Nat := b.toNat % 64

/-- The characters of some bytes that stand at a position, after those already
read in reverse. -/
def decodeAfter (read : List Char) (position : Nat) : List UInt8 → Except Fault (List Char)
  | [] => .ok read.reverse
  | b₁ :: rest₁ =>
    -- A refusal covers the bytes that fit so far, and not the one that does not.
    match width? b₁ with
    | none => .error ⟨.invalidStart, position, b₁, 1⟩
    | some 1 => decodeAfter (Char.ofNat b₁.toNat :: read) (position + 1) rest₁
    | some w =>
      match rest₁ with
      | [] => .error ⟨.unexpectedEnd, position, b₁, 1⟩
      | b₂ :: rest₂ =>
        if !isSecond b₁ b₂ then .error ⟨.invalidContinuation, position, b₁, 1⟩
        else if w = 2 then
          decodeAfter (Char.ofNat (b₁.toNat % 32 * 64 + low b₂) :: read) (position + 2) rest₂
        else match rest₂ with
        | [] => .error ⟨.unexpectedEnd, position, b₁, 2⟩
        | b₃ :: rest₃ =>
          if !isContinuation b₃ then .error ⟨.invalidContinuation, position, b₁, 2⟩
          else if w = 3 then
            decodeAfter (Char.ofNat (b₁.toNat % 16 * 4096 + low b₂ * 64 + low b₃) :: read)
              (position + 3) rest₃
          else match rest₃ with
          | [] => .error ⟨.unexpectedEnd, position, b₁, 3⟩
          | b₄ :: rest₄ =>
            if !isContinuation b₄ then .error ⟨.invalidContinuation, position, b₁, 3⟩
            else
              decodeAfter
                (Char.ofNat (b₁.toNat % 8 * 262144 + low b₂ * 4096 + low b₃ * 64 + low b₄) :: read)
                (position + 4) rest₄

/-- The characters that some bytes spell. -/
def decode (bytes : List UInt8) : Except Fault (List Char) := decodeAfter [] 0 bytes

/-- A continuation byte with the given low bits. -/
def continuation (n : Nat) : UInt8 := UInt8.ofNat (0x80 + n % 64)

/-- The bytes of one character. -/
def encodeChar (c : Char) : List UInt8 :=
  let n := c.toNat
  if n < 0x80 then [UInt8.ofNat n]
  else if n < 0x800 then [UInt8.ofNat (0xc0 + n / 64), continuation n]
  else if n < 0x10000 then [UInt8.ofNat (0xe0 + n / 4096), continuation (n / 64), continuation n]
  else [UInt8.ofNat (0xf0 + n / 262144), continuation (n / 4096), continuation (n / 64),
    continuation n]

/-- The bytes of a text. -/
def encode (cs : List Char) : List UInt8 := cs.flatMap encodeChar

end LockAudit.Text.Utf8
