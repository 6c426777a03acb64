import Acutance.Codec.Error
import Acutance.Text.Decimal

namespace Acutance.Codec.Pnm

/-- The byte that begins a comment. -/
def commentByte : UInt8 := 35

/-- The byte that ends a line. -/
def newline : UInt8 := 10

/-- Whether a byte is blank: a space, a tab, a line feed, a form feed or a carriage return. -/
def isBlank (b : UInt8) : Bool := b = 32 || b = 9 || b = newline || b = 12 || b = 13

/-- The first number that does not fit into 32 bits, which a token cannot hold. -/
def tokenLimit : Nat := 4294967296

/-- Drops separators from the front, inside a comment or outside of any. -/
def skip : (inComment : Bool) → Bytes → Bytes
  | _, [] => []
  | true, b :: rest => skip (b ≠ newline) rest
  | false, b :: rest =>
    if b = commentByte then skip true rest
    else if isBlank b then skip false rest
    else b :: rest

/-- Drops the blanks and comments at the front. -/
def skipSeparators (bytes : Bytes) : Bytes := skip false bytes

/-- Reads a number after any separators, and gives what follows its digits. A number that is refused
still takes its digits, so that its reader can tell whether anything follows. -/
def number (token : Token) (bytes : Bytes) : Except Defect Nat × Bytes :=
  let start := skipSeparators bytes
  let digits := start.takeWhile Decimal.isDigit
  let rest := start.dropWhile Decimal.isDigit
  if digits.isEmpty then (.error (.missing token), rest)
  else if tokenLimit ≤ Decimal.toNat digits then (.error (.outOfRange token), rest)
  else (.ok (Decimal.toNat digits), rest)

end Acutance.Codec.Pnm
