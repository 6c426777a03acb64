import Acutance.Text.Bytes

namespace Acutance.Codec.Flate

/-- The compressed data that is there, the number of bits taken from it, the bytes that came out,
and the most bytes that may come out. Bits are taken from each byte lowest first. -/
structure Stream where
  input : Array UInt8
  taken : Nat
  output : Array UInt8
  limit : Nat

namespace Stream

/-- A stream without data. -/
def start (limit : Nat) : Stream := ⟨#[], 0, #[], limit⟩

/-- Adds a part to the data. -/
def append (s : Stream) (part : Bytes) : Stream := { s with input := s.input.appendList part }

/-- The number of bits that are there and not taken. -/
def available (s : Stream) : Nat := s.input.size * 8 - s.taken

/-- The number of bytes that may still come out. -/
def room (s : Stream) : Nat := s.limit - s.output.size

/-- Whether no more bytes may come out. -/
def isFull (s : Stream) : Bool := s.room = 0

/-- The number of bits in a window. -/
def windowBits : Nat := 48

/-- A byte of the data as a number. Behind the data stand zeros. -/
def byteAt (s : Stream) (i : Nat) : Nat := (s.input.getD i 0).toNat

/-- The bits from an offset behind the taken ones, as a number whose lowest bit is the first of
them. Bits behind the data count as zeros. -/
def window (s : Stream) (offset : Nat) : Nat :=
  let position := s.taken + offset
  let i := position / 8
  let low := s.byteAt i + s.byteAt (i + 1) <<< 8 + s.byteAt (i + 2) <<< 16
  let high := s.byteAt (i + 3) + s.byteAt (i + 4) <<< 8 + s.byteAt (i + 5) <<< 16
  (low + high <<< 24 + s.byteAt (i + 6) <<< 48) >>> (position % 8) % 1 <<< windowBits

/-- The number that `count` bits from an offset behind the taken ones stand for. -/
def bits (s : Stream) (offset count : Nat) : Nat := s.window offset % 1 <<< count

/-- Takes bits. -/
def skip (s : Stream) (count : Nat) : Stream := { s with taken := s.taken + count }

/-- The number of bits up to the next whole byte, from an offset behind the taken ones. -/
def padding (s : Stream) (offset : Nat) : Nat := (8 - (s.taken + offset) % 8) % 8

/-- Puts a byte out, if it may come out. -/
def emit (s : Stream) (b : UInt8) : Stream :=
  if s.isFull then s else { s with output := s.output.push b }

/-- Puts out bytes as they stand in the data, where a whole byte begins. -/
def copyBytes (s : Stream) : (count : Nat) → Stream
  | 0 => s
  | count + 1 =>
    ((s.emit (s.input.getD (s.taken / 8) 0)).skip 8).copyBytes count

/-- Puts out again the byte that came out `distance` bytes ago, `count` times over. -/
def repeatBytes (s : Stream) (distance : Nat) : (count : Nat) → Stream
  | 0 => s
  | count + 1 => (s.emit (s.output.getD (s.output.size - distance) 0)).repeatBytes distance count

end Stream

end Acutance.Codec.Flate
