import Acutance.Codec.Flate.Inflate

namespace Acutance.Codec.Flate.Zlib

/-- The modulus of the checksum. -/
def checksumModulus : Nat := 65521

/-- The checksum of data: the sum of its bytes, and the sum of all sums on the way. -/
def checksum (data : Bytes) : Nat :=
  let (low, high) := data.foldl (fun (low, high) b =>
    let low := (low + b.toNat) % checksumModulus
    (low, (high + low) % checksumModulus)) (1, 0)
  high * 65536 + low

/-- The data in a whole envelope, if it is in order and no longer than `limit` bytes. -/
def decompress? (limit : Nat) (bytes : Bytes) : Option Bytes :=
  match (Inflater.start limit).feed bytes with
  | some ⟨stream, .finished sum, _⟩ =>
    let data := stream.output.toList
    if sum = checksum data then some data else none
  | _ => none

/-- The most bytes that a stored block can hold. -/
def storedLimit : Nat := 65535

/-- Two bytes of a number, the lower one first. -/
def littleEndian (n : Nat) : Bytes := [UInt8.ofNat (n % 256), UInt8.ofNat (n / 256)]

/-- A stored block of no more than `storedLimit` bytes. -/
def storedBlock (final : Bool) (data : Bytes) : Bytes :=
  (if final then 1 else 0) :: littleEndian data.length ++
    littleEndian (storedLimit - data.length) ++ data

/-- Data as stored blocks, the last one marked. -/
def storedBlocks (data : Bytes) : Bytes :=
  if data.length ≤ storedLimit then storedBlock true data
  else storedBlock false (data.take storedLimit) ++ storedBlocks (data.drop storedLimit)
termination_by data.length
decreasing_by
  rw [List.length_drop]
  unfold storedLimit at *
  omega

/-- Data in an envelope, without compression. The envelope opens with two bytes that name the
method, and closes with the checksum of the data. -/
def store (data : Bytes) : Bytes :=
  [0x78, 0x01] ++ storedBlocks data ++ Bytes.bigEndian 4 (checksum data)

end Acutance.Codec.Flate.Zlib
