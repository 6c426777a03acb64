import Acutance.Codec.Flate.Zlib
import Acutance.Codec.Png.Chunk
import Acutance.Codec.Png.Header

namespace Acutance.Codec.Png

/-- What is remembered of the chunks behind the header. -/
structure Preamble where
  header : Header
  /-- The number of bytes that may still be asked for. -/
  memory : Nat
  /-- The number of bytes that were asked for to hold the data of a chunk. -/
  buffer : Nat
  hasPalette : Bool
  hasCodePoints : Bool
  hasProfile : Bool
  /-- The number of frames that were opened. -/
  frames : Nat
  deriving DecidableEq

namespace Preamble

/-- The number of bytes that a file may ask for. It asks for the data of the chunks that are read,
for texts and a color profile, and for a row of the image. -/
def memoryLimit : Nat := 64 * 1024 * 1024

/-- The number of bytes that hold the data of a chunk without asking for more. -/
def bufferSize : Nat := 128

/-- Nothing stands behind the header yet. -/
def start (header : Header) : Preamble :=
  ⟨header, memoryLimit, bufferSize, false, false, false, 0⟩

/-- Asks for memory. -/
def reserve? (p : Preamble) (count : Nat) : Option Preamble :=
  if count ≤ p.memory then some { p with memory := p.memory - count } else none

/-- The size of a buffer for the data of a chunk. It is doubled until it is large enough. -/
def bufferFor (length : Nat) : Nat :=
  if length ≤ bufferSize then bufferSize
  else bufferSize <<< (((length - 1) / bufferSize).log2 + 1)

/-- Makes room for the data of a chunk. The room stays for the chunks behind it. -/
def hold? (p : Preamble) (length : Nat) : Option Preamble := do
  let buffer := max p.buffer (bufferFor length)
  let p ← p.reserve? (buffer - p.buffer)
  return { p with buffer := buffer }

/-- Takes a palette. There is one at most. -/
def takePalette? (p : Preamble) : Option Preamble := do
  guard (! p.hasPalette)
  return { p with hasPalette := true }

/-- Takes a background color. The palette that it points into has to be there. -/
def takeBackground? (p : Preamble) : Option Preamble := do
  guard (p.header.color ≠ .indexed || p.hasPalette)
  return p

/-- Takes the code points of a color space: colors are red, green and blue, and their range is told
by zero or one. Only the first ones are looked at, and none behind a palette. -/
def takeCodePoints? (p : Preamble) (data : Bytes) : Option Preamble := do
  if p.hasPalette || p.hasCodePoints then return p
  guard (data.getD 2 0 = 0 ∧ data.getD 3 0 ≤ 1)
  return { p with hasCodePoints := true }

/-- The profile in the data of a chunk: a name of at most 80 bytes, a zero, the zero that names the
method, and the compressed profile. -/
def profile? (limit : Nat) (data : Bytes) : Option Bytes := do
  let name := data.takeWhile fun b => b ≠ 0
  guard (name ≠ [] ∧ name.length ≤ 80)
  match data.drop name.length with
  | 0 :: 0 :: compressed => Flate.Zlib.decompress? limit compressed
  | _ => none

/-- Takes a color profile. Only the first one is looked at. -/
def takeProfile? (p : Preamble) (data : Bytes) : Option Preamble := do
  if p.hasProfile then return p
  let p := { p with hasProfile := true }
  match profile? p.memory data with
  | none => return p
  | some profile => p.reserve? profile.length

/-- Takes the opening of a frame. Frames are numbered from zero, and one in front of the image data
covers the whole image. -/
def takeFrame? (p : Preamble) (data : Bytes) : Option Preamble := do
  let number (offset : Nat) : Nat := Bytes.toNat ((data.drop offset).take 4)
  guard (number 0 = p.frames)
  guard (number 4 = p.header.extent.width ∧ number 8 = p.header.extent.height)
  guard (number 12 = 0 ∧ number 16 = 0)
  guard (data.getD 24 0 ≤ 2 ∧ data.getD 25 0 ≤ 1)
  return { p with frames := p.frames + 1 }

/-- Takes the data of a chunk that is read. -/
def takeData? (p : Preamble) (kind data : Bytes) : Option Preamble :=
  if kind = Chunk.paletteKind then p.takePalette?
  else if kind = Chunk.backgroundKind then p.takeBackground?
  else if kind = Chunk.codePointsKind then p.takeCodePoints? data
  else if kind = Chunk.profileKind then p.takeProfile? data
  else if kind = Chunk.frameKind then p.takeFrame? data
  else if Chunk.textKinds.any fun text => kind = text then p.reserve? data.length
  else some p

/-- Takes a chunk. An ancillary one is skipped if it is not read or if its checksum is wrong, but
data of the wrong length does not open a frame. -/
def take? (p : Preamble) (chunk : Chunk) : Option Preamble := do
  guard (chunk.kind ≠ Chunk.frameDataKind)
  if Chunk.isRead chunk.kind chunk.data.length then
    let p ← p.hold? chunk.data.length
    if chunk.intact then p.takeData? chunk.kind chunk.data
    else
      guard (Chunk.isAncillary chunk.kind)
      return p
  else
    guard (Chunk.isAncillary chunk.kind ∧ chunk.kind ≠ Chunk.frameKind)
    return p

/-- Takes chunks up to the image data, which begins in a whole chunk or in one that is cut off. -/
def takeAll? (p : Preamble) : List Chunk → Tail → Option Preamble
  | [], tail => if tail = .begun Chunk.dataKind then some p else none
  | chunk :: rest, tail =>
    if chunk.kind = Chunk.dataKind then some p
    else do (← p.take? chunk).takeAll? rest tail

end Preamble

/-- The header of a file and the chunks behind it, if everything up to the image data is in order
and there is memory for a row. -/
def openFile? (bytes : Bytes) : Option (Header × List Chunk × Tail) := do
  guard (bytes.take signature.length = signature)
  let (first :: rest, tail) := chunks (bytes.drop signature.length) | none
  guard (first.kind = Chunk.headerKind ∧ first.intact)
  let header ← Header.ofBytes? first.data
  let preamble ← (Preamble.start header).takeAll? rest tail
  let _ ← preamble.reserve? (header.rowBytes header.extent.width)
  return (header, rest, tail)

/-- The parts of the compressed image, if all of them are whole and the file goes on behind them. -/
def imageData? (rest : List Chunk) (tail : Tail) : Option (List Bytes) := do
  let rest := rest.dropWhile fun chunk => chunk.kind ≠ Chunk.dataKind
  let parts := rest.takeWhile fun chunk => chunk.kind = Chunk.dataKind
  guard (parts.all fun chunk => chunk.intact)
  guard (parts.length < rest.length ∨ (tail ≠ .cut ∧ tail ≠ .begun Chunk.dataKind))
  return parts.map fun chunk => chunk.data

end Acutance.Codec.Png
