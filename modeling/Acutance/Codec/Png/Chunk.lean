import Acutance.Text.Bytes

namespace Acutance.Codec.Png

/-- The eight bytes that every file begins with. -/
def signature : Bytes := [0x89, 0x50, 0x4E, 0x47, 0x0D, 0x0A, 0x1A, 0x0A]

namespace Checksum

/-- The polynomial of the checksum, lowest bit first. -/
def polynomial : UInt32 := 0xEDB88320

/-- One bit of division by the polynomial. -/
def shift (c : UInt32) : UInt32 := if c % 2 = 1 then polynomial ^^^ (c / 2) else c / 2

/-- Takes one byte into the remainder. -/
def step (c : UInt32) (b : UInt8) : UInt32 := Nat.repeat shift 8 (c ^^^ b.toUInt32)

/-- The checksum of a byte string: the remainder of its division, with every bit turned over before
and after. -/
def ofBytes (bytes : Bytes) : UInt32 := bytes.foldl step 0xFFFFFFFF ^^^ 0xFFFFFFFF

end Checksum

/-- A chunk, and whether its checksum was the right one. -/
structure Chunk where
  kind : Bytes
  data : Bytes
  intact : Bool
  deriving DecidableEq

namespace Chunk

/-- The chunk that opens a file. -/
def headerKind : Bytes := Bytes.ofAscii "IHDR"

/-- A chunk with a palette. -/
def paletteKind : Bytes := Bytes.ofAscii "PLTE"

/-- A chunk with a part of the compressed image. -/
def dataKind : Bytes := Bytes.ofAscii "IDAT"

/-- The chunk that ends a file. -/
def endKind : Bytes := Bytes.ofAscii "IEND"

/-- A chunk with the opacity of colors. -/
def transparencyKind : Bytes := Bytes.ofAscii "tRNS"

/-- A chunk with a background color. -/
def backgroundKind : Bytes := Bytes.ofAscii "bKGD"

/-- A chunk that names the color space by code points. -/
def codePointsKind : Bytes := Bytes.ofAscii "cICP"

/-- A chunk with a color profile. -/
def profileKind : Bytes := Bytes.ofAscii "iCCP"

/-- A chunk with data of the camera. -/
def cameraKind : Bytes := Bytes.ofAscii "eXIf"

/-- The chunks with texts. -/
def textKinds : List Bytes := ["tEXt", "zTXt", "iTXt"].map Bytes.ofAscii

/-- A chunk that opens a frame of an animation. -/
def frameKind : Bytes := Bytes.ofAscii "fcTL"

/-- A chunk with a part of a compressed frame behind the image. -/
def frameDataKind : Bytes := Bytes.ofAscii "fdAT"

/-- Whether a reader may skip a chunk that it does not know: the first letter of its kind is a small
one. -/
def isAncillary (kind : Bytes) : Bool := (kind.headD 0).toNat / 32 % 2 = 1

/-- Whether the data of a chunk is read. It is for a few kinds only, and if it has a length that the
kind allows. -/
def isRead (kind : Bytes) (length : Nat) : Bool :=
  if kind = paletteKind then 3 ≤ length && length ≤ 768
  else if kind = transparencyKind then 1 ≤ length && length ≤ 256
  else if kind = backgroundKind then 1 ≤ length && length ≤ 6
  else if kind = codePointsKind then length = 4
  else if kind = frameKind then length = 26
  else kind ∈ profileKind :: cameraKind :: textKinds

/-- The bytes of a chunk. -/
def render (kind data : Bytes) : Bytes :=
  Bytes.bigEndian 4 data.length ++ kind ++ data ++
    Bytes.bigEndian 4 (Checksum.ofBytes (kind ++ data)).toNat

end Chunk

/-- How the bytes behind the last whole chunk go on. -/
inductive Tail where
  /-- The kind of one more chunk is there, but not all of the chunk. -/
  | begun (kind : Bytes)
  /-- Not even the kind of one more chunk is there. -/
  | cut
  deriving DecidableEq

/-- Splits a file behind its signature into chunks. -/
def chunks (bytes : Bytes) : List Chunk × Tail :=
  if bytes.length < 8 then ([], .cut)
  else
    let length := Bytes.toNat (bytes.take 4)
    let kind := (bytes.drop 4).take 4
    let body := bytes.drop 8
    if body.length < length + 4 then ([], .begun kind)
    else
      let data := body.take length
      let sum := Bytes.toNat ((body.drop length).take 4)
      let intact := sum = (Checksum.ofBytes (kind ++ data)).toNat
      let (rest, tail) := chunks (body.drop (length + 4))
      (⟨kind, data, intact⟩ :: rest, tail)
termination_by bytes.length
decreasing_by
  rw [List.length_drop, List.length_drop]
  omega

end Acutance.Codec.Png
