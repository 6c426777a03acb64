import Acutance.Codec.Pnm.Scanner
import Acutance.Raster.Image

namespace Acutance.Codec.Pnm

/-- The variants of the format that are read. -/
inductive Variant where
  | grayText
  | colorText
  | grayBytes
  | colorBytes
  deriving DecidableEq, Repr

namespace Variant

/-- The variant that a file begins with. -/
def ofMagic? (magic : Bytes) : Option Variant :=
  if magic = Bytes.ofAscii "P2" then some grayText
  else if magic = Bytes.ofAscii "P3" then some colorText
  else if magic = Bytes.ofAscii "P5" then some grayBytes
  else if magic = Bytes.ofAscii "P6" then some colorBytes
  else none

/-- The number of samples that a pixel has in the file. -/
def channels : Variant → Nat
  | grayText | grayBytes => 1
  | colorText | colorBytes => 3

/-- Whether the raster is decimal text. -/
def isText : Variant → Bool
  | grayText | colorText => true
  | grayBytes | colorBytes => false

end Variant

/-- The extent of the image and the sample that stands for full intensity. -/
structure Header where
  extent : Extent
  maxval : Nat
  deriving DecidableEq, Repr

/-- The largest sample that a file may name as full intensity. -/
def maxvalLimit : Nat := 65535

/-- Reads a number of the header. -/
def headerNumber (token : Token) (bytes : Bytes) : Except CodecError (Nat × Bytes) :=
  match number token bytes with
  | (.ok n, rest) => .ok (n, rest)
  | (.error defect, _) => .error (.invalid defect)

/-- Reads the header behind the magic number. -/
def Header.read (bytes : Bytes) : Except CodecError (Header × Bytes) := do
  let (width, bytes) ← headerNumber .width bytes
  let (height, bytes) ← headerNumber .height bytes
  let (maxval, bytes) ← headerNumber .maxval bytes
  if maxval = 0 ∨ maxvalLimit < maxval then throw (.invalid (.maxval maxval))
  let extent : Extent := ⟨width, height⟩
  extent.check.mapError .raster
  return (⟨extent, maxval⟩, bytes)

/-- Reads samples from text until `needed` of them have been read. A sample that is refused with
nothing but blanks behind it means that the raster ends too early. -/
def textSamples (needed : Nat) : (left : Nat) → Array Sample → Bytes → Except Defect (Array Sample)
  | 0, samples, _ => .ok samples
  | left + 1, samples, bytes =>
    match number .sample bytes with
    | (.ok n, rest) => textSamples needed left (samples.push (narrow n)) rest
    | (.error defect, rest) =>
      if rest.all isBlank then .error (.truncatedSamples samples.size needed) else .error defect

/-- The number of bytes that a sample takes. -/
def Header.sampleBytes (h : Header) : Nat := if h.maxval < 256 then 1 else 2

/-- The sample at a place of a raster of bytes. The first of two bytes is the higher one. -/
def byteSample (sampleBytes : Nat) (raster : Array UInt8) (i : Nat) : Sample :=
  if sampleBytes = 1 then narrow (raster.getD i 0).toNat
  else narrow ((raster.getD (2 * i) 0).toNat * 256 + (raster.getD (2 * i + 1) 0).toNat)

/-- Reads samples from a raster of bytes, which begins behind a single blank. What follows the
raster is not looked at. -/
def byteSamples (needed sampleBytes : Nat) (bytes : Bytes) : Except Defect (Array Sample) :=
  match bytes with
  | [] => .error .noSeparator
  | blank :: raster =>
    if isBlank blank then
      if raster.length < needed * sampleBytes then
        .error (.truncatedBytes raster.length (needed * sampleBytes))
      else
        let raster := (raster.take (needed * sampleBytes)).toArray
        .ok (Array.ofFn fun i : Fin needed => byteSample sampleBytes raster i)
    else .error .noSeparator

/-- Reads the samples of the raster as the file holds them. -/
def readSamples (variant : Variant) (h : Header) (bytes : Bytes) : Except Defect (Array Sample) :=
  let needed := h.extent.area * variant.channels
  if variant.isText then textSamples needed needed #[] bytes
  else byteSamples needed h.sampleBytes bytes

/-- Gives each gray sample to all three of its pixel. -/
def spread (variant : Variant) (samples : Array Sample) : Array Sample :=
  if variant.channels = 1 then samples.flatMap fun s => #[s, s, s] else samples

/-- Reads an image in red, green and blue. Samples are kept as they are read, and the extent is
checked before the raster is looked at. -/
def read (bytes : Bytes) : Except CodecError Image := do
  if bytes.length < 2 then throw (.invalid .noMagic)
  let magic := bytes.take 2
  let some variant := Variant.ofMagic? magic | throw (.unsupported (.magic magic))
  let (header, raster) ← Header.read (bytes.drop 2)
  let samples ← (readSamples variant header raster).mapError .invalid
  (Image.ofSamples header.extent .rgb (spread variant samples)).mapError .raster

end Acutance.Codec.Pnm
