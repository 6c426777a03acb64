import Acutance.Codec.Error
import Acutance.Codec.Png.Frame
import Acutance.Codec.Png.Preamble
import Acutance.Raster.Image

namespace Acutance.Codec.Png

/-- Decompresses the parts of an image until as many bytes as may have come out, or the data is at
its end. Parts behind that are not looked at. At least `needed` bytes come out. -/
def gather? (needed : Nat) (i : Flate.Inflater) (parts : List Bytes) : Option (Array UInt8) :=
  if i.isFinished || i.stream.isFull then
    if needed ≤ i.stream.output.size then some i.stream.output else none
  else
    match parts with
    | [] => none
    | part :: rest => do gather? needed (← i.feed part) rest
termination_by parts

/-- Whether samples are bytes and do not index a palette. -/
def Header.isReadable (h : Header) : Bool := h.depth = .eight && h.color ≠ .indexed

/-- The samples of a pixel from the bytes of a frame: a gray byte counts three times, and
transparency is left out. -/
def Frame.pixelSamples (f : Frame) (i : Nat) : List Sample :=
  let byte (k : Nat) : Sample := narrow (f.bytes.getD (i * f.pixelBytes + k) 0).toNat
  if f.pixelBytes ≤ 2 then [byte 0, byte 0, byte 0] else [byte 0, byte 1, byte 2]

/-- The image that a frame shows. -/
def Frame.toImage (f : Frame) : Except CodecError Image :=
  let samples := (List.range f.extent.area).flatMap f.pixelSamples
  (Image.ofSamples f.extent .rgb samples.toArray).mapError .raster

/-- The frame of an image whose header is readable. -/
def readFrame? (h : Header) (rest : List Chunk) (tail : Tail) : Option Frame := do
  let parts ← imageData? rest tail
  let bytes ← gather? (imageBytes h) (.start (decompressedLimit h)) parts
  Frame.restore? h bytes.toList

/-- Reads an image in red, green and blue. A layout that is not read is named before an extent that
is refused, and both before anything that is wrong with the image data. -/
def read (bytes : Bytes) : Except CodecError Image := do
  let some (header, rest, tail) := openFile? bytes | throw (.decode .header)
  if ! header.isReadable then throw (.unsupported (.layout header.color header.depth))
  header.extent.check.mapError .raster
  let some frame := readFrame? header rest tail | throw (.decode .frame)
  frame.toImage

end Acutance.Codec.Png
