import Acutance.Codec.Png.Layout
import Acutance.Raster.Extent
import Acutance.Text.Bytes

namespace Acutance.Codec.Png

/-- What the header says of an image. -/
structure Header where
  extent : Extent
  color : ColorType
  depth : BitDepth
  interlaced : Bool
  deriving DecidableEq

namespace Header

/-- The number of bytes of the data of a header. -/
def size : Nat := 13

/-- The number of bytes that a row of `width` pixels takes. -/
def rowBytes (h : Header) (width : Nat) : Nat := (width * h.color.samples * h.depth.bits + 7) / 8

/-- Reads the data of a header. The image has a place, color type and depth go together, and there
is one way to compress, one set of filters, and interlacing or none. -/
def ofBytes? (data : Bytes) : Option Header := do
  guard (data.length = size)
  let extent : Extent := ⟨Bytes.toNat (data.take 4), Bytes.toNat ((data.drop 4).take 4)⟩
  let depth ← BitDepth.ofCode? (data.getD 8 0)
  let color ← ColorType.ofCode? (data.getD 9 0)
  guard extent.Nonempty
  guard (color.allows depth)
  guard (data.getD 10 0 = 0)
  guard (data.getD 11 0 = 0)
  guard (data.getD 12 0 = 0 ∨ data.getD 12 0 = 1)
  return ⟨extent, color, depth, data.getD 12 0 = 1⟩

/-- The data of the header of an image with three bytes to a pixel. -/
def colorBytes (e : Extent) : Bytes :=
  Bytes.bigEndian 4 e.width ++ Bytes.bigEndian 4 e.height ++ [8, 2, 0, 0, 0]

end Header

end Acutance.Codec.Png
