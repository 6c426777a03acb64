import Acutance.Codec.Sink
import Acutance.Raster.Image
import Acutance.Text.Decimal

namespace Acutance.Codec.Pnm

/-- How the samples of a raster are written. Bytes are the usual way. -/
inductive Encoding where
  | bytes
  | text
  deriving DecidableEq, Repr, Inhabited

/-- The magic number of the variant that is written. -/
def Encoding.magic : Encoding → Bytes
  | .bytes => Bytes.ofAscii "P6"
  | .text => Bytes.ofAscii "P3"

/-- The header up to and including the end of its last line. -/
def headerBytes (encoding : Encoding) (e : Extent) : Bytes :=
  encoding.magic ++ Bytes.ofAscii "\n" ++ Decimal.digits e.width ++ Bytes.ofAscii " " ++
    Decimal.digits e.height ++ Bytes.ofAscii "\n255\n"

/-- A line of text for one row: its samples with a space between each two. -/
def lineBytes (image : Image) (y : Nat) : Bytes :=
  let samples := (List.range image.extent.width).flatMap fun x => (image.pixel x y).samples
  let numbers := samples.map fun s => Decimal.digits (byteOf s).toNat
  List.intercalate (Bytes.ofAscii " ") numbers ++ Bytes.ofAscii "\n"

/-- Writes an image in red, green and blue. Nothing is written of an image in another space. -/
def write (image : Image) (encoding : Encoding) : Edit Sink CodecError Unit := do
  Edit.lift (Run.restate .raster (Run.ofExcept (image.expectSpace .rgb)))
  Edit.restate .system (Sink.write (headerBytes encoding image.extent))
  match encoding with
  | .bytes => Edit.restate .system (Sink.write (image.samples.map byteOf))
  | .text =>
    (List.range image.extent.height).forM fun y =>
      Edit.restate .system (Sink.write (lineBytes image y))

end Acutance.Codec.Pnm
