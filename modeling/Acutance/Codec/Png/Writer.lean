import Acutance.Codec.Flate.Zlib
import Acutance.Codec.Png.Chunk
import Acutance.Codec.Png.Header
import Acutance.Codec.Sink
import Acutance.Raster.Image

namespace Acutance.Codec.Png

/-- The row of an image as bytes, behind the code for no prediction. -/
def rowBytes (image : Image) (y : Nat) : Bytes :=
  let samples := (List.range image.extent.width).flatMap fun x => (image.pixel x y).samples
  0 :: samples.map byteOf

/-- The image before compression. -/
def filteredRows (image : Image) : Bytes :=
  (List.range image.extent.height).flatMap fun y => rowBytes image y

/-- Writes bytes, and names the part of the file that could not be written. -/
def writePart (part : EncodePart) (data : Bytes) : Edit Sink CodecError Unit :=
  Edit.restate (fun _ => .encode part) (Sink.write data)

/-- Writes the chunk that ends the file, as far as there is room. The image is complete without
it. -/
def writeEnd : Edit Sink CodecError Unit := fun sink =>
  match Sink.write (Chunk.render Chunk.endKind []) sink with
  | .ok _ sink => .ok () sink
  | .error _ sink => .ok () sink

/-- Writes an image in red, green and blue. Nothing is written of an image in another space. -/
def write (image : Image) : Edit Sink CodecError Unit := do
  Edit.lift (Run.restate .raster (Run.ofExcept (image.expectSpace .rgb)))
  writePart .header (signature ++ Chunk.render Chunk.headerKind (Header.colorBytes image.extent))
  writePart .imageData (Chunk.render Chunk.dataKind (Flate.Zlib.store (filteredRows image)))
  writeEnd

end Acutance.Codec.Png
