import Acutance.Proofs.Buffer.Image
import Acutance.Proofs.Pnm.Cursor
import Acutance.Workbench.Source

namespace Acutance

namespace Codec.Png

/-- The extent of an image and its samples, three to a pixel. -/
def raster (bytes : Bytes) : Except CodecError (Extent × Array Sample) := do
  let some (header, rest, tail) := openFile? bytes | throw (.decode .header)
  if ! header.isReadable then throw (.unsupported (.layout header.color header.depth))
  header.extent.check.mapError .raster
  let some frame := readFrame? header rest tail | throw (.decode .frame)
  return (frame.extent, ((List.range frame.extent.area).flatMap frame.pixelSamples).toArray)

private theorem read_eq_raster_bind (bytes : Bytes) : read bytes = raster bytes >>= fun shown =>
    (Image.ofSamples shown.1 .rgb shown.2).mapError .raster := by
  unfold read raster
  cases openFile? bytes with
  | none => rfl
  | some file =>
    obtain ⟨header, rest, tail⟩ := file
    dsimp only [bind, Except.bind]
    cases header.isReadable with
    | false => rfl
    | true =>
      cases header.extent.check.mapError CodecError.raster with
      | error e => rfl
      | ok _ =>
        cases readFrame? header rest tail with
        | none => rfl
        | some frame => rfl

end Codec.Png

namespace ImageBuffer

/-- Reads the samples of a file into a buffer. -/
def ofRaster (shown : Run (Flaw CodecError) (Extent × Array Sample)) :
    Run (Flaw CodecError) ImageBuffer := do
  let (extent, samples) ← shown
  Run.restate (Flaw.map .raster) (ofSamples extent .rgb samples)

def read (bytes : Bytes) : FileFormat → Run (Flaw CodecError) ImageBuffer
  | .pnm => ofRaster (Codec.Pnm.rasterAt bytes)
  | .png => ofRaster (Run.answering (Codec.Png.raster bytes))

/-- Reads an image file in a given format, or in the one that its first bytes tell. -/
def decode (bytes : Bytes) : ReadMode → Run (Flaw CodecError) ImageBuffer
  | .detected => do read bytes (← Run.answering (FileFormat.detect bytes))
  | .format f => read bytes f

end ImageBuffer

namespace Image

private theorem ofRaster_buffer (shown : Except CodecError (Extent × Array Sample)) :
    ImageBuffer.ofRaster (Run.answering shown) = (Run.ofExcept (shown >>= fun shown =>
      (ofSamples shown.1 .rgb shown.2).mapError .raster)).laidOut buffer := by
  cases shown with
  | error e => rfl
  | ok shown =>
    change Run.restate _ (ImageBuffer.ofSamples shown.1 .rgb shown.2) = _
    rw [ofSamples_buffer, ← Run.laidOut_restate]
    change _ = (Run.ofExcept ((ofSamples shown.1 .rgb shown.2).mapError CodecError.raster)).laidOut buffer
    cases ofSamples shown.1 .rgb shown.2 <;> rfl

private theorem read_buffer (bytes : Bytes) (f : FileFormat) : ImageBuffer.read bytes f =
    (Run.ofExcept ((ReadMode.format f).read bytes)).laidOut buffer := by
  cases f with
  | pnm =>
    rw [ImageBuffer.read, Codec.Pnm.rasterAt_eq, ofRaster_buffer, ReadMode.read,
      Codec.Pnm.read_eq_raster_bind]
  | png => rw [ImageBuffer.read, ofRaster_buffer, ReadMode.read, Codec.Png.read_eq_raster_bind]

theorem decode_buffer (bytes : Bytes) (mode : ReadMode) :
    ImageBuffer.decode bytes mode = (Run.ofExcept (mode.read bytes)).laidOut buffer := by
  cases mode with
  | format f => exact read_buffer bytes f
  | detected =>
    rw [ImageBuffer.decode, ReadMode.read, Codec.read]
    cases FileFormat.detect bytes with
    | error e => rfl
    | ok f =>
      cases f with
      | pnm => exact read_buffer bytes .pnm
      | png => exact read_buffer bytes .png

end Image

end Acutance
