import Acutance.Codec.FileFormat
import Acutance.Enhance
import Acutance.Files.System

namespace Acutance

namespace Files

variable {m : Type → Type} [Monad m] [FileSystem m]

/-- The format of a file by its first bytes. -/
def detect (path : String) : m (Except CodecError FileFormat) := do
  match ← FileSystem.readFile path with
  | .error e => return .error (.system e)
  | .ok bytes => return FileFormat.detect (bytes.take FileFormat.detectionBytes)

/-- Reads an image from a file, with a decoder for the bytes of the file. -/
def readWith (decode : Bytes → Except CodecError Image) (path : String) :
    m (Except CodecError Image) := do
  match ← FileSystem.readFile path with
  | .error e => return .error (.system e)
  | .ok bytes => return decode bytes

/-- Reads an image in whichever format its file tells. -/
def read (path : String) : m (Except CodecError Image) := readWith Codec.read path

/-- Writes an image to a file, with an encoder for images. The file is created first, so it is
there also when the image cannot be written, and then it holds what was written of the image until
then. -/
def writeWith (encode : Image → FileFormat → Edit Sink CodecError Unit) (image : Image)
    (path : String) (format : FileFormat) : m (Run CodecError Unit) := do
  match ← FileSystem.createFile path with
  | .error e => return .error (.error (.system e))
  | .ok () =>
    match encode image format .unlimited with
    | .error stop sink =>
      let _ ← FileSystem.writeFile path sink.bytes
      return .error stop
    | .ok () sink =>
      match ← FileSystem.writeFile path sink.bytes with
      | .error e => return .error (.error (.system e))
      | .ok () => return .ok ()

/-- Writes an image to a file in a format. -/
def write (image : Image) (path : String) (format : FileFormat) : m (Run CodecError Unit) :=
  writeWith Codec.write image path format

/-- The format of a file that is written, by the extension of its path. Without a known extension
it is PNM. -/
def formatFor (path : String) : FileFormat := (FileFormat.ofPath? path).getD .pnm

/-- Reads an image, enhances it and writes it to another file, or to the same one, with a decoder
and an encoder for images. -/
def enhanceWith (decode : Bytes → Except CodecError Image)
    (encode : Image → FileFormat → Edit Sink CodecError Unit) (input output : String) :
    m (Run EnhanceError Unit) := do
  match ← readWith decode input with
  | .error e => return .error (.error (.codec e))
  | .ok image =>
    match Acutance.enhance.result image with
    | .error stop => return .error stop
    | .ok image =>
      let written ← writeWith encode image output (formatFor output)
      return written.restate .codec

/-- Enhances an image from one file into another, or into the same one. -/
def enhance (input output : String) : m (Run EnhanceError Unit) :=
  enhanceWith Codec.read Codec.write input output

end Files

end Acutance
