import Acutance.Codec.Pnm.Reader
import Acutance.Codec.Pnm.Writer
import Acutance.Codec.Png.Reader
import Acutance.Codec.Png.Writer
import Acutance.Files.Path

namespace Acutance

/-- A file format for images. -/
inductive FileFormat where
  | pnm
  | png
  deriving DecidableEq, Repr

namespace FileFormat

/-- The usual extension of a file in the format. -/
def extension : FileFormat → String
  | pnm => "ppm"
  | png => "png"

/-- The format that an extension names, in letters of either case. -/
def ofExtension? (extension : String) : Option FileFormat :=
  let lower := extension.map Char.toLower
  if lower = "ppm" || lower = "pgm" || lower = "pnm" then some pnm
  else if lower = "png" then some png
  else none

/-- The format that the extension of a path names. -/
def ofPath? (path : String) : Option FileFormat := Path.extension? path >>= ofExtension?

namespace Magic

/-- The eight bytes that a PNG file is told by. -/
def png : Bytes := [0x89, 0x50, 0x4E, 0x47, 0x0D, 0x0A, 0x1A, 0x0A]

/-- The two bytes that gray PNM in decimal text is told by. -/
def grayText : Bytes := Bytes.ofAscii "P2"

/-- The two bytes that colored PNM in decimal text is told by. -/
def colorText : Bytes := Bytes.ofAscii "P3"

/-- The two bytes that gray PNM in binary is told by. -/
def grayBinary : Bytes := Bytes.ofAscii "P5"

/-- The two bytes that colored PNM in binary is told by. -/
def colorBinary : Bytes := Bytes.ofAscii "P6"

/-- Whether a file with these first two bytes is PNM. -/
def isPnm (firstTwo : Bytes) : Bool :=
  firstTwo = grayText || firstTwo = colorText || firstTwo = grayBinary || firstTwo = colorBinary

end Magic

/-- The format of a file by its first bytes. -/
def detect (bytes : Bytes) : Except CodecError FileFormat :=
  if bytes.length < 2 then .error (.invalid .undetectable)
  else if bytes.take Magic.png.length = Magic.png then .ok png
  else if Magic.isPnm (bytes.take 2) then .ok pnm
  else .error (.unsupported .format)

/-- The number of bytes that are enough to detect a format. -/
def detectionBytes : Nat := 8

end FileFormat

namespace Codec

/-- Reads an image in whichever format its first bytes tell. -/
def read (bytes : Bytes) : Except CodecError Image := do
  match ← FileFormat.detect bytes with
  | .pnm => Pnm.read bytes
  | .png => Png.read bytes

/-- Writes an image in a format. -/
def write (image : Image) : FileFormat → Edit Sink CodecError Unit
  | .pnm => Pnm.write image .bytes
  | .png => Png.write image

/-- The bytes of an image in a format. -/
def encode (image : Image) (format : FileFormat) : Run CodecError Bytes :=
  (write image format).collect

end Codec

end Acutance
