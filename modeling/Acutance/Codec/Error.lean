import Acutance.Codec.Png.Layout
import Acutance.Raster.Error
import Acutance.SystemError
import Acutance.Text.Utf8

namespace Acutance

namespace Codec

/-- The numbers that a textual file is made of. -/
inductive Token where
  | width
  | height
  | maxval
  | sample
  deriving DecidableEq, Repr

/-- The name of a number in messages. -/
def Token.name : Token → String
  | .width => "width"
  | .height => "height"
  | .maxval => "maxval"
  | .sample => "sample"

/-- What is wrong with the data of a file. -/
inductive Defect where
  /-- There are too few bytes to tell the format. -/
  | undetectable
  | noMagic
  | missing (token : Token)
  | outOfRange (token : Token)
  | maxval (value : Nat)
  | noSeparator
  | truncatedBytes (count needed : Nat)
  | truncatedSamples (count needed : Nat)
  deriving DecidableEq, Repr

/-- The text of a defect. -/
def Defect.message : Defect → String
  | undetectable => "not enough data to detect format"
  | noMagic => "missing PNM magic"
  | missing token => s!"expected {token.name}"
  | outOfRange token => s!"{token.name} out of range"
  | maxval value => s!"invalid maxval {value}"
  | noSeparator => "missing separator before raster"
  | truncatedBytes count needed => s!"truncated raster: {count} of {needed} bytes"
  | truncatedSamples count needed => s!"truncated raster: {count} of {needed} samples"

/-- A format, or a variant of one, that is not read. -/
inductive Unsupported where
  | format
  | magic (bytes : Bytes)
  | layout (color : Png.ColorType) (depth : Png.BitDepth)
  deriving DecidableEq, Repr

/-- The text of what is not read. -/
def Unsupported.message : Unsupported → String
  | format => "unknown image format"
  | magic bytes => s!"unsupported PNM magic: {Utf8.text bytes}"
  | layout color depth => s!"unsupported PNG format: {color.name} {depth.name}"

/-- The part of a PNG file that could not be decoded. -/
inductive DecodePart where
  /-- All that stands before the image data. -/
  | header
  | frame
  deriving DecidableEq, Repr

/-- The part of a PNG file that could not be encoded. -/
inductive EncodePart where
  | header
  | imageData
  deriving DecidableEq, Repr

end Codec

/-- Why an image could not be read or written. -/
inductive CodecError where
  | system (error : SystemError)
  | unsupported (what : Codec.Unsupported)
  | invalid (defect : Codec.Defect)
  | decode (part : Codec.DecodePart)
  | encode (part : Codec.EncodePart)
  | raster (error : RasterError)
  deriving DecidableEq, Repr

/-- The text of the error. -/
def CodecError.message : CodecError → String
  | system e => s!"I/O error: {e.message}"
  | unsupported what => s!"unsupported format: {what.message}"
  | invalid defect => s!"invalid image data: {defect.message}"
  | decode .header => "decode error: PNG decode error"
  | decode .frame => "decode error: PNG frame error"
  | encode .header => "encode error: PNG header error"
  | encode .imageData => "encode error: PNG write error"
  | raster e => s!"core error: {e.message}"

end Acutance
