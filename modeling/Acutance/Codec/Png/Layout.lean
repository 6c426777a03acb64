namespace Acutance.Codec.Png

/-- What the samples of a pixel mean. -/
inductive ColorType where
  | grayscale
  | rgb
  | indexed
  | grayscaleAlpha
  | rgba
  deriving DecidableEq, Repr

/-- The number of bits of one sample. -/
inductive BitDepth where
  | one
  | two
  | four
  | eight
  | sixteen
  deriving DecidableEq, Repr

namespace ColorType

/-- The color type of a code. -/
def ofCode? (code : UInt8) : Option ColorType :=
  if code = 0 then some grayscale
  else if code = 2 then some rgb
  else if code = 3 then some indexed
  else if code = 4 then some grayscaleAlpha
  else if code = 6 then some rgba
  else none

/-- The name of a color type in messages. -/
def name : ColorType → String
  | grayscale => "Grayscale"
  | rgb => "Rgb"
  | indexed => "Indexed"
  | grayscaleAlpha => "GrayscaleAlpha"
  | rgba => "Rgba"

/-- The number of samples in a pixel. -/
def samples : ColorType → Nat
  | grayscale => 1
  | rgb => 3
  | indexed => 1
  | grayscaleAlpha => 2
  | rgba => 4

end ColorType

namespace BitDepth

/-- The bit depth of a code. -/
def ofCode? (code : UInt8) : Option BitDepth :=
  if code = 1 then some one
  else if code = 2 then some two
  else if code = 4 then some four
  else if code = 8 then some eight
  else if code = 16 then some sixteen
  else none

/-- The name of a bit depth in messages. -/
def name : BitDepth → String
  | one => "One"
  | two => "Two"
  | four => "Four"
  | eight => "Eight"
  | sixteen => "Sixteen"

/-- The number of bits. -/
def bits : BitDepth → Nat
  | one => 1
  | two => 2
  | four => 4
  | eight => 8
  | sixteen => 16

end BitDepth

/-- Whether a color type may have a bit depth. -/
def ColorType.allows : ColorType → BitDepth → Bool
  | .grayscale, _ => true
  | .indexed, depth => depth ≠ .sixteen
  | _, depth => depth = .eight || depth = .sixteen

end Acutance.Codec.Png
