import Acutance.Filter.Error
import Acutance.Raster.Image

namespace Acutance

namespace Levels

/-- The level that becomes 0. -/
def black : Int := 10

/-- The level that becomes 255. -/
def white : Int := 243

/-- The largest stretched sample. -/
def top : Int := 255

/-- Stretches one sample. The quotient truncates toward zero and is held between 0 and 255. -/
def stretch (s : Sample) : Checked Sample := do
  let above ← Width.bits64.sub s.toInt black
  let scaled ← Width.bits64.mul above top
  let quotient ← Width.bits64.div scaled (white - black)
  return narrow (max 0 (min top quotient))

end Levels

/-- Stretches every sample of an image in red, green and blue. -/
def Image.levels (image : Image) : Run FilterError Image :=
  (image.mapPixels .rgb (Pixel.mapM Levels.stretch)).restate .raster

end Acutance
