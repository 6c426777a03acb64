import Acutance.Color.Hsv
import Acutance.Raster.Image

namespace Acutance

/-- Why a conversion refuses an image. -/
inductive ColorError where
  | raster (error : RasterError)
  deriving DecidableEq, Repr

/-- The text of the error. -/
def ColorError.message : ColorError → String
  | raster e => s!"core error: {e.message}"

namespace Image

/-- Converts an image from red, green and blue to hue, saturation and value. -/
def toHsv (image : Image) : Run ColorError Image :=
  (image.recode .rgb .hsv Pixel.toHsv).restate .raster

/-- Converts an image from hue, saturation and value to red, green and blue. -/
def toRgb (image : Image) : Run ColorError Image :=
  (image.recode .hsv .rgb Pixel.toRgb).restate .raster

end Image

end Acutance
