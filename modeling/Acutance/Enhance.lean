import Acutance.Codec.Error
import Acutance.Color.Convert
import Acutance.Filter.Levels
import Acutance.Filter.Unsharp

namespace Acutance

/-- Why a stage of the enhancement, or the reading or writing around it, failed. -/
inductive EnhanceError where
  | raster (error : RasterError)
  | color (error : ColorError)
  | filter (error : FilterError)
  | codec (error : CodecError)
  deriving DecidableEq, Repr

/-- The text of the error, which is the text of the stage's own error. -/
def EnhanceError.message : EnhanceError → String
  | raster e => e.message
  | color e => e.message
  | filter e => e.message
  | codec e => e.message

/-- Stretches, sharpens and brings back an image in red, green and blue. -/
def enhance : Edit Image EnhanceError Unit := do
  Edit.restate .filter (Edit.update Image.levels)
  Edit.restate .color (Edit.update Image.toHsv)
  Edit.restate .filter (unsharp .gaussian)
  Edit.restate .color (Edit.update Image.toRgb)

end Acutance
