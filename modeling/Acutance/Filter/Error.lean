import Acutance.Raster.Error

namespace Acutance

/-- Why a filter refuses a request. -/
inductive FilterError where
  | raster (error : RasterError)
  /-- The number of taps is even. -/
  | tapCount (count : Nat)
  | zeroTapSum
  | scale (scale : Sample)
  deriving DecidableEq, Repr

/-- The text of the error. -/
def FilterError.message : FilterError → String
  | raster e => s!"core error: {e.message}"
  | tapCount count => s!"invalid kernel: tap count must be odd, got {count}"
  | zeroTapSum => "invalid kernel: taps sum to zero"
  | scale s => s!"invalid parameters: sharpen scale must be positive, got {s.toInt}"

end Acutance
