import Acutance.Raster.Extent
import Acutance.Raster.Pixel

namespace Acutance

/-- The bounds on the extent of an image, in the order in which they are checked. -/
inductive Bound where
  | rowStride
  | imageBuffer
  | scratchBuffer
  deriving DecidableEq, Repr

/-- How a message says that a bound is not kept. -/
def Bound.reason : Bound → String
  | .rowStride => "width exceeds the maximum row stride"
  | .imageBuffer => "image buffer capacity exceeded"
  | .scratchBuffer => "scratch buffer capacity exceeded"

/-- Why a raster refuses a request. -/
inductive RasterError where
  /-- The extent has no place at all. -/
  | emptyExtent (extent : Extent)
  | extentExceeded (extent : Extent) (bound : Bound)
  /-- A place outside was written to. -/
  | outOfBounds (index size : Nat)
  | extentMismatch (expected actual : Extent)
  | spaceMismatch (expected actual : ColorSpace)
  | sampleCount (expected actual : Nat)
  deriving DecidableEq, Repr

/-- The text of the error. -/
def RasterError.message : RasterError → String
  | emptyExtent e => s!"invalid image dimensions: {e.render}"
  | extentExceeded e bound =>
    s!"image dimensions {e.render} exceed supported bounds: {bound.reason}"
  | outOfBounds index size => s!"index out of bounds: {index} >= {size}"
  | extentMismatch expected actual =>
    s!"dimension mismatch: expected {expected.render}, got {actual.render}"
  | spaceMismatch expected actual =>
    s!"color space mismatch: expected {expected.name}, store holds {actual.name}"
  | sampleCount expected actual =>
    s!"sample count mismatch: expected {expected}, got {actual}"

end Acutance
