import Acutance.Raster.Image

namespace Acutance

/-- A rule for the pixel at every place. -/
inductive Pattern where
  | uniform (pixel : Pixel)
  /-- Squares of `cell` pixels a side, the first of them at the top left. -/
  | checkerboard (cell : Nat) (first second : Pixel)
  | gradient
  deriving DecidableEq, Repr

/-- Why a synthetic image could not be made. -/
inductive SynthesisError where
  | raster (error : RasterError)
  deriving DecidableEq, Repr

/-- The text of the error. -/
def SynthesisError.message : SynthesisError → String
  | raster e => s!"failed to build synthetic image: {e.message}"

namespace Pattern

/-- The remainder of `a * x + b * y` at the number of values of a byte. -/
def ramp (a x b y : Int) : Checked Sample := do
  let across ← Width.bits32.mul x a
  let down ← Width.bits32.mul y b
  let sum ← Width.bits32.add across down
  let wrapped ← Width.bits32.rem sum 256
  return narrow wrapped

/-- The pixel of the gradient. Coordinates count as samples. -/
def gradientPixel (x y : Nat) : Checked Pixel := do
  let x := (narrow x).toInt
  let y := (narrow y).toInt
  let first ← ramp 37 x 11 y
  let second ← ramp 5 x 53 y
  let third ← ramp x x 3 y
  return ⟨first, second, third⟩

/-- The pixel of a checkerboard. -/
def checkerPixel (cell : Nat) (first second : Pixel) (x y : Nat) : Checked Pixel :=
  if cell = 0 then .error .divByZero
  else do
    let steps := x / cell + y / cell
    if 4294967296 ≤ steps then throw .addOverflow
    return if steps % 2 = 0 then first else second

/-- The pixel at a place. -/
def pixel : Pattern → (x y : Nat) → Checked Pixel
  | uniform p, _, _ => .ok p
  | checkerboard cell first second, x, y => checkerPixel cell first second x y
  | gradient, x, y => gradientPixel x y

/-- The pixels of a row from left to right, put behind the samples before them. -/
def appendRow (p : Pattern) (width : Nat) (samples : Array Sample) (y : Nat) :
    Checked (Array Sample) :=
  width.foldM (fun x _ samples => do
    let pixel ← p.pixel x y
    return ((samples.push pixel.first).push pixel.second).push pixel.third) samples

/-- All samples of a pattern, row by row. They have to fit into memory. -/
def samples (p : Pattern) (e : Extent) : Checked (Array Sample) :=
  if 18446744073709551616 ≤ Image.sampleCount e then .error .mulOverflow
  else if Plane.addressLimit ≤ Image.sampleCount e * Plane.sampleBytes then .error .capacityOverflow
  else if e.width = 0 then .ok #[]
  else e.height.foldM (fun y _ samples => p.appendRow e.width samples y) #[]

/-- The image of a pattern in red, green and blue. Every pixel is computed before the extent is
checked. -/
def image (p : Pattern) (e : Extent) : Run SynthesisError Image := do
  let samples ← Run.ofChecked (p.samples e)
  Run.ofExcept ((Image.ofSamples e .rgb samples).mapError .raster)

end Pattern

end Acutance
