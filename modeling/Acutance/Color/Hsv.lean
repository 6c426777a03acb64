import Acutance.Raster.Pixel

namespace Acutance

namespace Hsv

/-- The hue of a pixel whose samples are all alike. -/
def undefinedHue : Int := -1

/-- Full saturation. -/
def saturationOne : Int := 1024

/-- How many parts of value one step of the largest sample makes. -/
def valueScale : Int := 4

/-- The degrees between one pure or mixed color and the next. -/
def sectorDegrees : Int := 60

/-- The number of sectors on the color wheel. -/
def sectorCount : Int := 6

/-- Full saturation times the degrees of a sector. -/
def sectorOne : Int := saturationOne * sectorDegrees

/-- The largest and the smallest of three integers. -/
def bounds (r g b : Int) : Int × Int :=
  let (high, low) := if r > g then (r, g) else (g, r)
  if high < b then (b, low) else if low > b then (high, b) else (high, low)

/-- How far a hue lies from the pure color of its largest sample, in degrees: the difference of the
other two samples as a share of the whole spread. -/
def hueOffset (a b spread : Int) : Checked Int := do
  let difference ← Width.bits32.sub a b
  let scaled ← Width.bits32.mul sectorDegrees difference
  Width.bits32.div scaled spread

/-- The hue of a pixel. Red at its largest with more blue than green counts back from the full
circle. -/
def hue (r g b high spread : Int) : Checked Int :=
  if spread = 0 then .ok undefinedHue
  else if high = r then
    if g ≥ b then hueOffset g b spread
    else do Width.bits32.add 360 (← hueOffset g b spread)
  else if high = g then do Width.bits32.add 120 (← hueOffset b r spread)
  else do Width.bits32.add 240 (← hueOffset r g spread)

/-- The saturation of a pixel: the spread of its samples as a share of the largest one. -/
def saturation (high spread : Int) : Checked Int :=
  if high = 0 then .ok 0
  else do
    let scaled ← Width.bits32.mul saturationOne spread
    Width.bits32.div scaled high

/-- The share `weight / one` of a value, brought back to the scale of samples. -/
def share (value weight one : Int) : Checked Sample := do
  let scaled ← Width.bits64.mul value weight
  let quotient ← Width.bits64.div scaled (one * valueScale)
  return narrow quotient

end Hsv

namespace Pixel

open Hsv

/-- Red, green and blue as hue, saturation and value. Hue is in degrees, saturation in 1024 parts,
and value is four times the largest sample. -/
def toHsv (p : Pixel) : Checked Pixel := do
  let r := p.first.toInt
  let g := p.second.toInt
  let b := p.third.toInt
  let (high, low) := bounds r g b
  let spread ← Width.bits32.sub high low
  let value ← Width.bits32.mul valueScale high
  let saturation ← saturation high spread
  let hue ← hue r g b high spread
  return ⟨narrow hue, narrow saturation, narrow value⟩

/-- The samples of a color by its sector: the full sample, the lowest one, and the one that falls
or rises through the sector. There is no color in a sector below zero, and it is black. -/
def inSector (sector : Int) (full low falling rising : Sample) : Pixel :=
  if sector = 0 then ⟨full, rising, low⟩
  else if sector = 1 then ⟨falling, full, low⟩
  else if sector = 2 then ⟨low, full, rising⟩
  else if sector = 3 then ⟨low, falling, full⟩
  else if sector = 4 then ⟨rising, low, full⟩
  else if sector = 5 then ⟨full, low, falling⟩
  else gray 0

/-- Hue, saturation and value as red, green and blue. Without saturation all samples are alike.
Quotients truncate toward zero, so a color that was converted before loses a little of its middle
sample. -/
def toRgb (p : Pixel) : Checked Pixel := do
  let hue := p.first.toInt
  let saturation := p.second.toInt
  let value := p.third.toInt
  if saturation = 0 then
    let full ← Width.bits32.div value valueScale
    return gray (narrow full)
  else
    let turn ← Width.bits32.div hue sectorDegrees
    let sector ← Width.bits32.rem turn sectorCount
    let within ← Width.bits32.rem hue sectorDegrees
    let lowWeight ← Width.bits64.sub saturationOne saturation
    let low ← share value lowWeight saturationOne
    let fallen ← Width.bits64.mul saturation within
    let fallingWeight ← Width.bits64.sub sectorOne fallen
    let falling ← share value fallingWeight sectorOne
    let left ← Width.bits64.sub sectorDegrees within
    let risen ← Width.bits64.mul saturation left
    let risingWeight ← Width.bits64.sub sectorOne risen
    let rising ← share value risingWeight sectorOne
    let full ← Width.bits32.div value valueScale
    return inSector sector (narrow full) low falling rising

end Pixel

end Acutance
