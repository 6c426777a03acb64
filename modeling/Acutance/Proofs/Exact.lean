import Mathlib.Algebra.BigOperators.Intervals
import Mathlib.Tactic.Linarith
import Acutance.Proofs.Arithmetic
import Acutance.Proofs.Grid

namespace Acutance

namespace Exact

/-- The stretched level of a sample. -/
def stretch (n : Int) : Int := max 0 (min 255 (((n - 10) * 255).tdiv 233))

/-- The spread of a color: its largest sample less its smallest one. -/
def spread (r g b : Int) : Int := max r (max g b) - min r (min g b)

/-- The hue of a color in degrees, and -1 without any spread. -/
def hue (r g b : Int) : Int :=
  if spread r g b = 0 then -1
  else if max r (max g b) = r then
    if b ≤ g then (60 * (g - b)).tdiv (spread r g b)
    else 360 + (60 * (g - b)).tdiv (spread r g b)
  else if max r (max g b) = g then 120 + (60 * (b - r)).tdiv (spread r g b)
  else 240 + (60 * (r - g)).tdiv (spread r g b)

/-- The spread of a color in 1024 parts of its largest sample. -/
def saturation (r g b : Int) : Int :=
  if max r (max g b) = 0 then 0 else (1024 * spread r g b).tdiv (max r (max g b))

/-- Four times the largest sample of a color. -/
def value (r g b : Int) : Int := 4 * max r (max g b)

/-- Hue, saturation and value of a color. -/
def toHsv (r g b : Int) : Channel → Int
  | .first => hue r g b
  | .second => saturation r g b
  | .third => value r g b

/-- The sample that stays low through a whole sector. -/
def low (s v : Int) : Int := (v * (1024 - s)).tdiv 4096

/-- The sample that falls through a sector. -/
def falling (h s v : Int) : Int := (v * (61440 - s * h.tmod 60)).tdiv 245760

/-- The sample that rises through a sector. -/
def rising (h s v : Int) : Int := (v * (61440 - s * (60 - h.tmod 60))).tdiv 245760

/-- Three integers as the samples of a pixel. -/
def triple (a b c : Int) : Channel → Int
  | .first => a
  | .second => b
  | .third => c

/-- The samples of a color by its sector. There is no color in a sector below zero. -/
def inSector (sector full low falling rising : Int) : Channel → Int :=
  if sector = 0 then triple full rising low
  else if sector = 1 then triple falling full low
  else if sector = 2 then triple low full rising
  else if sector = 3 then triple low falling full
  else if sector = 4 then triple rising low full
  else if sector = 5 then triple full low falling
  else triple 0 0 0

/-- Red, green and blue of a hue, a saturation and a value. -/
def toRgb (h s v : Int) : Channel → Int :=
  if s = 0 then triple (v.tdiv 4) (v.tdiv 4) (v.tdiv 4)
  else inSector ((h.tdiv 60).tmod 6) (v.tdiv 4) (low s v) (falling h s v) (rising h s v)

/-- The taps of the smoothing kernel. -/
def tap (i : Nat) : Int := [4433, 54006, 242036, 399050, 242036, 54006, 4433].getD i 0

/-- Smoothing along the rows, which leaves the three columns at either edge. -/
def smooth (width : Nat) (p : Grid) : Grid := fun x y =>
  if x < 3 ∨ width ≤ x + 3 then p x y
  else (∑ i ∈ Finset.range 7, tap i * p (x - 3 + i) y).tdiv 1000000

/-- What smoothing along the columns adds, with each sample added seven times more. The three rows at
either edge have no detail. -/
def detail (height : Nat) (b : Grid) : Grid := fun x y =>
  if y < 3 ∨ height ≤ y + 3 then 0
  else (7 * b x y - 1000000 * b x y + ∑ i ∈ Finset.range 7, tap i * b x (y - 3 + i)).tdiv 1000000

/-- A sample less four times its share of the detail, held below one on its channel. -/
def blend (one p d : Int) : Int :=
  if one ≤ (p * (one - 4 * d)).tdiv one then one - 1 else (p * (one - 4 * d)).tdiv one

/-- What counts as one on a channel of hue, saturation or value. -/
def one : Channel → Int
  | .first => 360
  | .second => 1024
  | .third => 1024

/-- The detail of a channel of the given extent. -/
def mask (e : Extent) (p : Grid) : Grid := detail e.height (smooth e.width p)

/-- A channel of the given extent with its detail blended in. -/
def sharpen (e : Extent) (one : Int) (p : Grid) : Grid := fun x y => blend one (p x y) (mask e p x y)

/-- Hue, saturation and value of an image with stretched levels. -/
def hsv (image : Channel → Grid) : Channel → Grid := fun c x y =>
  toHsv (stretch (image .red x y)) (stretch (image .green x y)) (stretch (image .blue x y)) c

/-- Hue, saturation and value of an image of the given extent after sharpening. -/
def sharpened (e : Extent) (image : Channel → Grid) : Channel → Grid := fun c =>
  sharpen e (one c) (hsv image c)

/-- Red, green and blue of an enhanced image of the given extent. There is no state here, no order of places
and no word that could be left. -/
def enhance (e : Extent) (image : Channel → Grid) : Channel → Grid := fun c x y =>
  toRgb (sharpened e image .hue x y) (sharpened e image .saturation x y)
    (sharpened e image .value x y) c

end Exact

end Acutance
