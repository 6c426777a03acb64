import Acutance.Raster.Image

namespace Acutance

/-- Integers by column and row. A grid has no edges; what it holds outside the raster that it was read from
is of no account. -/
abbrev Grid := Nat → Nat → Int

/-- The samples of a plane as integers. -/
def Plane.grid (p : Plane) : Grid := fun x y => (p.sample x y).toInt

/-- The samples of one channel of an image as integers. -/
def Image.grid (image : Image) (c : Channel) : Grid := fun x y => ((image.pixel x y).get c).toInt

theorem Image.grid_channel (image : Image) (c : Channel) :
    (image.channel c).grid = image.grid c := by
  funext x y
  rw [Plane.grid, sample_channel, grid]

theorem Image.pixel_eq_iff_grid {a b : Image} {x y x' y' : Nat} :
    a.pixel x y = b.pixel x' y' ↔ ∀ c, a.grid c x y = b.grid c x' y' := by
  constructor
  · intro h c
    rw [grid, grid, h]
  · exact fun h => Pixel.ext_get fun c => Int32.toInt_inj.1 (h c)

end Acutance
