import Acutance.Proofs.Grid

namespace Acutance

/-- A way to reflect a raster: the mirror image, or upside down. -/
inductive Reflection where
  | mirror
  | flip
  deriving DecidableEq, Repr

namespace Reflection

/-- The column that a column of the reflected raster comes from. -/
def column (r : Reflection) (e : Extent) (x : Nat) : Nat :=
  match r with
  | mirror => e.width - 1 - x
  | flip => x

/-- The row that a row of the reflected raster comes from. -/
def row (r : Reflection) (e : Extent) (y : Nat) : Nat :=
  match r with
  | mirror => y
  | flip => e.height - 1 - y

variable {e : Extent} {x y : Nat}

theorem contains (r : Reflection) (hin : e.Contains x y) :
    e.Contains (r.column e x) (r.row e y) := by
  obtain ⟨hx, hy⟩ := hin
  cases r
  · exact ⟨by change e.width - 1 - x < e.width; omega, hy⟩
  · exact ⟨hx, by change e.height - 1 - y < e.height; omega⟩

end Reflection

/-- The reflected plane. -/
def Plane.reflect (p : Plane) (r : Reflection) : Plane :=
  { p with samples := p.extent.tabulate fun x y => p.sample (r.column p.extent x) (r.row p.extent y) }

theorem Plane.extent_reflect (p : Plane) (r : Reflection) : (p.reflect r).extent = p.extent := rfl

theorem Plane.sample_reflect {p : Plane} (r : Reflection) {x y : Nat} (hin : p.extent.Contains x y) :
    (p.reflect r).sample x y = p.sample (r.column p.extent x) (r.row p.extent y) := by
  rw [reflect, sample_mk hin, Extent.get_tabulate hin]

theorem Plane.grid_reflect {p : Plane} (r : Reflection) {x y : Nat} (hin : p.extent.Contains x y) :
    (p.reflect r).grid x y = p.grid (r.column p.extent x) (r.row p.extent y) := by
  rw [grid, sample_reflect r hin, grid]

namespace Image

/-- The reflected image. -/
def reflect (image : Image) (r : Reflection) : Image :=
  { image with
    pixels := image.extent.tabulate fun x y =>
      image.pixel (r.column image.extent x) (r.row image.extent y) }

variable {a b : Image}

private theorem pixel_reflect (r : Reflection) {x y : Nat} (hin : a.extent.Contains x y) :
    (a.reflect r).pixel x y = a.pixel (r.column a.extent x) (r.row a.extent y) := by
  rw [reflect, pixel_mk hin, Extent.get_tabulate hin]

/-- A reflected image holds reflected channels. -/
theorem channel_reflect (a : Image) (r : Reflection) (c : Channel) :
    (a.reflect r).channel c = (a.channel c).reflect r := by
  refine Plane.ext_sample rfl fun x y hin => ?_
  have hplane := Plane.sample_reflect (p := a.channel c) r hin
  rw [sample_channel, pixel_reflect (a := a) r hin, hplane, sample_channel]
  rfl

/-- Pixels that are recoded one by one may be reflected before or afterwards. -/
theorem recode_reflect {source target : ColorSpace} {f : Pixel → Checked Pixel} (r : Reflection)
    (h : a.recode source target f = .ok b) :
    (a.reflect r).recode source target f = .ok (b.reflect r) := by
  obtain ⟨hsource, hextent, htarget, hpixel⟩ := recode_eq_ok_iff.1 h
  refine recode_eq_ok_iff.2 ⟨hsource, hextent, htarget, fun x y hin => ?_⟩
  have hin' : b.extent.Contains x y := by rw [hextent]; exact hin
  rw [pixel_reflect (a := a) r hin, pixel_reflect r hin', hextent]
  exact hpixel _ _ (r.contains hin)

end Image

end Acutance
