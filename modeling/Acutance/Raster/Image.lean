import Acutance.Raster.Capacity
import Acutance.Raster.Plane

namespace Acutance

/-- A raster of pixels whose extent has been accepted, together with the color space that its
samples are read in. It is looked at through `Image.pixel`, the pixel at a place. -/
structure Image where
  extent : Extent
  space : ColorSpace
  pixels : Vector Pixel extent.area
  accepted : extent.Accepted
  deriving DecidableEq

namespace Image

/-- The number of samples in an image of this extent. -/
def sampleCount (e : Extent) : Nat := e.area * Pixel.channelCount

/-- An image of zeros. -/
def blank (e : Extent) (space : ColorSpace) : Except RasterError Image :=
  match h : e.check with
  | .ok () => .ok ⟨e, space, Vector.replicate e.area default, Extent.check_eq_ok_iff.1 h⟩
  | .error error => .error error

/-- The pixel that three samples in a row make. Samples that are missing count as zero. -/
def assemble (samples : Array Sample) (i : Nat) : Pixel :=
  ⟨samples.getD (3 * i) 0, samples.getD (3 * i + 1) 0, samples.getD (3 * i + 2) 0⟩

/-- An image of the given samples, which stand row by row and three to a pixel. -/
def ofSamples (e : Extent) (space : ColorSpace) (samples : Array Sample) :
    Except RasterError Image :=
  match h : e.check with
  | .error error => .error error
  | .ok () =>
    if samples.size = sampleCount e then
      .ok ⟨e, space, Vector.ofFn fun i => assemble samples i, Extent.check_eq_ok_iff.1 h⟩
    else .error (.sampleCount (sampleCount e) samples.size)

/-- The samples row by row, three to a pixel. -/
def samples (image : Image) : List Sample := image.pixels.toList.flatMap Pixel.samples

/-- The pixel at a place, if the place is inside. -/
def get? (image : Image) (x y : Nat) : Option Pixel :=
  if image.extent.Contains x y then image.pixels[image.extent.index x y]? else none

/-- The pixel at a place. Its samples are zero outside. -/
def pixel (image : Image) (x y : Nat) : Pixel := (image.get? x y).getD default

/-- Replaces the pixel at a place, and refuses a place outside. -/
def set (image : Image) (x y : Nat) (p : Pixel) : Except RasterError Image :=
  if h : image.extent.Contains x y then
    .ok { image with
      pixels := image.pixels.set (image.extent.index x y) p (Extent.index_lt_area h) }
  else .error (.outOfBounds (image.extent.index x y) image.extent.area)

/-- Refuses an image in another color space. -/
def expectSpace (image : Image) (expected : ColorSpace) : Except RasterError Unit :=
  if image.space = expected then .ok () else .error (.spaceMismatch expected image.space)

/-- Computes every pixel anew, row by row, and reads the outcome in the color space `target`. An
image that is not in the color space `source` is refused before any pixel is computed. -/
def recode (source target : ColorSpace) (f : Pixel → Checked Pixel) (image : Image) :
    Run RasterError Image := do
  Run.ofExcept (image.expectSpace source)
  let pixels ← Run.ofChecked (image.extent.tabulateM fun x y => f (image.pixel x y))
  return { image with space := target, pixels }

/-- Computes every pixel anew within one color space. -/
def mapPixels (space : ColorSpace) (f : Pixel → Checked Pixel) (image : Image) :
    Run RasterError Image :=
  image.recode space space f

/-- The plane of one channel. -/
def channel (image : Image) (c : Channel) : Plane where
  extent := image.extent
  nonempty := image.accepted.1
  samples := image.pixels.map fun p => p.get c

/-- Replaces one channel by a plane of the same extent. -/
def setChannel (image : Image) (c : Channel) (plane : Plane) : Except RasterError Image := do
  plane.expectExtent image.extent
  return { image with
    pixels := image.extent.tabulate fun x y => (image.pixel x y).set c (plane.sample x y) }

/-- Samples of the right number make an image of any accepted extent. -/
theorem ofSamples_isOk {e : Extent} {space : ColorSpace} {samples : Array Sample}
    (haccepted : e.Accepted) (hsize : samples.size = sampleCount e) :
    ∃ image, ofSamples e space samples = .ok image := by
  have hcheck := Extent.check_eq_ok_iff.2 haccepted
  unfold ofSamples
  split
  · simp_all
  · exact ⟨_, if_pos hsize⟩

private theorem get?_of_contains {image : Image} {x y : Nat} (hin : image.extent.Contains x y) :
    image.get? x y =
      some (image.pixels.get ⟨image.extent.index x y, Extent.index_lt_area hin⟩) := by
  rw [get?, if_pos hin, Vector.getElem?_eq_getElem (Extent.index_lt_area hin)]
  rfl

theorem pixel_of_contains {i : Image} {x y : Nat} (hin : i.extent.Contains x y) :
    i.pixel x y = i.pixels.get ⟨i.extent.index x y, Extent.index_lt_area hin⟩ := by
  rw [pixel, get?_of_contains hin, Option.getD_some]

theorem pixel_mk {e : Extent} {space : ColorSpace} {pixels : Vector Pixel e.area}
    {haccepted : e.Accepted} {x y : Nat} (hin : e.Contains x y) :
    (⟨e, space, pixels, haccepted⟩ : Image).pixel x y =
      pixels.get ⟨e.index x y, Extent.index_lt_area hin⟩ :=
  pixel_of_contains (i := ⟨e, space, pixels, haccepted⟩) hin

private theorem pixel_of_not_contains {image : Image} {x y : Nat} (hout : ¬ image.extent.Contains x y) :
    image.pixel x y = default := by
  rw [pixel, get?, if_neg hout, Option.getD_none]

/-- Reading inside an image gives the pixel at the place. -/
theorem get?_eq_some_pixel {image : Image} {x y : Nat} (hin : image.extent.Contains x y) :
    image.get? x y = some (image.pixel x y) := by
  rw [get?_of_contains hin, pixel_of_contains hin]

/-- Images of one extent and color space are equal when they agree at every place inside. -/
theorem ext_pixel {a b : Image} (hextent : a.extent = b.extent) (hspace : a.space = b.space)
    (hpixel : ∀ x y, a.extent.Contains x y → a.pixel x y = b.pixel x y) : a = b := by
  obtain ⟨e, space, pixels, haccepted⟩ := a
  obtain ⟨e', space', pixels', haccepted'⟩ := b
  simp only at hextent hspace
  subst hextent hspace
  congr 1
  apply Vector.ext
  intro i hi
  have h := hpixel _ _ (Extent.contains_of_lt_area hi)
  rw [pixel_of_contains (Extent.contains_of_lt_area hi),
    pixel_of_contains (Extent.contains_of_lt_area hi)] at h
  simp only [Extent.index_mod_div] at h
  exact h

/-- An image passes the check of its color space when it is in that space. -/
theorem expectSpace_eq_ok_iff {image : Image} {expected : ColorSpace} {u : Unit} :
    image.expectSpace expected = .ok u ↔ image.space = expected := by
  unfold expectSpace
  split <;> simp_all

/-- An image is recoded when it is in the first color space and no pixel faults. Then it is in the
second one, and holds at every place what became of the pixel there. -/
theorem recode_eq_ok_iff {a b : Image} {source target : ColorSpace} {f : Pixel → Checked Pixel} :
    a.recode source target f = .ok b ↔ a.space = source ∧ b.extent = a.extent ∧ b.space = target ∧
      ∀ x y, a.extent.Contains x y → f (a.pixel x y) = .ok (b.pixel x y) := by
  by_cases hspace : a.space = source
  · have hcheck : a.expectSpace source = .ok () := expectSpace_eq_ok_iff.2 hspace
    constructor
    · intro h
      rw [recode, hcheck] at h
      cases hfill : a.extent.tabulateM fun x y => f (a.pixel x y) with
      | error fault => rw [hfill] at h; cases h
      | ok pixels =>
        rw [hfill] at h
        obtain rfl : { a with space := target, pixels } = b := Except.ok.inj h
        refine ⟨hspace, rfl, rfl, fun x y hin => ?_⟩
        have hentry := Extent.tabulateM_eq_ok_iff.1 hfill x y hin
        exact hentry.trans (congrArg Except.ok (pixel_mk hin).symm)
    · obtain ⟨e, space, pixels, haccepted⟩ := b
      rintro ⟨-, hextent, hspace', hpixels⟩
      simp only at hextent hspace'
      subst hextent hspace'
      have hfill : (a.extent.tabulateM fun x y => f (a.pixel x y)) = .ok pixels :=
        Extent.tabulateM_eq_ok_iff.2 fun x y hin => by rw [hpixels x y hin, pixel_mk hin]
      rw [recode, hcheck, hfill]
      rfl
  · have hcheck : a.expectSpace source = .error (.spaceMismatch source a.space) := if_neg hspace
    constructor
    · intro h
      rw [recode, hcheck] at h
      cases h
    · exact fun h => absurd h.1 hspace

/-- The plane of a channel holds that sample of every pixel. -/
theorem sample_channel (image : Image) (c : Channel) (x y : Nat) :
    (image.channel c).sample x y = (image.pixel x y).get c := by
  by_cases hin : image.extent.Contains x y
  · have hmap : (image.pixels.map fun p => p.get c).get
        ⟨image.extent.index x y, Extent.index_lt_area hin⟩ =
        (image.pixels.get ⟨image.extent.index x y, Extent.index_lt_area hin⟩).get c :=
      Vector.getElem_map _ (Extent.index_lt_area hin)
    rw [channel, Plane.sample_mk hin, hmap, pixel_of_contains hin]
  · have hout : ¬ (image.channel c).extent.Contains x y := hin
    rw [Plane.sample_of_not_contains hout, pixel_of_not_contains hin]
    cases c <;> rfl

/-- A channel is replaced by a plane of the same extent. Then every pixel holds the sample of the
plane in that channel, and keeps the other two. -/
theorem setChannel_eq_ok_iff {a b : Image} {c : Channel} {plane : Plane} :
    a.setChannel c plane = .ok b ↔ plane.extent = a.extent ∧ b.extent = a.extent ∧
      b.space = a.space ∧
        ∀ x y, a.extent.Contains x y → b.pixel x y = (a.pixel x y).set c (plane.sample x y) := by
  by_cases hextent : plane.extent = a.extent
  · have hcheck : plane.expectExtent a.extent = .ok () := if_pos hextent
    rw [setChannel, hcheck]
    constructor
    · intro h
      obtain rfl := Except.ok.inj h
      refine ⟨hextent, rfl, rfl, fun x y hin => ?_⟩
      rw [pixel_mk hin, Extent.get_tabulate hin]
    · rintro ⟨-, hb, hspace, hpixels⟩
      refine congrArg Except.ok (ext_pixel hb.symm hspace.symm fun x y hin => ?_)
      rw [pixel_mk hin, Extent.get_tabulate hin]
      exact (hpixels x y hin).symm
  · have hcheck : plane.expectExtent a.extent =
        .error (.extentMismatch a.extent plane.extent) := if_neg hextent
    constructor
    · intro h
      rw [setChannel, hcheck] at h
      cases h
    · exact fun h => absurd h.1 hextent

/-- A pixel is set inside an image. Then the place holds it, and every other place its own. -/
theorem set_eq_ok_iff {a b : Image} {x y : Nat} {p : Pixel} :
    a.set x y p = .ok b ↔ a.extent.Contains x y ∧ b.extent = a.extent ∧ b.space = a.space ∧
      ∀ x' y', a.extent.Contains x' y' →
        b.pixel x' y' = if x' = x ∧ y' = y then p else a.pixel x' y' := by
  by_cases hin : a.extent.Contains x y
  · have hpixel (x' y' : Nat) (hin' : a.extent.Contains x' y') :
        ({ a with pixels := a.pixels.set (a.extent.index x y) p (Extent.index_lt_area hin) } :
          Image).pixel x' y' = if x' = x ∧ y' = y then p else a.pixel x' y' := by
      have hset : (a.pixels.set (a.extent.index x y) p (Extent.index_lt_area hin)).get
          ⟨a.extent.index x' y', Extent.index_lt_area hin'⟩ =
          if a.extent.index x y = a.extent.index x' y' then p
          else a.pixels.get ⟨a.extent.index x' y', Extent.index_lt_area hin'⟩ :=
        Vector.getElem_set (Extent.index_lt_area hin) (Extent.index_lt_area hin')
      rw [pixel_mk hin', hset, pixel_of_contains hin']
      simp only [Extent.index_inj hin.1 hin'.1, eq_comm]
    rw [set, dif_pos hin]
    constructor
    · intro h
      obtain rfl := Except.ok.inj h
      exact ⟨hin, rfl, rfl, hpixel⟩
    · rintro ⟨-, hb, hspace, hpixels⟩
      refine congrArg Except.ok (ext_pixel hb.symm hspace.symm fun x' y' hin' => ?_)
      rw [hpixel x' y' hin', hpixels x' y' hin']
  · constructor
    · intro h
      rw [set, dif_neg hin] at h
      cases h
    · exact fun h => absurd h.1 hin

end Image

end Acutance
