import Acutance.Proofs.Grid

namespace Acutance

private theorem byteOf_toNat (s : Sample) : ((byteOf s).toNat : Int) = max 0 (min 255 s.toInt) := by
  have hbyte : (byteOf s).toNat = min 255 s.toInt.toNat := by
    rw [byteOf, UInt8.toNat_ofNat']
    omega
  omega

/-- The nearest sample that fits into a byte. -/
def nearestByte (s : Sample) : Sample := narrow (byteOf s).toNat

theorem toInt_narrow_byte (b : UInt8) : (narrow b.toNat).toInt = b.toNat := by
  have hlimit := b.toNat_lt
  refine toInt_narrow ⟨?_, ?_⟩
  · simp only [Width.lowest]
    omega
  · simp only [Width.highest]
    omega

private theorem toInt_nearestByte (s : Sample) : (nearestByte s).toInt = max 0 (min 255 s.toInt) :=
  (toInt_narrow_byte _).trans (byteOf_toNat s)

/-- A sample that was a byte is written as that byte. -/
theorem byteOf_narrow (b : UInt8) : byteOf (narrow b.toNat) = b := by
  have hlimit := b.toNat_lt
  rw [byteOf, toInt_narrow_byte, Int.toNat_natCast, Nat.min_eq_right (by omega), UInt8.ofNat_toNat]

namespace Image

/-- The image with every sample replaced by the nearest one that fits into a byte. -/
def clamped (image : Image) : Image where
  extent := image.extent
  space := image.space
  pixels := image.pixels.map fun p => ⟨nearestByte p.first, nearestByte p.second, nearestByte p.third⟩
  accepted := image.accepted

theorem samples_clamped (image : Image) : image.clamped.samples = image.samples.map nearestByte := by
  simp only [samples, clamped, Vector.toList_map, List.flatMap_map, List.map_flatMap]
  rfl

theorem pixel_clamped (image : Image) {x y : Nat} (hin : image.extent.Contains x y) :
    image.clamped.pixel x y = ⟨nearestByte (image.pixel x y).first,
      nearestByte (image.pixel x y).second, nearestByte (image.pixel x y).third⟩ := by
  rw [clamped, pixel_mk hin, pixel_of_contains hin]
  exact Vector.getElem_map _ (Extent.index_lt_area hin)

theorem grid_clamped (image : Image) (c : Channel) {x y : Nat} (hin : image.extent.Contains x y) :
    image.clamped.grid c x y = max 0 (min 255 (image.grid c x y)) := by
  rw [grid, image.pixel_clamped hin, grid]
  cases c <;> exact toInt_nearestByte _

/-- An image of bytes keeps all its samples. -/
theorem clamped_eq_self {image : Image} (hbytes : ∀ c x y, image.extent.Contains x y →
    0 ≤ image.grid c x y ∧ image.grid c x y ≤ 255) : image.clamped = image := by
  refine ext_pixel rfl rfl fun x y hin => pixel_eq_iff_grid.2 fun c => ?_
  have hmem := hbytes c x y hin
  rw [grid_clamped image c hin]
  omega

end Image

end Acutance
