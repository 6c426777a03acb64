import Acutance.Proofs.Raster.Access

namespace Acutance

/-- The first number that is no coordinate. A coordinate takes 32 bits. -/
def coordinateLimit : Nat := 4294967296

namespace Extent

variable {ε : Type} {e : Extent} {x y : Nat}

/-- The number of a place, with every number on the way counted in 64 bits. -/
def countIndex (e : Extent) (x y : Nat) : Run (Flaw ε) Nat := do
  let above ← Buffer.count (y * e.width)
  Buffer.count (above + x)

/-- Coordinates are too small for the number of a place to leave 64 bits, inside or outside. -/
theorem countIndex_eq_ok (hwidth : e.width < coordinateLimit) (hx : x < coordinateLimit)
    (hy : y < coordinateLimit) : (e.countIndex x y : Run (Flaw ε) Nat) = .ok (e.index x y) := by
  have habove : y * e.width ≤ (coordinateLimit - 1) * (coordinateLimit - 1) :=
    Nat.mul_le_mul (Nat.le_sub_one_of_lt hy) (Nat.le_sub_one_of_lt hwidth)
  have hroom : (coordinateLimit - 1) * (coordinateLimit - 1) + (coordinateLimit - 1) < Buffer.countLimit := by
    decide
  have hcount : (Buffer.count (y * e.width) : Run (Flaw ε) Nat) = .ok (y * e.width) :=
    Buffer.count_of_lt (by omega)
  rw [countIndex, hcount]
  exact Buffer.count_of_lt (by omega)

/-- The number of a place is at least the area below the raster, and to the right of it when all places of
the rows from there on are passed over. -/
theorem area_le_index_iff :
    e.area ≤ e.index x y ↔ e.height ≤ y ∨ (e.height - y) * e.width ≤ x := by
  rw [area, index, Nat.mul_comm]
  rcases Nat.lt_or_ge y e.height with habove | hbelow
  · have hrows : e.height * e.width = y * e.width + (e.height - y) * e.width := by
      rw [← Nat.add_mul, Nat.add_sub_of_le habove.le]
    omega
  · have hrows : e.height * e.width ≤ y * e.width := Nat.mul_le_mul_right _ hbelow
    omega

/-- Only in a raster of one row is every place outside numbered behind the last place. -/
theorem forall_area_le_index_iff (hne : e.Nonempty) (hwidth : e.width < coordinateLimit) :
    (∀ x y, x < coordinateLimit → y < coordinateLimit → ¬ e.Contains x y → e.area ≤ e.index x y) ↔
      e.height = 1 := by
  obtain ⟨hcolumns, hrows⟩ := hne
  constructor
  · intro hall
    -- the place beside the first row has the number of the first place of the second row
    have hbeside := hall e.width 0 hwidth (by decide) fun hin => Nat.lt_irrefl _ hin.1
    have hheight : e.height * e.width ≤ 1 * e.width := by
      rw [area, index] at hbeside
      rw [Nat.mul_comm]
      omega
    have hle := Nat.le_of_mul_le_mul_right hheight hcolumns
    omega
  · intro hone x y _ _ hout
    rw [area_le_index_iff, hone]
    rcases not_contains_iff.1 hout with hright | hbelow
    · rcases Nat.eq_zero_or_pos y with rfl | hy
      · right
        omega
      · exact .inl hy
    · exact .inl (hone ▸ hbelow)

variable {α : Type} {set : Nat → Nat → Except RasterError α} {index size : Nat}

/-- Writes to a raster that refuse the places outside and nothing else. A refusal names the number of the
place and the number of all places. -/
def RefusesOutside (e : Extent) (set : Nat → Nat → Except RasterError α) : Prop :=
  ∀ x y error, set x y = .error error ↔
    ¬ e.Contains x y ∧ error = .outOfBounds (y * e.width + x) (e.width * e.height)

private theorem refusesOutside_of (hinside : ∀ x y, e.Contains x y → ∃ a, set x y = .ok a)
    (houtside : ∀ x y, ¬ e.Contains x y → set x y = .error (.outOfBounds (e.index x y) e.area)) :
    e.RefusesOutside set := by
  intro x y error
  constructor
  · intro hrefused
    by_cases hin : e.Contains x y
    · obtain ⟨a, ha⟩ := hinside x y hin
      rw [ha] at hrefused
      cases hrefused
    · rw [houtside x y hin] at hrefused
      exact ⟨hin, (Except.error.inj hrefused).symm⟩
  · rintro ⟨hout, rfl⟩
    exact houtside x y hout

/-- The number that a refusal names lies outside below the raster, and beside it from as far on as there are
places in the rows that follow. -/
theorem RefusesOutside.size_le_index_iff (h : e.RefusesOutside set)
    (hrefused : set x y = .error (.outOfBounds index size)) :
    size ≤ index ↔ e.height ≤ y ∨ (e.height - y) * e.width ≤ x := by
  obtain ⟨-, hreport⟩ := (h x y _).1 hrefused
  obtain ⟨rfl, rfl⟩ := RasterError.outOfBounds.inj hreport
  exact area_le_index_iff

private theorem RefusesOutside.forall_size_le_index_iff (h : e.RefusesOutside set) (hne : e.Nonempty)
    (hwidth : e.width < coordinateLimit) :
    (∀ x y index size, x < coordinateLimit → y < coordinateLimit →
      set x y = .error (.outOfBounds index size) → size ≤ index) ↔ e.height = 1 := by
  rw [← forall_area_le_index_iff hne hwidth]
  constructor
  · intro hall x y hx hy hout
    exact hall x y _ _ hx hy ((h x y _).2 ⟨hout, rfl⟩)
  · intro hall x y index size hx hy hrefused
    obtain ⟨hout, hreport⟩ := (h x y _).1 hrefused
    obtain ⟨rfl, rfl⟩ := RasterError.outOfBounds.inj hreport
    exact hall x y hx hy hout

end Extent

/-- Replaces the pixel at a place, with every number on the way counted in 64 bits. -/
def ImageBuffer.setCounted (i : ImageBuffer) (x y : Nat) (p : Pixel) :
    Run (Flaw RasterError) ImageBuffer :=
  if i.extent.width ≤ x ∨ i.extent.height ≤ y then do
    let index ← i.extent.countIndex x y
    let size ← Buffer.count (i.extent.width * i.extent.height)
    Run.answering (.error (.outOfBounds index size))
  else do
    let index ← i.extent.countIndex x y
    let first ← Buffer.count (index * Pixel.channelCount)
    let last ← Buffer.count (first + Pixel.channelCount)
    let _ ← Buffer.slice i.data first last
    let data ← Buffer.splice i.data first p.samples.toArray
    return { i with data }

/-- Replaces the sample at a place, with every number on the way counted in 64 bits. -/
def PlaneBuffer.setCounted (p : PlaneBuffer) (x y : Nat) (s : Sample) :
    Run (Flaw RasterError) PlaneBuffer :=
  if p.extent.width ≤ x ∨ p.extent.height ≤ y then do
    let index ← p.extent.countIndex x y
    Run.answering (.error (.outOfBounds index p.data.size))
  else do
    let index ← p.extent.countIndex x y
    let data ← Buffer.write p.data index s
    return { p with data }

namespace Image

variable {ε : Type} {x y : Nat}

theorem set_refusesOutside (image : Image) (p : Pixel) :
    image.extent.RefusesOutside fun x y => image.set x y p :=
  Extent.refusesOutside_of (fun _ _ hin => ⟨_, dif_pos hin⟩) fun _ _ hout => dif_neg hout

private theorem width_lt_coordinateLimit (image : Image) : image.extent.width < coordinateLimit :=
  Nat.lt_of_le_of_lt image.accepted.le.1 (by decide)

/-- No number of samples in an image, and none of places, leaves 64 bits. -/
theorem count_eq_ok (image : Image) {n : Nat} (hn : n ≤ 3 * image.extent.area) :
    (Buffer.count n : Run (Flaw ε) Nat) = .ok n := by
  obtain ⟨hwidth, hheight⟩ := image.accepted.le
  have harea : image.extent.area ≤ Capacity.maxWidth * Capacity.maxHeight :=
    Nat.mul_le_mul hwidth hheight
  have hroom : 3 * (Capacity.maxWidth * Capacity.maxHeight) < Buffer.countLimit := by decide
  exact Buffer.count_of_lt (by omega)

/-- No number on the way to a pixel leaves 64 bits, wherever the pixel would lie. -/
theorem setCounted_buffer (image : Image) (hx : x < coordinateLimit) (hy : y < coordinateLimit)
    (p : Pixel) :
    image.buffer.setCounted x y p = (Run.ofExcept (image.set x y p)).laidOut buffer := by
  rw [← set_buffer, ImageBuffer.setCounted, ImageBuffer.set, extent_buffer,
    Extent.countIndex_eq_ok image.width_lt_coordinateLimit hx hy]
  by_cases hin : image.extent.Contains x y
  · have hlt := Extent.index_lt_area hin
    have hsize : image.buffer.data.size = 3 * image.extent.area := image.length_samples
    have hthree : image.extent.index x y * Pixel.channelCount = 3 * image.extent.index x y :=
      Nat.mul_comm _ _
    have hfirst : (Buffer.count (3 * image.extent.index x y) : Run (Flaw RasterError) Nat) =
        .ok (3 * image.extent.index x y) := image.count_eq_ok (by omega)
    have hlast : (Buffer.count (3 * image.extent.index x y + Pixel.channelCount) :
        Run (Flaw RasterError) Nat) = .ok (3 * image.extent.index x y + 3) :=
      image.count_eq_ok (Nat.mul_le_mul_left 3 hlt)
    have hslice : (Buffer.slice image.buffer.data (3 * image.extent.index x y)
        (3 * image.extent.index x y + 3) : Run (Flaw RasterError) (Array Sample)) = .ok _ :=
      Buffer.slice_of_le (by omega) (by omega)
    have hinside : ¬ (image.extent.width ≤ x ∨ image.extent.height ≤ y) :=
      fun h => Extent.not_contains_iff.2 h hin
    rw [if_neg hinside, if_neg hinside, index_buffer]
    simp only [bind, Except.bind, hthree, hfirst, hlast, hslice]
  · have hsize : (Buffer.count (image.extent.width * image.extent.height) :
        Run (Flaw RasterError) Nat) = .ok image.extent.area := image.count_eq_ok (by rw [Extent.area]; omega)
    have houtside := Extent.not_contains_iff.1 hin
    rw [if_pos houtside, if_pos houtside, hsize]
    rfl

end Image

namespace Plane

variable {x y : Nat}

theorem set_refusesOutside (plane : Plane) (s : Sample) :
    plane.extent.RefusesOutside fun x y => plane.set x y s :=
  Extent.refusesOutside_of (fun _ _ hin => ⟨_, if_pos hin⟩) fun _ _ hout => if_neg hout

/-- No number on the way to a sample leaves 64 bits, wherever the sample would lie. -/
theorem setCounted_buffer (plane : Plane) (hwidth : plane.extent.width < coordinateLimit)
    (hx : x < coordinateLimit) (hy : y < coordinateLimit) (s : Sample) :
    plane.buffer.setCounted x y s = (Run.ofExcept (plane.set x y s)).laidOut buffer := by
  rw [← set_buffer, PlaneBuffer.setCounted, PlaneBuffer.set, extent_buffer,
    Extent.countIndex_eq_ok hwidth hx hy]
  rfl

end Plane

/-- A write to an image or to a plane is refused exactly at the places outside, and names the number of the
place, `y * width + x`, and the number of all places. Every number on the way is counted in 64 bits for any
coordinates. The number of the place lies outside, at or above the number of all places, exactly when the
place is below the raster or so far beside it that no place of the rows that follow is left; so all refusals
of a raster name a number outside exactly when it has one row. -/
theorem outside_reports (image : Image) (plane : Plane) (hplane : plane.extent.width < coordinateLimit)
    (p : Pixel) (s : Sample) :
    image.extent.RefusesOutside (fun x y => image.set x y p) ∧
    plane.extent.RefusesOutside (fun x y => plane.set x y s) ∧
    (∀ x y, x < coordinateLimit → y < coordinateLimit →
      image.buffer.setCounted x y p = (Run.ofExcept (image.set x y p)).laidOut Image.buffer ∧
      plane.buffer.setCounted x y s = (Run.ofExcept (plane.set x y s)).laidOut Plane.buffer) ∧
    (∀ x y index size, image.set x y p = .error (.outOfBounds index size) → (size ≤ index ↔
      image.extent.height ≤ y ∨ (image.extent.height - y) * image.extent.width ≤ x)) ∧
    (∀ x y index size, plane.set x y s = .error (.outOfBounds index size) → (size ≤ index ↔
      plane.extent.height ≤ y ∨ (plane.extent.height - y) * plane.extent.width ≤ x)) ∧
    ((∀ x y index size, x < coordinateLimit → y < coordinateLimit →
      image.set x y p = .error (.outOfBounds index size) → size ≤ index) ↔ image.extent.height = 1) ∧
    ((∀ x y index size, x < coordinateLimit → y < coordinateLimit →
      plane.set x y s = .error (.outOfBounds index size) → size ≤ index) ↔ plane.extent.height = 1) := by
  have himage := image.set_refusesOutside p
  have hsample := plane.set_refusesOutside s
  exact ⟨himage, hsample,
    fun _ _ hx hy => ⟨image.setCounted_buffer hx hy p, plane.setCounted_buffer hplane hx hy s⟩,
    fun _ _ _ _ => himage.size_le_index_iff, fun _ _ _ _ => hsample.size_le_index_iff,
    himage.forall_size_le_index_iff image.accepted.1 image.width_lt_coordinateLimit,
    hsample.forall_size_le_index_iff plane.nonempty hplane⟩

theorem outside_reports_tiles :
    (Image.tiles.channel .third).extent.width < coordinateLimit ∧
    Image.tiles.set 0 3 (.gray 7) = .error (.outOfBounds 6 6) ∧
    Image.tiles.set 3 2 (.gray 7) = .error (.outOfBounds 7 6) ∧
    (Image.tiles.channel .third).buffer.setCounted 4294967295 4294967295 7 =
      .error (.error (.refused (.outOfBounds 12884901885 6))) ∧
    ¬ (∀ x y index size, x < coordinateLimit → y < coordinateLimit →
      Image.tiles.set x y (.gray 7) = .error (.outOfBounds index size) → size ≤ index) := by
  have hplane : (Image.tiles.channel .third).extent.width < coordinateLimit := by decide
  obtain ⟨himage, hsample, hcounted, -, -, hall, -⟩ :=
    outside_reports Image.tiles (Image.tiles.channel .third) hplane (.gray 7) 7
  refine ⟨hplane, (himage 0 3 _).2 ⟨by decide, rfl⟩, (himage 3 2 _).2 ⟨by decide, rfl⟩, ?_,
    fun h => absurd (hall.1 h) (by decide)⟩
  have hcorner := (hcounted 4294967295 4294967295 (by decide) (by decide)).2
  have hrefused : (Image.tiles.channel .third).set 4294967295 4294967295 7 =
      .error (.outOfBounds 12884901885 6) := (hsample _ _ _).2 ⟨by decide, rfl⟩
  rw [hcorner, hrefused]
  rfl

/-- Beside the first row the number of a place in the second one is named, and the message says that it is
not below the number of all places. -/
theorem set_beside_tiles_misreported : ¬ Image.tiles.extent.Contains 2 0 ∧
    Image.tiles.set 2 0 (.gray 7) = .error (.outOfBounds 2 6) ∧
    (Image.tiles.channel .third).set 2 0 7 = .error (.outOfBounds 2 6) ∧
    (RasterError.outOfBounds 2 6).message = "index out of bounds: 2 >= 6" ∧ ¬ 6 ≤ 2 := by
  have hout : ¬ Image.tiles.extent.Contains 2 0 := by decide
  exact ⟨hout, (Image.set_refusesOutside _ _ 2 0 _).2 ⟨hout, rfl⟩,
    (Plane.set_refusesOutside _ _ 2 0 _).2 ⟨hout, rfl⟩, by decide +kernel, by decide⟩

end Acutance
