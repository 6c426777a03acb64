import Acutance.Raster.Image
import Mathlib.Data.List.Basic

namespace Acutance

theorem length_flatMap_samples (pixels : List Pixel) :
    (pixels.flatMap Pixel.samples).length = 3 * pixels.length := by
  induction pixels with
  | nil => rfl
  | cons p pixels ih =>
    simp only [List.flatMap_cons, List.length_append, List.length_cons, ih]
    change 3 + 3 * pixels.length = _
    omega

/-- Samples whose number is right are those of some pixels. -/
theorem exists_pixels_of_length {samples : List Sample} {n : Nat} (h : samples.length = 3 * n) :
    ∃ pixels : List Pixel, pixels.length = n ∧ pixels.flatMap Pixel.samples = samples := by
  induction n generalizing samples with
  | zero => exact ⟨[], rfl, (List.length_eq_zero_iff.1 h).symm⟩
  | succ n ih =>
    match samples, h with
    | a :: b :: c :: rest, h =>
      have hrest : rest.length = 3 * n := by
        simp only [List.length_cons] at h
        omega
      obtain ⟨pixels, hlength, hpixels⟩ := ih hrest
      exact ⟨⟨a, b, c⟩ :: pixels, by simp [hlength], by simp [Pixel.samples, hpixels]⟩
    | [_, _], h | [_], h | [], h => simp only [List.length_cons, List.length_nil] at h; omega

/-- The numbers of all places, row by row. -/
theorem Extent.map_range_area {α : Type} (e : Extent) (f : Nat → α) :
    (List.range e.area).map f = (List.range e.height).flatMap fun y =>
      (List.range e.width).map fun x => f (e.index x y) := by
  obtain ⟨width, height⟩ := e
  simp only [area, index]
  induction height with
  | zero => rfl
  | succ height ih =>
    rw [Nat.mul_succ, List.range_add, List.map_append, ih, List.range_succ, List.flatMap_append]
    simp [Nat.mul_comm]

theorem Extent.map_range_area_mod_div {α : Type} (e : Extent) (f : Nat → Nat → α) :
    (List.range e.area).map (fun i => f (i % e.width) (i / e.width)) =
      (List.range e.height).flatMap fun y => (List.range e.width).map fun x => f x y := by
  rw [map_range_area]
  refine List.flatMap_congr fun y _ => List.map_congr_left fun x hx => ?_
  have hcolumn := List.mem_range.1 hx
  rw [index_mod hcolumn, index_div hcolumn]

theorem Extent.check_ne_sampleCount (e : Extent) (expected actual : Nat) :
    e.check ≠ .error (.sampleCount expected actual) := by
  unfold check
  split_ifs <;> nofun

namespace Image

/-- The pixels are assembled again from their samples. -/
theorem assemble_flatMap_samples {pixels : List Pixel} {i : Nat} (hi : i < pixels.length) :
    assemble (pixels.flatMap Pixel.samples).toArray i = pixels[i] := by
  -- three samples further on is one pixel further on
  induction pixels generalizing i with
  | nil => simp at hi
  | cons p pixels ih =>
    cases i with
    | zero => simp [assemble, Pixel.samples]
    | succ i =>
      have hi' : i < pixels.length := by simpa using hi
      rw [List.getElem_cons_succ, ← ih hi']
      simp [assemble, Pixel.samples, Nat.mul_add, Nat.add_right_comm]

theorem length_samples (image : Image) : image.samples.length = 3 * image.extent.area := by
  rw [samples, length_flatMap_samples, Vector.length_toList]

theorem assemble_samples (image : Image) {i : Nat} (hi : i < image.extent.area) :
    assemble image.samples.toArray i = image.pixels[i] := by
  have hi' : i < image.pixels.toList.length := by simpa using hi
  rw [samples, assemble_flatMap_samples hi', Vector.getElem_toList]

/-- Images of one extent and color space are equal when their samples are. -/
theorem ext_samples {a b : Image} (hextent : a.extent = b.extent) (hspace : a.space = b.space)
    (hsamples : a.samples = b.samples) : a = b := by
  obtain ⟨e, space, pixels, haccepted⟩ := a
  obtain ⟨e', space', pixels', haccepted'⟩ := b
  simp only at hextent hspace
  subst hextent hspace
  congr 1
  apply Vector.ext
  intro i hi
  have hpixel := assemble_samples ⟨e, space, pixels, haccepted⟩ hi
  rw [hsamples, assemble_samples _ hi] at hpixel
  exact hpixel.symm

theorem pixel_mod_div (image : Image) {i : Nat} (hi : i < image.extent.area) :
    image.pixel (i % image.extent.width) (i / image.extent.width) = image.pixels[i] := by
  rw [pixel_of_contains (Extent.contains_of_lt_area hi)]
  simp only [Extent.index_mod_div]
  rfl

theorem toList_pixels (image : Image) : image.pixels.toList =
    (List.range image.extent.area).map fun i =>
      image.pixel (i % image.extent.width) (i / image.extent.width) := by
  apply List.ext_getElem
  · simp
  · intro i hi _
    have hi' : i < image.extent.area := by simpa using hi
    simp [image.pixel_mod_div hi']

/-- The pixels stand row by row. -/
theorem toList_pixels_eq_rows (image : Image) : image.pixels.toList =
    (List.range image.extent.height).flatMap fun y =>
      (List.range image.extent.width).map fun x => image.pixel x y := by
  rw [toList_pixels, Extent.map_range_area_mod_div _ image.pixel]

/-- The samples stand row by row. -/
theorem samples_eq_rows (image : Image) :
    image.samples = (List.range image.extent.height).flatMap fun y =>
      (List.range image.extent.width).flatMap fun x => (image.pixel x y).samples := by
  rw [samples, toList_pixels_eq_rows, List.flatMap_assoc]
  simp only [List.flatMap_map]

/-- The samples of every pixel are among those of the image. -/
theorem get_pixel_mem_samples (image : Image) {x y : Nat} (hin : image.extent.Contains x y)
    (c : Channel) : (image.pixel x y).get c ∈ image.samples := by
  rw [samples_eq_rows]
  refine List.mem_flatMap.2 ⟨y, List.mem_range.2 hin.2, List.mem_flatMap.2
    ⟨x, List.mem_range.2 hin.1, ?_⟩⟩
  cases c <;> simp [Pixel.samples, Pixel.get]

theorem holds_of_ofSamples_eq_ok {e : Extent} {space : ColorSpace} {values : Array Sample}
    {image : Image} (h : ofSamples e space values = .ok image) :
    image.extent = e ∧ image.space = space ∧ image.samples = values.toList := by
  unfold ofSamples at h
  split at h
  · cases h
  · split at h
    · next hsize =>
      obtain rfl := Except.ok.inj h
      have hlength : values.toList.length = 3 * e.area := by
        rw [Array.length_toList, hsize, sampleCount, Nat.mul_comm]
        rfl
      obtain ⟨pixels, harea, hpixels⟩ := exists_pixels_of_length hlength
      have hassembled : (Vector.ofFn fun i : Fin e.area => assemble values i).toList = pixels := by
        apply List.ext_getElem
        · simp [harea]
        · intro i _ hi
          have hpixel := assemble_flatMap_samples hi
          rw [hpixels, Array.toArray_toList] at hpixel
          simpa using hpixel
      refine ⟨rfl, rfl, ?_⟩
      rw [samples, hassembled, hpixels]
    · cases h

/-- An image is made of samples when it holds them. Their number and the extent are right then. -/
theorem ofSamples_eq_ok_iff {e : Extent} {space : ColorSpace} {values : Array Sample}
    {image : Image} : ofSamples e space values = .ok image ↔
      image.extent = e ∧ image.space = space ∧ image.samples = values.toList := by
  constructor
  · exact holds_of_ofSamples_eq_ok
  · rintro ⟨rfl, rfl, hsamples⟩
    have hsize : values.size = sampleCount image.extent := by
      rw [← Array.length_toList, ← hsamples, length_samples, sampleCount, Nat.mul_comm]
      rfl
    have hexists : ∃ made, ofSamples image.extent image.space values = .ok made :=
      ofSamples_isOk image.accepted hsize
    obtain ⟨made, hmade⟩ := hexists
    obtain ⟨hextent, hspace, hsame⟩ := holds_of_ofSamples_eq_ok hmade
    rw [hmade, ext_samples hextent hspace (hsame.trans hsamples.symm)]

end Image

end Acutance
