import Acutance.Proofs.Png.Frame

namespace Acutance

namespace Bytes

/-- Cuts bytes into parts of one size, `count` of them at most. The last part can be shorter. -/
def parts (size : Nat) : Nat → Bytes → List Bytes
  | 0, _ => []
  | count + 1, bytes =>
    if bytes = [] then [] else bytes.take size :: parts size count (bytes.drop size)

/-- Cuts bytes into parts of one size, `count` of them at most. What is less than a part is left. -/
def wholeParts (size : Nat) : Nat → Bytes → List Bytes
  | 0, _ => []
  | count + 1, bytes =>
    if bytes.length < size then []
    else bytes.take size :: wholeParts size count (bytes.drop size)

variable {size count : Nat} {bytes : Bytes}

/-- The parts that bytes are long enough for stand one behind the other. -/
theorem wholeParts_eq (hlength : count * size ≤ bytes.length) : wholeParts size count bytes =
    (List.range count).map fun i => (bytes.drop (i * size)).take size := by
  induction count generalizing bytes with
  | zero => rfl
  | succ count ih =>
    rw [Nat.succ_mul] at hlength
    have hrest : count * size ≤ (bytes.drop size).length := by
      rw [List.length_drop]
      omega
    have hshift : ∀ i, size + i * size = (i + 1) * size := by
      intro i
      rw [Nat.succ_mul, Nat.add_comm]
    rw [wholeParts, if_neg (by omega), ih hrest, List.range_succ_eq_map]
    simp [Function.comp_def, hshift]

private theorem parts_eq_wholeParts (hsize : 0 < size) (hlength : count * size ≤ bytes.length) :
    parts size count bytes = wholeParts size count bytes := by
  induction count generalizing bytes with
  | zero => rfl
  | succ count ih =>
    rw [Nat.succ_mul] at hlength
    have hsome : bytes ≠ [] := by
      rintro rfl
      rw [List.length_nil] at hlength
      omega
    rw [parts, wholeParts, if_neg hsome, if_neg (by omega), ih (by rw [List.length_drop]; omega)]

/-- Parts of one size that were put together are cut off again. -/
theorem parts_flatten {rows : List Bytes} (hsize : 0 < size) (hrows : ∀ row ∈ rows, row.length = size) :
    parts size rows.length rows.flatten = rows := by
  induction rows with
  | nil => rfl
  | cons row rows ih =>
    have hrow : row.length = size := hrows row (by simp)
    have hsome : row ++ rows.flatten ≠ [] := by
      intro h
      rw [(List.append_eq_nil_iff.1 h).1, List.length_nil] at hrow
      omega
    rw [List.flatten_cons, List.length_cons, parts, if_neg hsome, List.take_left' hrow,
      List.drop_left' hrow, ih fun other hother => hrows other (by simp [hother])]

/-- Bytes for a number of parts are cut into as many, which are the bytes again. -/
theorem parts_of_length (hsize : 0 < size) (hlength : bytes.length = count * size) :
    (parts size count bytes).length = count ∧ (∀ part ∈ parts size count bytes, part.length = size) ∧
      (parts size count bytes).flatten = bytes := by
  induction count generalizing bytes with
  | zero =>
    rw [Nat.zero_mul] at hlength
    exact ⟨rfl, List.forall_mem_nil _, (List.length_eq_zero_iff.1 hlength).symm⟩
  | succ count ih =>
    rw [Nat.succ_mul] at hlength
    have hsome : bytes ≠ [] := by
      rintro rfl
      rw [List.length_nil] at hlength
      omega
    have hrest : (bytes.drop size).length = count * size := by
      rw [List.length_drop]
      omega
    obtain ⟨hcount, hparts, hflatten⟩ := ih hrest
    rw [parts, if_neg hsome]
    refine ⟨congrArg (· + 1) hcount, List.forall_mem_cons.2 ⟨?_, hparts⟩, ?_⟩
    · rw [List.length_take]
      omega
    · rw [List.flatten_cons, hflatten, List.take_append_drop]

private theorem getD_part {i k : Nat} (hk : k < size) :
    ((bytes.drop i).take size).getD k 0 = bytes.getD (i + k) 0 := by
  simp [List.getD_eq_getElem?_getD, List.getElem?_take_of_lt hk]

end Bytes

namespace Codec.Png

/-- The bytes of a frame, and how many of them are in a line. -/
structure Lines where
  size : Nat
  bytes : Bytes
  size_pos : 0 < size
  deriving DecidableEq

namespace Lines

/-- Lines of a number of bytes each, unless there are none in a line. -/
def ofBytes? (size : Nat) (bytes : Bytes) : Option Lines :=
  if h : 0 < size then some ⟨size, bytes, h⟩ else none

/-- The samples of a pixel from its bytes: a gray byte counts three times, and transparency is left out. -/
def pixelSamples (pixel : Bytes) : List Sample :=
  let byte (k : Nat) : Sample := narrow (pixel.getD k 0).toNat
  if pixel.length ≤ 2 then [byte 0, byte 0, byte 0] else [byte 0, byte 1, byte 2]

/-- The samples of all pixels, of `pixelBytes` bytes each. -/
def samples (l : Lines) (e : Extent) (pixelBytes : Nat) : List Sample :=
  (Bytes.parts l.size e.height l.bytes).flatMap fun line =>
    (Bytes.wholeParts pixelBytes e.width line).flatMap pixelSamples

/-- The image that the lines show. -/
def toImage (l : Lines) (h : Header) : Except CodecError Image :=
  (Image.ofSamples h.extent .rgb (l.samples h.extent h.color.samples).toArray).mapError .raster

variable {l : Lines} {e : Extent} {pixelBytes : Nat}

/-- Whatever lines show is in red, green and blue, and every sample of it is a byte. -/
theorem space_and_sample_of_toImage {h : Header} {image : Image} (himage : l.toImage h = .ok image) :
    image.space = .rgb ∧ ∀ s ∈ image.samples, ∃ b : UInt8, s = narrow b.toNat := by
  obtain ⟨-, hspace, hsamples⟩ := Image.ofSamples_eq_ok_iff.1 (mapError_eq_ok_iff.1 himage)
  refine ⟨hspace, fun s hs => ?_⟩
  rw [hsamples] at hs
  obtain ⟨line, -, hs⟩ := List.mem_flatMap.1 hs
  obtain ⟨pixel, -, hs⟩ := List.mem_flatMap.1 hs
  unfold pixelSamples at hs
  split at hs
  all_goals
    simp only [List.mem_cons, List.not_mem_nil, or_false] at hs
    obtain rfl | rfl | rfl := hs <;> exact ⟨_, rfl⟩

private theorem pixelSamples_part {bytes : Bytes} {i : Nat} (hpixel : 0 < pixelBytes)
    (hlength : (i + 1) * pixelBytes ≤ bytes.length) :
    pixelSamples ((bytes.drop (i * pixelBytes)).take pixelBytes) =
      Frame.pixelSamples ⟨e, pixelBytes, bytes.toArray⟩ i := by
  have hpart : ((bytes.drop (i * pixelBytes)).take pixelBytes).length = pixelBytes := by
    rw [Nat.succ_mul] at hlength
    rw [List.length_take, List.length_drop]
    omega
  have hbyte : ∀ k < pixelBytes, ((bytes.drop (i * pixelBytes)).take pixelBytes).getD k 0 =
      bytes.toArray.getD (i * pixelBytes + k) 0 := by
    intro k hk
    rw [Bytes.getD_part hk]
    simp [List.getD_eq_getElem?_getD]
  simp only [pixelSamples, Frame.pixelSamples, hpart]
  split
  · rw [hbyte 0 hpixel]
  · rw [hbyte 0 (by omega), hbyte 1 (by omega), hbyte 2 (by omega)]

/-- A pixel of a line begins where its number says. -/
theorem take_drop_line {bytes : Bytes} {x y : Nat} (hx : x < e.width) :
    ((((bytes.drop (y * (e.width * pixelBytes))).take (e.width * pixelBytes)).drop
      (x * pixelBytes)).take pixelBytes) =
        (bytes.drop (e.index x y * pixelBytes)).take pixelBytes := by
  have hroom : (x + 1) * pixelBytes ≤ e.width * pixelBytes := Nat.mul_le_mul_right _ hx
  have hstart : y * (e.width * pixelBytes) + x * pixelBytes = e.index x y * pixelBytes := by
    rw [Extent.index, Nat.add_mul, Nat.mul_assoc]
  rw [Nat.succ_mul] at hroom
  rw [List.drop_take, List.take_take, List.drop_drop, hstart, Nat.min_eq_left (by omega)]

/-- A frame with all its lines has the samples of all its pixels. -/
theorem samples_eq (hsize : l.size = e.width * pixelBytes)
    (hlength : e.height * l.size ≤ l.bytes.length) : l.samples e pixelBytes =
      (List.range e.area).flatMap (Frame.pixelSamples ⟨e, pixelBytes, l.bytes.toArray⟩) := by
  have hpixel : 0 < pixelBytes := Nat.pos_of_mul_pos_left (hsize ▸ l.size_pos)
  have hall : e.area * pixelBytes ≤ l.bytes.length := by
    rw [Extent.area, Nat.mul_comm e.width, Nat.mul_assoc, ← hsize]
    exact hlength
  rw [samples, Bytes.parts_eq_wholeParts l.size_pos hlength, Bytes.wholeParts_eq hlength,
    List.flatMap_map, ← List.map_id (List.range e.area), Extent.map_range_area, List.flatMap_assoc]
  refine List.flatMap_congr fun y hy => ?_
  have hline : e.width * pixelBytes ≤ ((l.bytes.drop (y * l.size)).take l.size).length := by
    have hrow : (y + 1) * l.size ≤ e.height * l.size :=
      Nat.mul_le_mul_right _ (List.mem_range.1 hy)
    rw [Nat.succ_mul] at hrow
    rw [List.length_take, List.length_drop]
    omega
  rw [Bytes.wholeParts_eq hline, List.flatMap_map, List.flatMap_map]
  refine List.flatMap_congr fun x hx => ?_
  have hin : e.Contains x y := ⟨List.mem_range.1 hx, List.mem_range.1 hy⟩
  have hend : (e.index x y + 1) * pixelBytes ≤ l.bytes.length :=
    Nat.le_trans (Nat.mul_le_mul_right _ (Extent.index_lt_area hin)) hall
  rw [hsize, take_drop_line hin.1]
  exact pixelSamples_part hpixel hend

/-- A frame with all its bytes shows one image, whether its pixels are cut off line by line or found by
their numbers. -/
theorem toImage_eq {h : Header} (hsize : l.size = h.extent.width * h.color.samples)
    (hlength : h.extent.height * l.size ≤ l.bytes.length) :
    l.toImage h = Frame.toImage ⟨h.extent, h.color.samples, l.bytes.toArray⟩ := by
  rw [toImage, samples_eq hsize hlength, Frame.toImage]

end Lines

end Codec.Png

end Acutance
