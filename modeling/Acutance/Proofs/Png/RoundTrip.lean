import Acutance.Codec.FileFormat
import Acutance.Proofs.Flate.Stored
import Acutance.Proofs.Png.Chunk
import Acutance.Proofs.Png.Frame
import Acutance.Proofs.Raster.Clamped

namespace Acutance.Codec.Png

/-- The rows of an image as bytes. -/
def plainRows (image : Image) : List Bytes :=
  (List.range image.extent.height).map fun y =>
    ((List.range image.extent.width).flatMap fun x => (image.pixel x y).samples).map byteOf

variable {image : Image}

theorem filteredRows_eq (image : Image) :
    filteredRows image = (plainRows image).flatMap fun row => 0 :: row := by
  rw [plainRows, List.flatMap_map]
  rfl

theorem flatten_plainRows (image : Image) :
    (plainRows image).flatten = image.samples.map byteOf := by
  rw [image.samples_eq_rows, List.map_flatMap, plainRows, ← List.flatMap_def]

theorem length_plainRow {row : Bytes} (hrow : row ∈ plainRows image) :
    row.length = 3 * image.extent.width := by
  obtain ⟨y, -, rfl⟩ := List.mem_map.1 hrow
  have hsamples := length_flatMap_samples
    ((List.range image.extent.width).map fun x => image.pixel x y)
  rw [List.flatMap_map, List.length_map, List.length_range] at hsamples
  rw [List.length_map, hsamples]

private theorem length_flatMap_coded {rows : List Bytes} {n : Nat} (hrows : ∀ row ∈ rows, row.length = n) :
    (rows.flatMap fun row => (0 : UInt8) :: row).length = rows.length * (1 + n) := by
  induction rows with
  | nil => simp
  | cons row rows ih =>
    have hrow : row.length = n := hrows row (by simp)
    have hrest := ih fun other hother => hrows other (by simp [hother])
    rw [List.flatMap_cons, List.length_append, hrest, List.length_cons, List.length_cons, hrow,
      Nat.succ_mul]
    omega

/-- An image in red, green and blue is written as a whole. -/
theorem collect_write (hrgb : image.space = .rgb) : (write image).collect =
    .ok (fileBytes (Header.colorBytes image.extent) (Flate.Zlib.store (filteredRows image))) := by
  have hspace : image.expectSpace .rgb = .ok () := Image.expectSpace_eq_ok_iff.2 hrgb
  let opened : Array UInt8 := (#[] : Array UInt8) ++
    (signature ++ Chunk.render Chunk.headerKind (Header.colorBytes image.extent))
  let filled : Array UInt8 :=
    opened ++ Chunk.render Chunk.dataKind (Flate.Zlib.store (filteredRows image))
  have hwrite : write image ⟨#[], none⟩ =
      .ok () ⟨filled ++ Chunk.render Chunk.endKind [], none⟩ := by
    refine Edit.bind_eq_ok_iff.2 ⟨(), ⟨#[], none⟩, by rw [hspace]; rfl, ?_⟩
    refine Edit.bind_eq_ok_iff.2 ⟨(), ⟨opened, none⟩, rfl, ?_⟩
    exact Edit.bind_eq_ok_iff.2 ⟨(), ⟨filled, none⟩, rfl, rfl⟩
  rw [Edit.collect, Sink.unlimited, hwrite]
  simp [Sink.bytes, filled, opened, fileBytes]

/-- The rows of an accepted extent are far from the limit of a chunk, with four bytes to a pixel. -/
theorem length_store_coded_lt {e : Extent} (he : e.Accepted) {rows : List Bytes} {n : Nat}
    (hcount : rows.length = e.height) (hn : n ≤ 4 * e.width) (hrows : ∀ row ∈ rows, row.length = n) :
    (Flate.Zlib.store (rows.flatMap fun row => 0 :: row)).length < 2 ^ 32 := by
  obtain ⟨hwidth, hheight⟩ := he.le
  have hrow : 1 + n ≤ 1 + 4 * Capacity.maxWidth := by omega
  have hlength : (rows.flatMap fun row => (0 : UInt8) :: row).length ≤
      Capacity.maxHeight * (1 + 4 * Capacity.maxWidth) := by
    rw [length_flatMap_coded hrows, hcount]
    exact Nat.mul_le_mul hheight hrow
  -- six times the bytes is more than all the blocks take, and still far from the limit
  have hblocks := Flate.Zlib.length_storedBlocks_le (rows.flatMap fun row => (0 : UInt8) :: row)
  have hlimit : 6 * (Capacity.maxHeight * (1 + 4 * Capacity.maxWidth)) + 11 < 2 ^ 32 := by decide
  simp only [Flate.Zlib.store, List.length_append, List.length_cons, List.length_nil,
    Bytes.length_bigEndian]
  omega

theorem length_plainRows (image : Image) : (plainRows image).length = image.extent.height := by
  rw [plainRows, List.length_map, List.length_range]

theorem length_store_lt (image : Image) :
    (Flate.Zlib.store (filteredRows image)).length < 2 ^ 32 := by
  rw [filteredRows_eq]
  exact length_store_coded_lt image.accepted (length_plainRows image)
    (Nat.mul_le_mul_right _ (by decide)) fun row hrow => length_plainRow hrow

/-- One part that holds all of the data is decompressed to the data. -/
theorem gather?_store {data : Bytes} (hdata : 0 < data.length) :
    gather? data.length (.start data.length) [Flate.Zlib.store data] = some data.toArray := by
  obtain ⟨i, hfeed, hfinished, houtput⟩ := Flate.Inflater.feed_store (Nat.le_refl data.length)
  have hsize : i.stream.output.size = data.length := by rw [← Array.length_toList, houtput]
  have hstart : (Flate.Inflater.start data.length).isFinished = false := rfl
  have hroom : (Flate.Inflater.start data.length).stream.isFull = false :=
    decide_eq_false (Nat.ne_of_gt hdata)
  have hempty : ¬ (false || false) = true := Bool.false_ne_true
  rw [gather?, hstart, hroom, if_neg hempty]
  simp only [hfeed, Option.bind_eq_bind, Option.bind_some]
  rw [gather?, hfinished, Bool.true_or, if_pos rfl, if_pos (Nat.le_of_eq hsize.symm), ← houtput,
    Array.toArray_toList]

theorem rowBytes_ofExtent (e : Extent) (width : Nat) :
    (Header.ofExtent e).rowBytes width = 3 * width := by
  change (width * 3 * 8 + 7) / 8 = 3 * width
  omega

/-- The frame that is written of an image. -/
def writtenFrame (image : Image) : Frame :=
  ⟨image.extent, 3, (image.samples.map byteOf).toArray⟩

/-- A frame is read from rows that were stored without prediction. -/
theorem readFrame?_unpredicted {h : Header} {rows : List Bytes} (hplain : h.interlaced = false)
    (hnonempty : h.extent.Nonempty) (hcount : rows.length = h.extent.height)
    (hrows : ∀ row ∈ rows, row.length = h.rowBytes h.extent.width) :
    readFrame? h [⟨Chunk.dataKind, Flate.Zlib.store (rows.flatMap fun row => 0 :: row), true⟩,
      ⟨Chunk.endKind, [], true⟩] .cut = some ⟨h.extent, h.color.samples, rows.flatten.toArray⟩ := by
  have hlength : (rows.flatMap fun row => (0 : UInt8) :: row).length =
      h.extent.height * (1 + h.rowBytes h.extent.width) := by
    rw [length_flatMap_coded hrows, hcount]
  have hlimit : decompressedLimit h = (rows.flatMap fun row => (0 : UInt8) :: row).length := by
    simp only [hlength, decompressedLimit, hplain, Bool.false_eq_true, if_false]
  have hneeded : imageBytes h = (rows.flatMap fun row => (0 : UInt8) :: row).length := by
    simp only [hlength, imageBytes, hplain, Bool.false_eq_true, if_false, filteredBytes,
      if_pos hnonempty]
  have hsome : 0 < (rows.flatMap fun row => (0 : UInt8) :: row).length := by
    rw [hlength]
    exact Nat.mul_pos hnonempty.2 (by omega)
  have hframe := Frame.restore?_unpredicted hplain hcount hrows
  simp only [readFrame?, imageData?_single, hneeded, hlimit, gather?_store hsome,
    Option.bind_eq_bind, Option.bind_some]
  exact hframe

theorem readFrame?_written (image : Image) :
    readFrame? (.ofExtent image.extent) [⟨Chunk.dataKind, Flate.Zlib.store (filteredRows image),
      true⟩, ⟨Chunk.endKind, [], true⟩] .cut = some (writtenFrame image) := by
  have hrows : ∀ row ∈ plainRows image,
      row.length = (Header.ofExtent image.extent).rowBytes image.extent.width := by
    intro row hrow
    rw [rowBytes_ofExtent, length_plainRow hrow]
  have hframe := readFrame?_unpredicted (h := .ofExtent image.extent) rfl image.accepted.1
    (length_plainRows image) hrows
  rw [← filteredRows_eq, flatten_plainRows] at hframe
  exact hframe

private theorem getD_map_byteOf (samples : List Sample) (j : Nat) :
    (samples.map byteOf).toArray.getD j 0 = byteOf (samples.toArray.getD j 0) := by
  simp only [Array.getD_eq_getD_getElem?, List.getElem?_toArray, List.getElem?_map]
  cases samples[j]? <;> rfl

private theorem pixelAt_writtenFrame (image : Image) {x y : Nat} (hin : image.extent.Contains x y) :
    (writtenFrame image).pixelAt (image.extent.index x y) = image.clamped.pixel x y := by
  have hassembled := image.assemble_samples (Extent.index_lt_area hin)
  have hplace : (writtenFrame image).pixelBytes = 3 := rfl
  have hbytes : (writtenFrame image).bytes = (image.samples.map byteOf).toArray := rfl
  have hcolor : ¬ 3 ≤ 2 := by decide
  have hpixel : image.pixel x y = Image.assemble image.samples.toArray (image.extent.index x y) :=
    (Image.pixel_of_contains hin).trans hassembled.symm
  rw [image.pixel_clamped hin, hpixel]
  simp only [Frame.pixelAt, hplace, hbytes, if_neg hcolor, getD_map_byteOf,
    Nat.mul_comm _ 3, Nat.add_zero]
  rfl

theorem toImage_writtenFrame (hrgb : image.space = .rgb) :
    (writtenFrame image).toImage = .ok image.clamped := by
  have haccepted : (writtenFrame image).extent.Accepted := image.accepted
  obtain ⟨shown, hshown, hextent, hspace, hpixel⟩ := Frame.exists_toImage haccepted
  have hsame : image.clamped = shown := by
    refine Image.ext_pixel hextent.symm (hrgb.trans hspace.symm) fun x y hin => ?_
    exact ((hpixel x y hin).trans (pixelAt_writtenFrame image hin)).symm
  rw [hshown, hsame]

/-- The detector looks for the signature that the reader looks for. -/
theorem magic_eq_signature : FileFormat.Magic.png = signature := rfl

theorem detect_signature (rest : Bytes) : FileFormat.detect (signature ++ rest) = .ok .png := by
  have hlong : ¬ (signature ++ rest).length < 2 := by
    rw [List.length_append]
    exact Nat.not_lt.2 (Nat.le_add_right_of_le (by decide))
  rw [FileFormat.detect, if_neg hlong, magic_eq_signature, if_pos List.take_left]

end Acutance.Codec.Png
