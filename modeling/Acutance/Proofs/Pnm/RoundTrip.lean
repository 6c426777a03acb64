import Acutance.Codec.FileFormat
import Acutance.Proofs.Pnm.Written
import Acutance.Proofs.Raster.Clamped

namespace Acutance

/-- The magic numbers that the detector has are those that the reader has. -/
theorem FileFormat.Magic.isPnm_eq (firstTwo : Bytes) :
    isPnm firstTwo = (Codec.Pnm.Variant.ofMagic? firstTwo).isSome := by
  unfold isPnm Codec.Pnm.Variant.ofMagic? grayText colorText grayBinary colorBinary
  split_ifs <;> simp_all

namespace Codec.Pnm

/-- A file is taken for PNM when its first bytes are one of the magic numbers. -/
theorem detect_magic (variant : Variant) (rest : Bytes) :
    FileFormat.detect (variant.magic ++ rest) = .ok .pnm := by
  have hlong : ¬ (variant.magic ++ rest).length < 2 := by
    rw [List.length_append, variant.length_magic]
    omega
  have hpng : (variant.magic ++ rest).take FileFormat.Magic.png.length ≠ FileFormat.Magic.png := by
    intro h
    have hhead := congrArg List.head? h
    cases variant <;> cases hhead
  have htake : (variant.magic ++ rest).take 2 = variant.magic :=
    List.take_left' variant.length_magic
  rw [FileFormat.detect, if_neg hlong, if_neg hpng, htake, FileFormat.Magic.isPnm_eq,
    variant.ofMagic?_magic]
  rfl

theorem codec_read_magic (variant : Variant) (rest : Bytes) :
    Codec.read (variant.magic ++ rest) = read (variant.magic ++ rest) := by
  rw [Codec.read, detect_magic]
  rfl

private theorem space_of_ofSamples {e : Extent} {samples : Array Sample} {image : Image}
    (h : (Image.ofSamples e .rgb samples).mapError CodecError.raster = .ok image) :
    image.space = .rgb :=
  (Image.ofSamples_eq_ok_iff.1 (mapError_eq_ok_iff.1 h)).2.1

theorem space_of_read {bytes : Bytes} {image : Image} (h : read bytes = .ok image) :
    image.space = .rgb := by
  unfold read at h
  split at h
  · cases h
  · dsimp only at h
    split at h
    · obtain ⟨⟨header, raster⟩, -, h⟩ := bind_eq_ok_iff.1 h
      obtain ⟨samples, -, h⟩ := bind_eq_ok_iff.1 h
      exact space_of_ofSamples h
    · cases h

private theorem rasterNumbers_one (raster : Bytes) :
    rasterNumbers raster.length 1 raster = raster.map UInt8.toNat := by
  apply List.ext_getElem
  · simp [rasterNumbers]
  · intro i hi _
    have hi' : i < raster.length := by simpa [rasterNumbers] using hi
    simp only [rasterNumbers, List.getElem_map, List.getElem_range, drop_take_one hi']
    simp [Bytes.toNat]

private theorem clamped_shows {image : Image} (hrgb : image.space = .rgb) (encoding : Encoding) :
    Shows image.clamped encoding.variant (writtenHeader image.extent)
      (image.samples.map fun s => (byteOf s).toNat) where
  extent_eq := rfl
  space_eq := hrgb
  samples_eq := by
    rw [image.samples_clamped, List.flatMap_map]
    cases encoding <;> simp [Encoding.variant, Variant.copies, nearestByte, ← List.map_eq_flatMap]

private theorem written_binaryFile (image : Image) : BinaryFile .colorBytes
    (writtenNumbers image.extent ++ (Bytes.ofAscii "\n" ++ rasterBytes image .bytes))
    (writtenHeader image.extent) (image.samples.map byteOf) := by
  refine .of_scans (writtenHeader_valid image) (scans_writtenNumbers image _) (by decide) ?_
  rw [List.length_map, image.length_samples, Nat.mul_comm 3]
  exact Nat.le_of_eq (Nat.mul_one _)

private theorem written_textFile (image : Image) : TextFile .colorText
    (writtenNumbers image.extent ++ (Bytes.ofAscii "\n" ++ rasterBytes image .text))
    (writtenHeader image.extent) (image.samples.map fun s => (byteOf s).toNat) where
  valid := writtenHeader_valid image
  length_eq := by
    rw [List.length_map, image.length_samples, Nat.mul_comm]
    rfl
  scans := by
    have hfits : ∀ line ∈ (List.range image.extent.height).map (rowNumbers image),
        ∀ n ∈ line, n < tokenLimit := by
      intro line hline n hn
      obtain ⟨y, -, rfl⟩ := List.mem_map.1 hline
      obtain ⟨s, -, rfl⟩ := List.mem_map.1 hn
      exact Nat.lt_trans (byteOf s).toNat_lt (by decide)
    have hlines := scans_lines ((List.range image.extent.height).map (rowNumbers image))
      (by simp [rowNumbers_ne_nil]) hfits
    refine ⟨Bytes.ofAscii "\n", scans_append_iff.2 ⟨_, scans_writtenNumbers image _, ?_⟩⟩
    rw [← List.flatMap_def, List.flatMap_map, flatMap_rowNumbers] at hlines
    rw [rasterBytes, funext (lineBytes_eq image)]
    exact hlines

/-- What is written of an image is read as the image with its samples held between 0 and 255. -/
theorem read_written {image : Image} (hrgb : image.space = .rgb) (encoding : Encoding) :
    read (headerBytes encoding image.extent ++ rasterBytes image encoding) = .ok image.clamped := by
  have hshows := clamped_shows hrgb encoding
  rw [headerBytes_eq, List.append_assoc, List.append_assoc]
  cases encoding with
  | bytes =>
    have hnumbers : rasterNumbers (image.extent.area * Variant.colorBytes.channels)
        (writtenHeader image.extent).sampleBytes (image.samples.map byteOf) =
          image.samples.map fun s => (byteOf s).toNat := by
      have hcount : image.extent.area * Variant.colorBytes.channels =
          (image.samples.map byteOf).length := by
        rw [List.length_map, image.length_samples, Nat.mul_comm]
        rfl
      have hone : (writtenHeader image.extent).sampleBytes = 1 := rfl
      rw [hcount, hone, rasterNumbers_one, List.map_map]
      rfl
    exact (read_binary_eq_ok_iff rfl).2 ⟨_, _, written_binaryFile image, hnumbers ▸ hshows⟩
  | text => exact (read_text_eq_ok_iff rfl).2 ⟨_, _, written_textFile image, hshows⟩

/-- What is written of an image is taken for PNM, and read as such. -/
theorem exists_file {image : Image} (hrgb : image.space = .rgb) (encoding : Encoding) :
    ∃ bytes, (write image encoding).collect = .ok bytes ∧ FileFormat.detect bytes = .ok .pnm ∧
      read bytes = .ok image.clamped := by
  have hread := read_written hrgb encoding
  refine ⟨_, collect_write hrgb encoding, ?_⟩
  rw [headerBytes_eq, List.append_assoc] at hread ⊢
  exact ⟨detect_magic encoding.variant _, hread⟩

/-- An image in red, green and blue is written, and what is written is read back, as PNM and as a file
of any format. Both encodings give the same image back: it has the same extent, and every sample is the
one that was written, held between 0 and 255. An image of bytes comes back as it was. -/
theorem exists_read_written {image : Image} (hrgb : image.space = .rgb) :
    ∃ back : Image, back.extent = image.extent ∧ back.space = .rgb ∧
      (∀ c x y, image.extent.Contains x y →
        back.grid c x y = max 0 (min 255 (image.grid c x y))) ∧
      ((∀ c x y, image.extent.Contains x y →
        0 ≤ image.grid c x y ∧ image.grid c x y ≤ 255) → back = image) ∧
      ∀ encoding, ∃ bytes, (write image encoding).collect = .ok bytes ∧
        read bytes = .ok back ∧ Codec.read bytes = .ok back := by
  refine ⟨image.clamped, rfl, hrgb, fun c x y hin => image.grid_clamped c hin,
    Image.clamped_eq_self, fun encoding => ?_⟩
  obtain ⟨bytes, hwrite, hdetect, hread⟩ := exists_file hrgb encoding
  refine ⟨bytes, hwrite, hread, ?_⟩
  rw [Codec.read, hdetect]
  exact hread

/-- One pixel with a sample below a byte, one that is a number sign as a byte, and one above a byte. -/
def outside : Image where
  extent := ⟨1, 1⟩
  space := .rgb
  pixels := Extent.tabulate ⟨1, 1⟩ fun _ _ => ⟨-7, 35, 300⟩
  accepted := by decide

theorem exists_read_written_outside : outside.space = .rgb ∧ ∃ back bytes,
    (write outside .bytes).collect = .ok bytes ∧ read bytes = .ok back ∧
      back.grid .blue 0 0 = 255 := by
  have hrgb : outside.space = .rgb := rfl
  obtain ⟨back, -, -, hgrid, -, hread⟩ := exists_read_written hrgb
  obtain ⟨bytes, hwrite, hback, -⟩ := hread .bytes
  exact ⟨hrgb, back, bytes, hwrite, hback, (hgrid .blue 0 0 (by decide)).trans (by decide)⟩

end Codec.Pnm

end Acutance
