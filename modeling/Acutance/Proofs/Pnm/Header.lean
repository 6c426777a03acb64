import Acutance.Codec.Pnm.Reader
import Acutance.Proofs.Edit
import Acutance.Proofs.Pnm.Grammar
import Acutance.Proofs.Raster.Samples

namespace Acutance.Codec.Pnm

namespace Variant

/-- The two bytes that a file of the variant begins with. -/
def magic : Variant → Bytes
  | grayText => Bytes.ofAscii "P2"
  | colorText => Bytes.ofAscii "P3"
  | grayBytes => Bytes.ofAscii "P5"
  | colorBytes => Bytes.ofAscii "P6"

/-- How many samples of a pixel one number of the file stands for. -/
def copies : Variant → Nat
  | grayText | grayBytes => 3
  | colorText | colorBytes => 1

theorem length_magic (variant : Variant) : variant.magic.length = 2 := by
  cases variant <;> rfl

theorem ofMagic?_magic (variant : Variant) : ofMagic? variant.magic = some variant := by
  cases variant <;> decide

private theorem eq_magic_of_ofMagic? {bytes : Bytes} {variant : Variant}
    (h : ofMagic? bytes = some variant) : bytes = variant.magic := by
  unfold ofMagic? at h
  split_ifs at h with hfirst hsecond hthird hfourth
  · rwa [← Option.some.inj h]
  · rwa [← Option.some.inj h]
  · rwa [← Option.some.inj h]
  · rwa [← Option.some.inj h]

/-- A file whose magic number is known begins with it. -/
theorem eq_magic_append_of_ofMagic? {bytes : Bytes} {variant : Variant}
    (h : ofMagic? (bytes.take 2) = some variant) : bytes = variant.magic ++ bytes.drop 2 := by
  rw [← eq_magic_of_ofMagic? h, List.take_append_drop]

theorem channels_mul_copies (variant : Variant) :
    variant.channels * variant.copies = Pixel.channelCount := by
  cases variant <;> rfl

end Variant

/-- A header that the reader goes on from. -/
structure Header.Valid (h : Header) : Prop where
  extent_check : h.extent.check = .ok ()
  one_le_maxval : 1 ≤ h.maxval
  maxval_le : h.maxval ≤ maxvalLimit

instance (h : Header) : Decidable h.Valid :=
  decidable_of_iff (h.extent.check = .ok () ∧ 1 ≤ h.maxval ∧ h.maxval ≤ maxvalLimit)
    ⟨fun ⟨hcheck, hlow, hhigh⟩ => ⟨hcheck, hlow, hhigh⟩,
      fun hvalid => ⟨hvalid.extent_check, hvalid.one_le_maxval, hvalid.maxval_le⟩⟩

/-- The numbers of a header, in the order in which a file holds them. -/
def Header.numbers (h : Header) : List Nat := [h.extent.width, h.extent.height, h.maxval]

/-- An image that shows the numbers of a raster: each of them as one sample, or as the three samples of
a gray pixel. A number that exceeds a sample keeps its low 32 bits. -/
structure Shows (image : Image) (variant : Variant) (h : Header) (numbers : List Nat) : Prop where
  extent_eq : image.extent = h.extent
  space_eq : image.space = .rgb
  samples_eq : image.samples =
    numbers.flatMap fun (n : Nat) => List.replicate variant.copies (narrow n)

theorem headerNumber_eq_ok_iff {token : Token} {bytes rest : Bytes} {n : Nat} :
    headerNumber token bytes = .ok (n, rest) ↔ number token bytes = (.ok n, rest) := by
  unfold headerNumber
  split <;> simp_all

private theorem Header.read_eq_ok_iff_numbers {bytes rest : Bytes} {h : Header} :
    Header.read bytes = .ok (h, rest) ↔ h.Valid ∧ ∃ rest₁ rest₂,
      number .width bytes = (.ok h.extent.width, rest₁) ∧
        number .height rest₁ = (.ok h.extent.height, rest₂) ∧
          number .maxval rest₂ = (.ok h.maxval, rest) := by
  constructor
  · intro hread
    obtain ⟨⟨width, rest₁⟩, hwidth, hread⟩ := bind_eq_ok_iff.1 hread
    obtain ⟨⟨height, rest₂⟩, hheight, hread⟩ := bind_eq_ok_iff.1 hread
    obtain ⟨⟨maxval, rest₃⟩, hmaxval, hread⟩ := bind_eq_ok_iff.1 hread
    rw [headerNumber_eq_ok_iff] at hwidth hheight hmaxval
    simp only at hread
    split at hread
    · cases hread
    · next hbounds =>
      obtain ⟨_, hcheck, hend⟩ := bind_eq_ok_iff.1 hread
      obtain ⟨rfl, rfl⟩ := Prod.mk.inj (Except.ok.inj hend)
      exact ⟨⟨mapError_eq_ok_iff.1 hcheck, by simp only; omega, by simp only; omega⟩, rest₁, rest₂,
        hwidth, hheight, hmaxval⟩
  · rintro ⟨hvalid, rest₁, rest₂, hwidth, hheight, hmaxval⟩
    have hbounds : ¬ (h.maxval = 0 ∨ maxvalLimit < h.maxval) := by
      have hlow := hvalid.one_le_maxval
      have hhigh := hvalid.maxval_le
      omega
    refine bind_eq_ok_iff.2 ⟨_, headerNumber_eq_ok_iff.2 hwidth, bind_eq_ok_iff.2
      ⟨_, headerNumber_eq_ok_iff.2 hheight, bind_eq_ok_iff.2
        ⟨_, headerNumber_eq_ok_iff.2 hmaxval, ?_⟩⟩⟩
    simp only [if_neg hbounds]
    exact bind_eq_ok_iff.2 ⟨(), mapError_eq_ok_iff.2 hvalid.extent_check, rfl⟩

theorem Header.scans_numbers_iff {bytes rest : Bytes} {h : Header} :
    Scans h.numbers bytes rest ↔ ∃ rest₁ rest₂,
      number .width bytes = (.ok h.extent.width, rest₁) ∧
        number .height rest₁ = (.ok h.extent.height, rest₂) ∧
          number .maxval rest₂ = (.ok h.maxval, rest) := by
  constructor
  · intro hscans
    obtain ⟨rest₁, hwidth, hscans⟩ := (scans_cons_iff .width).1 hscans
    obtain ⟨rest₂, hheight, hscans⟩ := (scans_cons_iff .height).1 hscans
    obtain ⟨rest₃, hmaxval, hscans⟩ := (scans_cons_iff .maxval).1 hscans
    obtain ⟨rfl, -⟩ := scans_nil_iff.1 hscans
    exact ⟨rest₁, rest₂, hwidth, hheight, hmaxval⟩
  · rintro ⟨rest₁, rest₂, hwidth, hheight, hmaxval⟩
    have hends := (number_eq_ok_iff.1 hmaxval).1
    exact (scans_cons_iff .width).2 ⟨rest₁, hwidth, (scans_cons_iff .height).2 ⟨rest₂, hheight,
      (scans_cons_iff .maxval).2 ⟨rest, hmaxval, scans_nil_iff.2 ⟨rfl, hends⟩⟩⟩⟩

/-- A header is read exactly when its three numbers stand in front and are valid. -/
theorem Header.read_eq_ok_iff {bytes rest : Bytes} {h : Header} :
    Header.read bytes = .ok (h, rest) ↔ h.Valid ∧ Scans h.numbers bytes rest := by
  rw [read_eq_ok_iff_numbers, scans_numbers_iff]

theorem toList_spread (variant : Variant) (samples : Array Sample) :
    (spread variant samples).toList =
      samples.toList.flatMap fun s => List.replicate variant.copies s := by
  cases variant <;>
    simp [spread, Variant.channels, Variant.copies, List.replicate, Array.toList_flatMap]

/-- Only a file that begins with the magic number of a variant is read. -/
theorem exists_magic_of_read {bytes : Bytes} {image : Image} (h : read bytes = .ok image) :
    ∃ (variant : Variant) (rest : Bytes), bytes = variant.magic ++ rest := by
  unfold read at h
  split at h
  · cases h
  · dsimp only at h
    split at h
    · next variant hmagic => exact ⟨variant, _, Variant.eq_magic_append_of_ofMagic? hmagic⟩
    · cases h

/-- An image is read when its header and its samples are, and then it shows the samples. -/
theorem read_eq_ok_iff {variant : Variant} {rest : Bytes} {image : Image} :
    read (variant.magic ++ rest) = .ok image ↔ ∃ h raster samples,
      Header.read rest = .ok (h, raster) ∧ readSamples variant h raster = .ok samples ∧
        image.extent = h.extent ∧ image.space = .rgb ∧
          image.samples = samples.toList.flatMap fun s => List.replicate variant.copies s := by
  have hlong : ¬ (variant.magic ++ rest).length < 2 := by
    rw [List.length_append, variant.length_magic]
    omega
  have htake : (variant.magic ++ rest).take 2 = variant.magic :=
    List.take_left' variant.length_magic
  have hdrop : (variant.magic ++ rest).drop 2 = rest := List.drop_left' variant.length_magic
  simp only [read, if_neg hlong, htake, hdrop, variant.ofMagic?_magic, bind_eq_ok_iff,
    mapError_eq_ok_iff, Image.ofSamples_eq_ok_iff, toList_spread]
  constructor
  · rintro ⟨⟨h, raster⟩, hheader, samples, hsamples, himage⟩
    exact ⟨h, raster, samples, hheader, hsamples, himage⟩
  · rintro ⟨h, raster, samples, hheader, hsamples, himage⟩
    exact ⟨(h, raster), hheader, samples, hsamples, himage⟩

/-- As many numbers as a valid header asks for are shown by an image. -/
theorem exists_shows {variant : Variant} {h : Header} {numbers : List Nat} (hvalid : h.Valid)
    (hlength : numbers.length = h.extent.area * variant.channels) :
    ∃ image, Shows image variant h numbers := by
  have hsize : (numbers.flatMap fun (n : Nat) =>
      List.replicate variant.copies (narrow n)).toArray.size = Image.sampleCount h.extent := by
    simp only [List.size_toArray, List.length_flatMap, List.length_replicate, List.map_const',
      List.sum_replicate_nat]
    rw [hlength, Nat.mul_assoc, variant.channels_mul_copies, Image.sampleCount]
  have hmade : ∃ image, Image.ofSamples h.extent .rgb (numbers.flatMap fun (n : Nat) =>
      List.replicate variant.copies (narrow n)).toArray = .ok image :=
    Image.ofSamples_isOk (Extent.check_eq_ok_iff.1 hvalid.extent_check) hsize
  obtain ⟨image, himage⟩ := hmade
  obtain ⟨hextent, hspace, hsamples⟩ := Image.ofSamples_eq_ok_iff.1 himage
  exact ⟨image, hextent, hspace, hsamples⟩

end Acutance.Codec.Pnm
