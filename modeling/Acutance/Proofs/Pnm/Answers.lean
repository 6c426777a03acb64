import Acutance.Proofs.Pnm.Cursor
import Acutance.Proofs.Pnm.Text

namespace Acutance.Codec.Pnm

variable {variant : Variant} {bytes rest : Bytes} {h : Header} {e : RasterError}

/-- A number that is refused is not an error of a raster. -/
theorem headerNumber_ne_raster_error {token : Token} :
    headerNumber token bytes ≠ .error (.raster e) := by
  unfold headerNumber
  split <;> nofun

/-- A header is refused for its extent when its three numbers stand in front and the last is valid. -/
theorem Header.read_eq_raster_error_iff : Header.read bytes = .error (.raster e) ↔
    ∃ (h : Header) (rest : Bytes), Scans h.numbers bytes rest ∧ 1 ≤ h.maxval ∧
      h.maxval ≤ maxvalLimit ∧ h.extent.check = .error e := by
  constructor
  · intro hread
    rcases bind_eq_error_iff.1 hread with hwidth | ⟨⟨width, rest₁⟩, hwidth, hread⟩
    · exact absurd hwidth headerNumber_ne_raster_error
    rcases bind_eq_error_iff.1 hread with hheight | ⟨⟨height, rest₂⟩, hheight, hread⟩
    · exact absurd hheight headerNumber_ne_raster_error
    rcases bind_eq_error_iff.1 hread with hmaxval | ⟨⟨maxval, rest₃⟩, hmaxval, hread⟩
    · exact absurd hmaxval headerNumber_ne_raster_error
    rw [headerNumber_eq_ok_iff] at hwidth hheight hmaxval
    dsimp only at hread
    split at hread
    · cases hread
    · next hbounds =>
      rcases bind_eq_error_iff.1 hread with hcheck | ⟨_, _, hend⟩
      · obtain ⟨d, hrefused, hd⟩ := mapError_eq_error_iff.1 hcheck
        obtain rfl := CodecError.raster.inj hd
        exact ⟨⟨⟨width, height⟩, maxval⟩, rest₃,
          scans_numbers_iff.2 ⟨rest₁, rest₂, hwidth, hheight, hmaxval⟩, by dsimp only; omega,
          by dsimp only; omega, hrefused⟩
      · cases hend
  · rintro ⟨h, rest, hscans, hlow, hhigh, hcheck⟩
    obtain ⟨rest₁, rest₂, hwidth, hheight, hmaxval⟩ := scans_numbers_iff.1 hscans
    have hbounds : ¬ (h.maxval = 0 ∨ maxvalLimit < h.maxval) := by omega
    refine bind_eq_error_iff.2 (.inr ⟨_, headerNumber_eq_ok_iff.2 hwidth, ?_⟩)
    refine bind_eq_error_iff.2 (.inr ⟨_, headerNumber_eq_ok_iff.2 hheight, ?_⟩)
    refine bind_eq_error_iff.2 (.inr ⟨_, headerNumber_eq_ok_iff.2 hmaxval, ?_⟩)
    simp only [if_neg hbounds]
    exact bind_eq_error_iff.2 (.inl (mapError_eq_error_iff.2 ⟨e, hcheck, rfl⟩))

/-- The samples of a raster are as many as the extent asks for. -/
theorem size_of_readSamples {raster : Bytes} {samples : Array Sample} (hends : EndsDigits raster)
    (hread : readSamples variant h raster = .ok samples) :
    samples.size = h.extent.area * variant.channels := by
  unfold readSamples at hread
  split at hread
  · obtain ⟨values, hlength, -, hvalues⟩ := (textSamples_eq_ok_iff hends).1 hread
    rw [← Array.length_toList, hvalues]
    simp [hlength]
  · obtain ⟨_, _, -, -, -, hvalues⟩ := (byteSamples_eq_ok_iff h.sampleBytes_eq).1 hread
    rw [← Array.length_toList, hvalues, List.length_map, length_rasterNumbers]

theorem raster_magic_append (variant : Variant) (rest : Bytes) :
    raster (variant.magic ++ rest) = rasterOf variant rest := by
  have hlong : ¬ (variant.magic ++ rest).length < 2 := by
    rw [List.length_append, variant.length_magic]
    omega
  simp only [raster, if_neg hlong, List.take_left' variant.length_magic,
    List.drop_left' variant.length_magic, variant.ofMagic?_magic]

/-- A file begins with the magic number of a variant, or it is refused at once. -/
theorem raster_cases (bytes : Bytes) : (∃ defect, raster bytes = .error (.invalid defect)) ∨
    (∃ unsupported, raster bytes = .error (.unsupported unsupported)) ∨
    ∃ (variant : Variant) (rest : Bytes), bytes = variant.magic ++ rest := by
  unfold raster
  split
  · exact .inl ⟨_, rfl⟩
  · split
    · exact .inr (.inl ⟨_, rfl⟩)
    · next variant hmagic =>
      exact .inr (.inr ⟨variant, _, Variant.eq_magic_append_of_ofMagic? hmagic⟩)

private theorem rasterOf_eq_raster_error_iff :
    rasterOf variant rest = .error (.raster e) ↔ Header.read rest = .error (.raster e) := by
  unfold rasterOf
  refine bind_eq_error_iff.trans ⟨?_, .inl⟩
  rintro (hheader | ⟨⟨h, raster⟩, -, hsamples⟩)
  · exact hheader
  · rcases bind_eq_error_iff.1 hsamples with hsamples | ⟨_, -, hend⟩
    · obtain ⟨_, -, hdefect⟩ := mapError_eq_error_iff.1 hsamples
      cases hdefect
    · cases hend

private theorem size_spread (variant : Variant) (samples : Array Sample) :
    (spread variant samples).size = samples.size * variant.copies := by
  rw [← Array.length_toList, toList_spread]
  simp only [List.length_flatMap, List.length_replicate, List.map_const', List.sum_replicate_nat,
    Array.length_toList]

/-- Behind a header that is read, the samples that are read make an image of its extent. -/
theorem exists_ofSamples_of_rasterOf {extent : Extent} {samples : Array Sample}
    (hraster : rasterOf variant rest = .ok (extent, samples)) :
    ∃ image, Image.ofSamples extent .rgb samples = .ok image := by
  obtain ⟨⟨h, raster⟩, hheader, hraster⟩ := bind_eq_ok_iff.1 hraster
  obtain ⟨values, hsamples, hend⟩ := bind_eq_ok_iff.1 hraster
  obtain ⟨rfl, rfl⟩ := Prod.mk.inj (Except.ok.inj hend)
  obtain ⟨hvalid, hscans⟩ := Header.read_eq_ok_iff.1 hheader
  have hsize := size_of_readSamples hscans.endsDigits (mapError_eq_ok_iff.1 hsamples)
  refine Image.ofSamples_isOk (Extent.check_eq_ok_iff.1 hvalid.extent_check) ?_
  rw [size_spread, mapError_eq_ok_iff.1 hsamples |> size_of_readSamples hscans.endsDigits, Nat.mul_assoc,
    variant.channels_mul_copies, Image.sampleCount]

/-- A raster is refused only for its extent, and that whatever stands behind the header. -/
theorem read_eq_raster_error_iff : read bytes = .error (.raster e) ↔
    ∃ (variant : Variant) (rest tail : Bytes) (h : Header), bytes = variant.magic ++ rest ∧
      Scans h.numbers rest tail ∧ 1 ≤ h.maxval ∧ h.maxval ≤ maxvalLimit ∧
        h.extent.check = .error e := by
  rw [read_eq_raster_bind]
  constructor
  · intro hread
    rcases raster_cases bytes with ⟨_, hinvalid⟩ | ⟨_, hunsupported⟩ | ⟨variant, rest, rfl⟩
    · rw [hinvalid] at hread
      cases hread
    · rw [hunsupported] at hread
      cases hread
    rw [raster_magic_append] at hread
    rcases bind_eq_error_iff.1 hread with hraster | ⟨⟨extent, samples⟩, hraster, himage⟩
    · obtain ⟨h, tail, hheader⟩ :=
        Header.read_eq_raster_error_iff.1 (rasterOf_eq_raster_error_iff.1 hraster)
      exact ⟨variant, rest, tail, h, rfl, hheader⟩
    · obtain ⟨image, hmade⟩ := exists_ofSamples_of_rasterOf hraster
      rw [hmade] at himage
      cases himage
  · rintro ⟨variant, rest, tail, h, rfl, hheader⟩
    rw [raster_magic_append]
    exact bind_eq_error_iff.2 (.inl (rasterOf_eq_raster_error_iff.2
      (Header.read_eq_raster_error_iff.2 ⟨h, tail, hheader⟩)))

/-- An image that is read is in red, green and blue, and its extent is that of a valid header. -/
theorem exists_header_of_read {image : Image} (hread : read bytes = .ok image) :
    image.space = .rgb ∧ ∃ (variant : Variant) (rest tail : Bytes) (h : Header),
      bytes = variant.magic ++ rest ∧ Scans h.numbers rest tail ∧ h.Valid ∧ image.extent = h.extent := by
  obtain ⟨variant, rest, rfl⟩ := exists_magic_of_read hread
  obtain ⟨h, tail, _, hheader, -, hextent, hspace, -⟩ := read_eq_ok_iff.1 hread
  obtain ⟨hvalid, hscans⟩ := Header.read_eq_ok_iff.1 hheader
  exact ⟨hspace, variant, rest, tail, h, rfl, hscans, hvalid, hextent⟩

/-- Whatever the bytes are, the reader that walks through a buffer and takes slices of it comes to an end
with the answer of the reader on lists: no slice, byte or count is ever out of range. An image that is
read is in red, green and blue and has the extent of its header, which was accepted. The samples are never
too few or too many for an extent; the only error of a raster is that of the extent in a header whose
three numbers were read and whose last is valid, and it is the same whatever stands behind them. -/
theorem read_answers (bytes : Bytes) :
    readAt bytes = Run.answering (read bytes) ∧
    (∀ image, read bytes = .ok image → image.space = .rgb ∧ image.extent.check = .ok () ∧
      ∃ (variant : Variant) (rest tail : Bytes) (h : Header), bytes = variant.magic ++ rest ∧
        Scans h.numbers rest tail ∧ h.Valid ∧ image.extent = h.extent) ∧
    (∀ expected actual, read bytes ≠ .error (.raster (.sampleCount expected actual))) ∧
    (∀ e, read bytes = .error (.raster e) ↔
      ∃ (variant : Variant) (rest tail : Bytes) (h : Header), bytes = variant.magic ++ rest ∧
        Scans h.numbers rest tail ∧ 1 ≤ h.maxval ∧ h.maxval ≤ maxvalLimit ∧
          h.extent.check = .error e) := by
  refine ⟨readAt_eq bytes, fun image hread => ?_, fun expected actual hread => ?_,
    fun _ => read_eq_raster_error_iff⟩
  · obtain ⟨hspace, hheader⟩ := exists_header_of_read hread
    obtain ⟨_, _, _, h, -, -, hvalid, hextent⟩ := id hheader
    exact ⟨hspace, hextent ▸ hvalid.extent_check, hheader⟩
  · obtain ⟨_, _, _, h, -, -, -, -, hcheck⟩ := read_eq_raster_error_iff.1 hread
    exact Extent.check_ne_sampleCount _ _ _ hcheck

/-- A header with a width of one pixel too many, the largest height, and a raster that is no raster. -/
def tooWide : Bytes := Bytes.ofAscii "#\n732 4294967295 1 x"

theorem read_answers_tooWide : read (Variant.grayBytes.magic ++ tooWide) =
    .error (.raster (.extentExceeded ⟨732, 4294967295⟩ .rowStride)) := by
  have hwidth : number .width tooWide = (.ok 732, Bytes.ofAscii " 4294967295 1 x") := by decide
  have hheight : number .height (Bytes.ofAscii " 4294967295 1 x") =
      (.ok 4294967295, Bytes.ofAscii " 1 x") := by decide
  have hmaxval : number .maxval (Bytes.ofAscii " 1 x") = (.ok 1, Bytes.ofAscii " x") := by decide
  obtain ⟨-, -, -, hrefused⟩ := read_answers (Variant.grayBytes.magic ++ tooWide)
  exact (hrefused _).2 ⟨.grayBytes, tooWide, _, ⟨⟨732, 4294967295⟩, 1⟩, rfl,
    Header.scans_numbers_iff.2 ⟨_, _, hwidth, hheight, hmaxval⟩, by decide, by decide, rfl⟩

end Acutance.Codec.Pnm
