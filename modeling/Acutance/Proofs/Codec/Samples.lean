import Acutance.Proofs.Codec.Formats
import Acutance.Proofs.Color.Convertible

namespace Acutance.Codec

variable {bytes : Bytes} {image : Image}

namespace Pnm

variable {variant : Variant} {h : Header} {numbers : List Nat}

/-- Numbers up to the largest sample are shown as they are. -/
theorem Shows.sample_mem {highest : Nat} (hshows : Shows image variant h numbers)
    (hle : ∀ n ∈ numbers, n ≤ highest) (hfits : highest ≤ 2147483647) :
    ∀ s ∈ image.samples, 0 ≤ s.toInt ∧ s.toInt ≤ highest := by
  intro s hs
  rw [hshows.samples_eq] at hs
  obtain ⟨n, hn, hcopy⟩ := List.mem_flatMap.1 hs
  have hbound := hle n hn
  rw [List.eq_of_mem_replicate hcopy,
    toInt_narrow (Width.bits32_holds_iff.2 ⟨by omega, by omega⟩)]
  omega

/-- The samples of a raster of bytes take one or two bytes each. -/
theorem sample_mem_of_read_binary (hbinary : variant.isText = false) {rest : Bytes}
    (hread : read (variant.magic ++ rest) = .ok image) :
    ∀ s ∈ image.samples, 0 ≤ s.toInt ∧ s.toInt ≤ 65535 := by
  obtain ⟨h, raster, -, hshows⟩ := (read_binary_eq_ok_iff hbinary).1 hread
  have hle (n : Nat) (hn : n ∈ rasterNumbers (h.extent.area * variant.channels) h.sampleBytes raster) :
      n ≤ 65535 := (rasterNumbers_le hn).trans h.highest_le
  exact hshows.sample_mem hle (by decide)

end Pnm

variable {p : Png.Package}

/-- The samples of a frame are bytes, whichever package it comes from. -/
theorem Png.Package.sample_mem_of_read (hread : p.read bytes = .ok image) :
    ∀ s ∈ image.samples, 0 ≤ s.toInt ∧ s.toInt ≤ 255 := by
  obtain ⟨_, _, -, -, -, -, himage⟩ := read_eq_ok_iff.1 hread
  intro s hs
  obtain ⟨b, rfl⟩ := (Lines.space_and_sample_of_toImage himage).2 s hs
  have hlt := b.toNat_lt
  rw [toInt_narrow (Width.bits32_holds_iff.2 ⟨by omega, by omega⟩)]
  omega

/-- Only text gives samples that are too large to be converted. -/
theorem converts_of_not_text (hread : readWith p bytes = .ok image)
    (hbinary : ∀ variant : Pnm.Variant, variant.isText = true → ¬ variant.magic <+: bytes) :
    image.Converts := by
  refine Image.converts_of_sample_mem (space_of_readWith hread) fun s hs => ?_
  obtain ⟨format, -, hformat⟩ := bind_eq_ok_iff.1 hread
  cases format with
  | png =>
    have hmem := Png.Package.sample_mem_of_read hformat s hs
    omega
  | pnm =>
    obtain ⟨variant, rest, rfl⟩ := Pnm.exists_magic_of_read hformat
    cases htext : variant.isText with
    | true => exact absurd (List.prefix_append _ _) (hbinary variant htext)
    | false =>
      have hmem := Pnm.sample_mem_of_read_binary htext hformat s hs
      omega

/-- Text is converted when its numbers stay below the first that is too large for a saturation. -/
theorem converts_of_text {variant : Pnm.Variant} {rest : Bytes} {h : Pnm.Header} {values : List Nat}
    (htext : variant.isText = true) (hread : readWith p (variant.magic ++ rest) = .ok image)
    (hfile : Pnm.TextFile variant rest h values) (hle : ∀ n ∈ values, n ≤ 2097151) :
    image.Converts := by
  obtain ⟨shown, hshows⟩ := Pnm.exists_shows hfile.valid hfile.length_eq
  have hshown := (Pnm.read_text_eq_ok_iff htext).2 ⟨h, values, hfile, hshows⟩
  rw [readWith_magic, hshown] at hread
  obtain rfl := Except.ok.inj hread
  exact Image.converts_of_sample_mem hshows.space_eq (hshows.sample_mem hle (by decide))

/-- An image that is read from bytes is converted to hue, saturation and value and back exactly when all of
its pixels are convertible, and else the conversion ends in a fault. A raster of bytes of either format is
always converted. A text is, as long as none of its samples exceeds 2097151. This holds with every package
for PNG, whatever it makes of a file, and so for the codec of this project. -/
theorem converts_of_read (hread : readWith p bytes = .ok image) :
    (image.Converts ↔ ∀ x y, image.extent.Contains x y → (image.pixel x y).Convertible) ∧
    (¬ image.Converts → ∃ fault, image.toHsv = .error (.fault fault)) ∧
    ((∀ variant : Pnm.Variant, variant.isText = true → ¬ variant.magic <+: bytes) →
      image.Converts) ∧
    (∀ (variant : Pnm.Variant) (rest : Bytes) (h : Pnm.Header) (values : List Nat),
      variant.isText = true → bytes = variant.magic ++ rest → Pnm.TextFile variant rest h values →
        (∀ n ∈ values, n ≤ 2097151) → image.Converts) ∧
    read = readWith .own := by
  have hrgb := space_of_readWith hread
  refine ⟨Image.converts_iff hrgb, Image.exists_fault_of_not_converts hrgb,
    converts_of_not_text hread, ?_, readWith_own.symm⟩
  rintro variant rest h values htext rfl hfile hle
  exact converts_of_text htext hread hfile hle

/-- One red pixel, as bright as a converted one can be. -/
def brightest : Bytes := Bytes.ofAscii "P3 1 1 255 2097151 0 0"

/-- One red pixel that is brighter by one step. -/
def tooBright : Bytes := Bytes.ofAscii "P3 1 1 255 2097152 0 0"

theorem converts_of_read_brightest : ∃ image, read brightest = .ok image ∧
    image.pixel 0 0 = ⟨2097151, 0, 0⟩ ∧ image.Converts := by
  have hshown : (read brightest).toOption.map (fun image => (image.extent, image.pixel 0 0)) =
      some (⟨1, 1⟩, ⟨2097151, 0, 0⟩) := by decide +kernel
  rcases hread : read brightest with e | image
  · rw [hread] at hshown
    cases hshown
  · rw [hread] at hshown
    obtain ⟨hextent, hpixel⟩ := Prod.mk.inj (Option.some.inj hshown)
    rw [← readWith_own] at hread
    refine ⟨image, rfl, hpixel, (converts_of_read hread).1.2 fun x y hin => ?_⟩
    rw [hextent] at hin
    obtain ⟨rfl, rfl⟩ : x = 0 ∧ y = 0 := ⟨Nat.lt_one_iff.1 hin.1, Nat.lt_one_iff.1 hin.2⟩
    rw [hpixel]
    exact Exact.Convertible.of_mem ⟨by decide, by decide⟩ ⟨by decide, by decide⟩
      ⟨by decide, by decide⟩

/-- A file is read whose conversion overflows. -/
theorem exists_read_tooBright_overflows : ∃ image, read tooBright = .ok image ∧
    image.toHsv = .error (.fault .mulOverflow) ∧ ¬ image.Converts := by
  have hrun : (read tooBright).toOption.map Image.toHsv = some (.error (.fault .mulOverflow)) := by
    decide +kernel
  rcases hread : read tooBright with e | image
  · rw [hread] at hrun
    cases hrun
  · rw [hread] at hrun
    have hfault := Option.some.inj hrun
    refine ⟨image, rfl, hfault, ?_⟩
    rintro ⟨hsv, -, hto, -⟩
    rw [hfault] at hto
    cases hto

end Acutance.Codec
