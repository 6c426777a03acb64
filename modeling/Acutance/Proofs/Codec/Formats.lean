import Acutance.Proofs.Png.Package
import Acutance.Proofs.Pnm.RoundTrip

namespace Acutance.Codec

/-- Reads an image in whichever format its first bytes tell, with a package for PNG. -/
def readWith (p : Png.Package) (bytes : Bytes) : Except CodecError Image := do
  match ← FileFormat.detect bytes with
  | .pnm => Pnm.read bytes
  | .png => p.read bytes

/-- Writes an image in a format, with a package for PNG. -/
def writeWith (p : Png.Package) (image : Image) : FileFormat → Edit Sink CodecError Unit
  | .pnm => Pnm.write image .bytes
  | .png => p.write image

/-- The bytes of an image in a format, with a package for PNG. -/
def encodeWith (p : Png.Package) (image : Image) (format : FileFormat) : Run CodecError Bytes :=
  (writeWith p image format).collect

/-- The codec of this project reads by way of its package. -/
theorem readWith_own : readWith .own = read := by
  funext bytes
  unfold readWith read
  cases FileFormat.detect bytes with
  | error e => rfl
  | ok format =>
    cases format with
    | pnm => rfl
    | png => exact Png.Package.own_read bytes

/-- The codec of this project writes by way of its package. -/
theorem writeWith_own : writeWith .own = write := by
  funext image format
  cases format with
  | pnm => rfl
  | png => exact Png.Package.own_write image

theorem encodeWith_own (image : Image) (format : FileFormat) :
    encodeWith .own image format = encode image format := by
  rw [encodeWith, writeWith_own, encode]

/-- A file with the magic number of PNM is read without a package. -/
theorem readWith_magic {p : Png.Package} (variant : Pnm.Variant) (rest : Bytes) :
    readWith p (variant.magic ++ rest) = Pnm.read (variant.magic ++ rest) := by
  rw [readWith, Pnm.detect_magic]
  rfl

/-- Whatever is read is in red, green and blue. -/
theorem space_of_readWith {p : Png.Package} {bytes : Bytes} {image : Image}
    (h : readWith p bytes = .ok image) : image.space = .rgb := by
  obtain ⟨format, -, hread⟩ := bind_eq_ok_iff.1 h
  cases format with
  | pnm => exact Pnm.space_of_read hread
  | png => exact Png.Package.space_of_read hread

/-- An image in red, green and blue is written in either format, which the file then shows, and read back
with its samples held between 0 and 255. Only PNG takes a package that can be relied on. -/
theorem exists_encodeWith {p : Png.Package} {format : FileFormat} (hp : format = .png → p.Faithful)
    {image : Image} (hrgb : image.space = .rgb) : ∃ bytes,
      encodeWith p image format = .ok bytes ∧ FileFormat.detect bytes = .ok format ∧
        readWith p bytes = .ok image.clamped := by
  cases format with
  | pnm =>
    obtain ⟨bytes, hwrite, hdetect, hread⟩ := Pnm.exists_file hrgb .bytes
    refine ⟨bytes, hwrite, hdetect, ?_⟩
    rw [readWith, hdetect]
    exact hread
  | png =>
    obtain ⟨rest, hwrite, hread⟩ := (hp rfl).exists_written hrgb
    have hdetect := Png.detect_signature rest
    refine ⟨_, hwrite, hdetect, ?_⟩
    rw [readWith, hdetect]
    exact hread

/-- The codec of this project writes an image in red, green and blue in either format and reads it back. -/
theorem exists_encode {image : Image} (hrgb : image.space = .rgb) (format : FileFormat) : ∃ bytes,
    encode image format = .ok bytes ∧ FileFormat.detect bytes = .ok format ∧
      read bytes = .ok image.clamped := by
  have hown : format = .png → Png.Package.own.Faithful := fun _ => Png.Package.own_faithful
  obtain ⟨bytes, hwrite, hdetect, hread⟩ := exists_encodeWith hown hrgb
  rw [encodeWith_own] at hwrite
  rw [readWith_own] at hread
  exact ⟨bytes, hwrite, hdetect, hread⟩

/-- An image in red, green and blue is written in both formats, each file is told by its first bytes, and
one image is read from both of them: it has the same extent, and every sample is the one that was
written, held between 0 and 255. This holds with every package for PNG that can be relied on, and for
the codec of this project. -/
theorem formats_agree {p : Png.Package} (hp : p.Faithful) {image : Image}
    (hrgb : image.space = .rgb) : ∃ back : Image, back.extent = image.extent ∧ back.space = .rgb ∧
      (∀ c x y, image.extent.Contains x y →
        back.grid c x y = max 0 (min 255 (image.grid c x y))) ∧
      ∀ format,
        (∃ bytes, encodeWith p image format = .ok bytes ∧ FileFormat.detect bytes = .ok format ∧
          readWith p bytes = .ok back) ∧
        ∃ bytes, encode image format = .ok bytes ∧ FileFormat.detect bytes = .ok format ∧
          read bytes = .ok back := by
  refine ⟨image.clamped, rfl, hrgb, fun c x y hin => image.grid_clamped c hin, fun format =>
    ⟨exists_encodeWith (fun _ => hp) hrgb, exists_encode hrgb format⟩⟩

/-- Three pixels with samples below, within and above a byte. -/
def extremes : Image where
  extent := ⟨3, 1⟩
  space := .rgb
  pixels := #v[⟨-5, 0, 255⟩, ⟨256, 2147483647, 128⟩, ⟨-2147483648, 35, 10⟩]
  accepted := by decide

theorem formats_agree_extremes : Png.Package.own.Faithful ∧ extremes.space = .rgb ∧
    ∃ back : Image, back.grid .red 0 0 = 0 ∧ back.grid .green 1 0 = 255 ∧
      back.grid .green 2 0 = 35 ∧ ∀ format, ∃ bytes, encode extremes format = .ok bytes ∧
        FileFormat.detect bytes = .ok format ∧ read bytes = .ok back := by
  have hrgb : extremes.space = .rgb := rfl
  obtain ⟨back, -, -, hgrid, hfiles⟩ := formats_agree Png.Package.own_faithful hrgb
  refine ⟨Png.Package.own_faithful, hrgb, back, ?_, ?_, ?_, fun format => (hfiles format).2⟩
  · rw [hgrid .red 0 0 (by decide)]
    decide
  · rw [hgrid .green 1 0 (by decide)]
    decide
  · rw [hgrid .green 2 0 (by decide)]
    decide

end Acutance.Codec
