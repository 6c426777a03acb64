import Acutance.Proofs.Files.Enhance
import Acutance.Proofs.Refusal

namespace Acutance

/-- An encoder leaves the sink as it was when the image is in another space. -/
theorem Codec.write_of_space_ne {image : Image} (hspace : image.space ≠ .rgb) (format : FileFormat)
    (sink : Sink) : write image format sink =
      .error (.error (.raster (.spaceMismatch .rgb image.space))) sink := by
  have hcheck : Run.restate CodecError.raster (Run.ofExcept (image.expectSpace .rgb)) =
      .error (.error (.raster (.spaceMismatch .rgb image.space))) := by
    rw [Image.ofExcept_expectSpace, Image.spaceRefusal, if_neg hspace]
    rfl
  cases format with
  | pnm =>
    rw [write, Pnm.write, hcheck]
    rfl
  | png =>
    rw [write, Png.write, hcheck]
    rfl

namespace Files

variable {d d' : Disk} {path : String} {image : Image} {format : FileFormat} {l : Location}

/-- Nothing is encoded for a path that no file can be created at. -/
theorem write_of_target_eq_error {e : SystemError} (htarget : d.target path = .error e) :
    write (m := StateM Disk) image path format d = (.error (.error (.system e)), d) := by
  simp only [write, writeWith, bind, StateT.bind, Disk.createFile_eq_error htarget]
  rfl

/-- The encoder writes nothing, so that the file stays as it was created. -/
theorem write_of_space_ne (htarget : d.target path = .ok l) (hspace : image.space ≠ .rgb) :
    write (m := StateM Disk) image path format d =
      (.error (.error (.raster (.spaceMismatch .rgb image.space))), d.put l []) := by
  simp only [write, writeWith, bind, StateT.bind, Disk.createFile_eq_ok htarget,
    Codec.write_of_space_ne hspace, Disk.writeFile_put htarget]
  rfl

/-- A write is rejected for the sake of the image exactly when a file can be created at the path and the
image is in another space than red, green and blue. -/
theorem write_eq_raster_error_iff {e : RasterError} :
    write (m := StateM Disk) image path format d = (.error (.error (.raster e)), d') ↔
      image.space ≠ .rgb ∧ e = .spaceMismatch .rgb image.space ∧
        ∃ l, d.target path = .ok l ∧ d' = d.put l [] := by
  cases htarget : d.target path with
  | error stop =>
    rw [write_of_target_eq_error htarget]
    constructor
    · nofun
    · rintro ⟨-, -, l, hl, -⟩
      cases hl
  | ok l =>
    by_cases hspace : image.space = .rgb
    · obtain ⟨bytes, hencode, -⟩ := Codec.exists_encode hspace format
      rw [write, writeWith_eq htarget hencode]
      exact ⟨nofun, fun h => absurd hspace h.1⟩
    · rw [write_of_space_ne htarget hspace]
      constructor
      · intro h
        cases h
        exact ⟨hspace, rfl, l, rfl, rfl⟩
      · rintro ⟨-, rfl, _, hl, rfl⟩
        obtain rfl := Except.ok.inj hl
        rfl

/-- An empty file takes the place of what was there, and only an empty file is not changed by that. -/
theorem content?_put_nil_eq_iff : (∀ other, (d.put l []).content? other = d.content? other) ↔
    d.content? l = some [] := by
  constructor
  · intro hsame
    rw [← hsame l, Disk.content?_put_self]
  · intro hempty other
    by_cases hother : other = l
    · rw [hother, Disk.content?_put_self, hempty]
    · exact Disk.content?_put_of_ne hother

/-- A write is rejected for the sake of the image exactly when the image is in another space and the path
leads to a place for a file, and in the encoder it is rejected before the first byte. On the disk the file
at that place then exists and holds nothing, no other file or directory has changed, and all is as before
only if the file was there and empty. -/
theorem rejected_write_empties (image : Image) (path : String) (format : FileFormat) (d : Disk) :
    (∀ e d', write (m := StateM Disk) image path format d = (.error (.error (.raster e)), d') ↔
      image.space ≠ .rgb ∧ e = .spaceMismatch .rgb image.space ∧
        ∃ l, d.target path = .ok l ∧ d' = d.put l []) ∧
    (image.space ≠ .rgb → ∀ sink, Codec.write image format sink =
      .error (.error (.raster (.spaceMismatch .rgb image.space))) sink) ∧
    (∀ l, d.target path = .ok l →
      (d.put l []).content? l = some [] ∧
      (∀ other, other ≠ l → (d.put l []).content? other = d.content? other) ∧
      (d.put l []).directories = d.directories ∧
      ((∀ other, (d.put l []).content? other = d.content? other) ↔ d.content? l = some [])) :=
  ⟨fun _ _ => write_eq_raster_error_iff, fun hspace => Codec.write_of_space_ne hspace format,
    fun _ _ => ⟨Disk.content?_put_self, fun _ hother => Disk.content?_put_of_ne hother, rfl,
      content?_put_nil_eq_iff⟩⟩

/-- Two black pixels in hue, saturation and value. -/
def unwritable : Image where
  extent := ⟨1, 2⟩
  space := .hsv
  pixels := Vector.replicate _ default
  accepted := by decide

/-- A disk with a file that somebody wants to keep. -/
def keepsake : Disk := ⟨[], [(["old.ppm"], Bytes.ofAscii "keep")]⟩

theorem rejected_write_empties_absent : unwritable.space ≠ .rgb ∧
    keepsake.target "new.png" = .ok ["new.png"] ∧ keepsake.content? ["new.png"] = none ∧
      write (m := StateM Disk) unwritable "new.png" .png keepsake =
        (.error (.error (.raster (.spaceMismatch .rgb .hsv))), keepsake.put ["new.png"] []) ∧
      (keepsake.put ["new.png"] []).content? ["new.png"] = some [] ∧
      (keepsake.put ["new.png"] []).content? ["old.ppm"] = some (Bytes.ofAscii "keep") := by
  have htarget : keepsake.target "new.png" = .ok ["new.png"] := by decide +kernel
  have hspace : unwritable.space ≠ .rgb := by decide
  obtain ⟨hrejected, -, hdisk⟩ := rejected_write_empties unwritable "new.png" .png keepsake
  obtain ⟨hempty, hothers, -⟩ := hdisk _ htarget
  have hold : keepsake.content? ["old.ppm"] = some (Bytes.ofAscii "keep") := by decide +kernel
  exact ⟨hspace, htarget, by decide +kernel, (hrejected _ _).2 ⟨hspace, rfl, _, htarget, rfl⟩,
    hempty, (hothers _ (by decide)).trans hold⟩

/-- What a file held is lost when an image is written over it that no encoder takes. -/
theorem rejected_write_destroys_keepsake :
    write (m := StateM Disk) unwritable "old.ppm" .pnm keepsake =
        (.error (.error (.raster (.spaceMismatch .rgb .hsv))), keepsake.put ["old.ppm"] []) ∧
      keepsake.content? ["old.ppm"] = some (Bytes.ofAscii "keep") ∧
      (keepsake.put ["old.ppm"] []).content? ["old.ppm"] = some [] := by
  have htarget : keepsake.target "old.ppm" = .ok ["old.ppm"] := by decide +kernel
  have hspace : unwritable.space ≠ .rgb := by decide
  exact ⟨write_of_space_ne htarget hspace, by decide +kernel, Disk.content?_put_self⟩

end Files

end Acutance
