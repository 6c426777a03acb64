import Acutance.Proofs.Codec.Formats
import Acutance.Proofs.Enhance.ClosedForm
import Acutance.Proofs.Files.Disk
import Acutance.Proofs.Files.Path

namespace Acutance

private theorem Edit.result_of_ok {σ ε : Type} {act : Edit σ ε Unit} {s s' : σ} (h : act s = .ok () s') :
    act.result s = .ok s' := by
  rw [result, h]

namespace Files

variable {d : Disk} {path : String} {bytes : Bytes} {image : Image} {format : FileFormat}
  {l : Location}

section Codec

variable {decode : Bytes → Except CodecError Image}
  {encode : Image → FileFormat → Edit Sink CodecError Unit}

private theorem readWith_eq (h : d.read path = .ok bytes) :
    readWith (m := StateM Disk) decode path d = (decode bytes, d) := by
  simp only [readWith, bind, StateT.bind, Disk.readFile_eq_ok h]
  rfl

/-- An image is written to a file through a path that leads to one, whatever is there before. -/
theorem writeWith_eq (htarget : d.target path = .ok l)
    (hencode : (encode image format).collect = .ok bytes) :
    writeWith (m := StateM Disk) encode image path format d = (.ok (), d.put l bytes) := by
  obtain ⟨sink, hwrite, rfl⟩ := Edit.collect_eq_ok_iff.1 hencode
  -- the file is created without content, and filled in a second step
  simp only [writeWith, bind, StateT.bind, Disk.createFile_eq_ok htarget, hwrite,
    Disk.writeFile_put htarget]
  rfl

private theorem enhanceWith_of_error {input output : String} {e : CodecError}
    (hread : d.read input = .ok bytes) (herror : decode bytes = .error e) :
    enhanceWith (m := StateM Disk) decode encode input output d = (.error (.error (.codec e)), d) := by
  simp only [enhanceWith, bind, StateT.bind, readWith_eq hread, herror]
  rfl

private theorem enhanceWith_of_ok {input output : String} {enhanced : Image} {encoded : Bytes}
    (hread : d.read input = .ok bytes) (hwritable : d.target output = .ok l)
    (himage : decode bytes = .ok image) (henhance : Acutance.enhance image = .ok () enhanced)
    (hencode : (encode enhanced (formatFor output)).collect = .ok encoded) :
    enhanceWith (m := StateM Disk) decode encode input output d = (.ok (), d.put l encoded) := by
  simp only [enhanceWith, bind, StateT.bind, readWith_eq hread, himage, Edit.result_of_ok henhance,
    writeWith_eq hwritable hencode]
  rfl

end Codec

/-- Reading a file with the codec of this project is reading it by way of its package. -/
theorem read_eq : read (m := StateM Disk) = readWith (Codec.readWith .own) := by
  rw [Codec.readWith_own]
  rfl

private theorem enhance_eq : enhance (m := StateM Disk) =
    enhanceWith (Codec.readWith .own) (Codec.writeWith .own) := by
  rw [Codec.readWith_own, Codec.writeWith_own]
  rfl

/-- A file that is read without being an image is reported, and everything on the disk stays as it is. An
image is enhanced into the file that the output path leads to, which may be the one that it was read
from: the file holds the encoding of the enhanced image in the format that the extension asks for, no
other file has changed, and the image that is read from it is the enhanced one with its samples held
between 0 and 255. This holds with every package for PNG, which only has to be relied on when the output
is PNG, and the codec of this project is that of such a package. -/
theorem enhance_file {p : Codec.Png.Package} {input output : String}
    (hp : formatFor output = .png → p.Faithful) (hread : d.read input = .ok bytes)
    (hwritable : d.target output = .ok l) :
    (∀ e, Codec.readWith p bytes = .error e →
      enhanceWith (m := StateM Disk) (Codec.readWith p) (Codec.writeWith p) input output d =
        (.error (.error (.codec e)), d)) ∧
    (∀ image, Codec.readWith p bytes = .ok image → ∃ enhanced encoded back,
      Acutance.enhance image = .ok () enhanced ∧
      Codec.encodeWith p enhanced (formatFor output) = .ok encoded ∧
      enhanceWith (m := StateM Disk) (Codec.readWith p) (Codec.writeWith p) input output d =
        (.ok (), d.put l encoded) ∧
      (d.put l encoded).read output = .ok encoded ∧
      (∀ other, other ≠ l → (d.put l encoded).content? other = d.content? other) ∧
      readWith (m := StateM Disk) (Codec.readWith p) output (d.put l encoded) =
        (.ok back, d.put l encoded) ∧
      back.extent = image.extent ∧ back.space = .rgb ∧
      ∀ c x y, image.extent.Contains x y →
        back.grid c x y = max 0 (min 255 (enhanced.grid c x y))) ∧
    (formatFor output = .png ↔ ∃ stem extension : String,
      Path.fileName? output = some (stem ++ "." ++ extension) ∧ stem ≠ "" ∧
        extension.map Char.toLower = "png") ∧
    Codec.Png.Package.own.Faithful ∧
    read (m := StateM Disk) = readWith (Codec.readWith .own) ∧
    enhance (m := StateM Disk) = enhanceWith (Codec.readWith .own) (Codec.writeWith .own) := by
  refine ⟨fun e herror => enhanceWith_of_error hread herror, fun image himage => ?_,
    formatFor_eq_png_iff, Codec.Png.Package.own_faithful, read_eq, enhance_eq⟩
  have hrgb : image.space = .rgb := Codec.space_of_readWith himage
  obtain ⟨enhanced, henhance, hextent, hspace, -⟩ := exists_enhance hrgb
  obtain ⟨encoded, hencode, -, hback⟩ := Codec.exists_encodeWith hp hspace
  have hread' : (d.put l encoded).read output = .ok encoded := Disk.read_put hwritable
  refine ⟨enhanced, encoded, enhanced.clamped, henhance, hencode,
    enhanceWith_of_ok hread hwritable himage henhance hencode, hread',
    fun other hother => Disk.content?_put_of_ne hother, ?_, hextent, hspace, ?_⟩
  · rw [readWith_eq hread', hback]
  · intro c x y hin
    rw [← hextent] at hin
    exact enhanced.grid_clamped c hin

/-- Two pixels as text, with samples that no byte holds. -/
def scribble : Bytes := Bytes.ofAscii "P3 2 1 65535 9 300 0 7 8 65535"

/-- A disk with one image and a directory that is empty. -/
def shelf : Disk := ⟨[["out"]], [(["in.ppm"], scribble)]⟩

theorem enhance_file_shelf : Codec.Png.Package.own.Faithful ∧ shelf.read "in.ppm" = .ok scribble ∧
    shelf.target "out/New.PnG" = .ok ["out", "New.PnG"] ∧ formatFor "out/New.PnG" = .png ∧
      ∃ enhanced encoded back, Codec.encode enhanced .png = .ok encoded ∧
        enhance (m := StateM Disk) "in.ppm" "out/New.PnG" shelf =
          (.ok (), shelf.put ["out", "New.PnG"] encoded) ∧
        read (m := StateM Disk) "out/New.PnG" (shelf.put ["out", "New.PnG"] encoded) =
          (.ok back, shelf.put ["out", "New.PnG"] encoded) ∧
        back.extent = ⟨2, 1⟩ ∧ back.space = .rgb := by
  have hown : Codec.Png.Package.own.Faithful := Codec.Png.Package.own_faithful
  have hread : shelf.read "in.ppm" = .ok scribble := by decide +kernel
  have hwritable : shelf.target "out/New.PnG" = .ok ["out", "New.PnG"] := by decide +kernel
  have hdecoded : (Codec.read scribble).toOption.map Image.extent = some ⟨2, 1⟩ := by decide +kernel
  obtain ⟨-, hrun, hformat, -, hreads, henhances⟩ := enhance_file (fun _ => hown) hread hwritable
  have hpng : formatFor "out/New.PnG" = .png :=
    hformat.2 ⟨"New", "PnG", by decide +kernel, by decide, by decide +kernel⟩
  cases himage : Codec.read scribble with
  | error e =>
    rw [himage] at hdecoded
    cases hdecoded
  | ok image =>
    have hextent : image.extent = ⟨2, 1⟩ := by
      rw [himage] at hdecoded
      exact Option.some.inj hdecoded
    rw [← Codec.readWith_own] at himage
    obtain ⟨enhanced, encoded, back, -, hencode, henhance, -, -, hback, hsize, hspace, -⟩ :=
      hrun image himage
    rw [hpng, Codec.encodeWith_own] at hencode
    rw [← henhances] at henhance
    rw [← hreads] at hback
    exact ⟨hown, hread, hwritable, hpng, enhanced, encoded, back, hencode, henhance, hback,
      hsize.trans hextent, hspace⟩

end Files

end Acutance
