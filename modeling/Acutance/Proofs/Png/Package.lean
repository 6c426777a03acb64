import Acutance.Proofs.Codec.Sink
import Acutance.Proofs.Png.Lines
import Acutance.Proofs.Png.RoundTrip

namespace Acutance.Codec.Png

/-- What of PNG is left to a package: it opens a file, decodes a frame to lines of bytes, and writes bytes
as a file. To refuse layouts and extents, to take pixels out of lines and to make bytes of samples is done
around it. The reasons that it has for an error are not looked at. -/
structure Package where
  /-- The header of a file, if all that stands before the image data is in order. -/
  header? : Bytes → Option Header
  /-- The lines of the image of a file, if they can be decoded. -/
  lines? : Bytes → Option Lines
  /-- Writes what stands before the image data of an image with three bytes to a pixel. -/
  writeHeader : Extent → Edit Sink Unit Unit
  /-- Writes the image data and what ends the file. -/
  writeData : Extent → Bytes → Edit Sink Unit Unit

namespace Package

/-- Reads an image in red, green and blue. -/
def read (p : Package) (bytes : Bytes) : Except CodecError Image := do
  let some header := p.header? bytes | throw (.decode .header)
  if ! header.isReadable then throw (.unsupported (.layout header.color header.depth))
  header.extent.check.mapError .raster
  -- an accepted extent is small enough that there is room for its lines
  let some lines := p.lines? bytes | throw (.decode .frame)
  lines.toImage header

/-- Writes an image in red, green and blue. Nothing is written of an image in another space. -/
def write (p : Package) (image : Image) : Edit Sink CodecError Unit := do
  Edit.lift (Run.restate .raster (Run.ofExcept (image.expectSpace .rgb)))
  Edit.restate (fun _ => .encode .header) (p.writeHeader image.extent)
  Edit.restate (fun _ => .encode .imageData)
    (p.writeData image.extent (image.samples.map byteOf))

/-- Writes the bytes of an image to a file of their own. -/
def writeFile (p : Package) (e : Extent) (data : Bytes) : Edit Sink Unit Unit := do
  p.writeHeader e
  p.writeData e data

/-- What a package decodes of a file is an image with three bytes to a pixel: its extent, its layout, and
its bytes line by line. -/
structure Decodes (p : Package) (file : Bytes) (e : Extent) (data : Bytes) : Prop where
  header_eq : ∃ interlaced, p.header? file = some ⟨e, .rgb, .eight, interlaced⟩
  lines_eq : ∃ lines, p.lines? file = some lines ∧ lines.size = 3 * e.width ∧ lines.bytes = data

/-- What is relied on in a package, for the bytes of every image that can be written. -/
structure Faithful (p : Package) : Prop where
  /-- The bytes are written. -/
  exists_file : ∀ {e : Extent} {data : Bytes}, e.Accepted → data.length = 3 * e.area →
    ∃ file, (p.writeFile e data).collect = .ok file
  /-- What is written begins with the signature. -/
  signed : ∀ {e : Extent} {data file : Bytes}, e.Accepted → data.length = 3 * e.area →
    (p.writeFile e data).collect = .ok file → ∃ rest, file = signature ++ rest
  /-- What was written is decoded again. -/
  decodes : ∀ {e : Extent} {data file : Bytes}, e.Accepted → data.length = 3 * e.area →
    (p.writeFile e data).collect = .ok file → p.Decodes file e data

variable {p : Package} {image : Image} {bytes file : Bytes}

/-- An image is read when there is a header, its layout and its extent are such as are read, and lines are
decoded, which the image shows. -/
theorem read_eq_ok_iff : p.read bytes = .ok image ↔
    ∃ header lines, p.header? bytes = some header ∧ header.isReadable = true ∧
      header.extent.check = .ok () ∧ p.lines? bytes = some lines ∧ lines.toImage header = .ok image := by
  constructor
  · intro h
    unfold read at h
    split at h
    · next header hheader =>
      obtain ⟨hlayout, h⟩ := ite_error_eq_ok_iff.1 h
      have hreadable : header.isReadable = true := by simpa using hlayout
      obtain ⟨_, hcheck, h⟩ := bind_eq_ok_iff.1 h
      split at h
      · next lines hlines =>
        exact ⟨header, lines, hheader, hreadable, mapError_eq_ok_iff.1 hcheck, hlines, h⟩
      · cases h
    · cases h
  · rintro ⟨header, lines, hheader, hreadable, hcheck, hlines, himage⟩
    unfold read
    simp only [hheader, hreadable, hcheck, hlines]
    exact himage

theorem space_of_read (h : p.read bytes = .ok image) : image.space = .rgb := by
  obtain ⟨_, _, -, -, -, -, himage⟩ := read_eq_ok_iff.1 h
  exact (Lines.space_and_sample_of_toImage himage).1

/-- What is decoded of the bytes of an image shows the image with its samples held between 0 and 255. -/
theorem read_of_decodes (hrgb : image.space = .rgb)
    (h : p.Decodes file image.extent (image.samples.map byteOf)) : p.read file = .ok image.clamped := by
  obtain ⟨⟨interlaced, hheader⟩, lines, hlines, hsize, hbytes⟩ := h
  have hlength : lines.bytes.length = image.extent.height * lines.size := by
    rw [hbytes, List.length_map, image.length_samples, hsize, Extent.area,
      Nat.mul_left_comm image.extent.height, Nat.mul_comm image.extent.width]
  have himage : lines.toImage ⟨image.extent, .rgb, .eight, interlaced⟩ = .ok image.clamped := by
    rw [Lines.toImage_eq (hsize.trans (Nat.mul_comm _ _)) (Nat.le_of_eq hlength.symm), hbytes]
    exact toImage_writtenFrame hrgb
  have hcheck : image.extent.check = .ok () := Extent.check_eq_ok_iff.2 image.accepted
  unfold read
  simp only [hheader, hlines, hcheck, Header.isReadable]
  exact himage

/-- An image in red, green and blue is written when its bytes are. -/
theorem collect_write_eq_ok_iff (hrgb : image.space = .rgb) : (p.write image).collect = .ok bytes ↔
    (p.writeFile image.extent (image.samples.map byteOf)).collect = .ok bytes := by
  have hspace : image.expectSpace .rgb = .ok () := Image.expectSpace_eq_ok_iff.2 hrgb
  simp only [Edit.collect_eq_ok_iff, write, writeFile, Edit.bind_eq_ok_iff, Edit.restate_eq_ok_iff,
    Edit.lift_eq_ok_iff, hspace, Run.ofExcept_ok, Run.restate_ok, true_and, exists_const,
    exists_eq_left]

/-- A package that can be relied on writes every image in red, green and blue, behind the signature. -/
theorem Faithful.exists_written (hp : p.Faithful) (hrgb : image.space = .rgb) :
    ∃ rest, (p.write image).collect = .ok (signature ++ rest) ∧
      p.read (signature ++ rest) = .ok image.clamped := by
  have hlength : (image.samples.map byteOf).length = 3 * image.extent.area := by
    rw [List.length_map, image.length_samples]
  obtain ⟨file, hwrite⟩ := hp.exists_file image.accepted hlength
  obtain ⟨rest, rfl⟩ := hp.signed image.accepted hlength hwrite
  exact ⟨rest, (collect_write_eq_ok_iff hrgb).2 hwrite,
    read_of_decodes hrgb (hp.decodes image.accepted hlength hwrite)⟩

/-- A chunk at the end of what was written before. -/
def writeChunk (kind data : Bytes) : Edit Sink Unit Unit :=
  Edit.restate (fun _ => ()) (Sink.write (Chunk.render kind data))

/-- The package of this project. -/
def own : Package where
  header? bytes := (openFile? bytes).map fun opened => opened.1
  lines? bytes := do
    let opened ← openFile? bytes
    let frame ← readFrame? opened.1 opened.2.1 opened.2.2
    Lines.ofBytes? (opened.1.rowBytes opened.1.extent.width) frame.bytes.toList
  writeHeader e := Edit.restate (fun _ => ())
    (Sink.write (signature ++ Chunk.render Chunk.headerKind (Header.colorBytes e)))
  writeData e data := do
    let rows := Bytes.parts (3 * e.width) e.height data
    writeChunk Chunk.dataKind (Flate.Zlib.store (rows.flatMap fun row => 0 :: row))
    Edit.restate (fun _ => ()) writeEnd

theorem isReadable_iff {h : Header} : h.isReadable = true ↔ h.depth = .eight ∧ h.color ≠ .indexed := by
  simp only [Header.isReadable, Bool.and_eq_true, decide_eq_true_eq]

/-- The lines of a frame that is read are all there, and show what the frame shows. -/
theorem exists_lines {h : Header} {rest : List Chunk} {tail : Tail} {frame : Frame}
    (hreadable : h.isReadable = true) (hnonempty : h.extent.Nonempty)
    (hframe : readFrame? h rest tail = some frame) :
    ∃ lines, Lines.ofBytes? (h.rowBytes h.extent.width) frame.bytes.toList = some lines ∧
      lines.toImage h = frame.toImage := by
  have hdepth := (isReadable_iff.1 hreadable).1
  have hsize := h.rowBytes_of_depth hdepth h.extent.width
  have hcolor : 0 < h.color.samples := by cases h.color <;> decide
  have hpos : 0 < h.rowBytes h.extent.width := by
    rw [hsize]
    exact Nat.mul_pos hnonempty.1 hcolor
  obtain ⟨e, pixelBytes, bytes⟩ := frame
  obtain ⟨rfl, rfl, hbytes⟩ := size_of_readFrame? hnonempty hdepth hframe
  have hlength : h.extent.height * h.rowBytes h.extent.width = bytes.toList.length := by
    rw [Array.length_toList, hbytes, hsize]
  exact ⟨⟨_, bytes.toList, hpos⟩, dif_pos hpos, Lines.toImage_eq hsize (Nat.le_of_eq hlength)⟩

/-- Reading PNG is reading by way of the package. -/
theorem own_read (bytes : Bytes) : own.read bytes = Png.read bytes := by
  unfold read Png.read
  cases hopen : openFile? bytes with
  | none => simp only [own, hopen, Option.map_none]
  | some opened =>
    obtain ⟨header, rest, tail⟩ := opened
    simp only [own, hopen, Option.map_some, Option.bind_eq_bind, Option.bind_some]
    cases hreadable : header.isReadable with
    | false => rfl
    | true =>
      cases hcheck : header.extent.check with
      | error e => rfl
      | ok u =>
        cases hframe : readFrame? header rest tail with
        | none => rfl
        | some frame =>
          have haccepted := Extent.check_eq_ok_iff.1 hcheck
          obtain ⟨lines, hlines, himage⟩ := exists_lines hreadable haccepted.1 hframe
          simp only [hlines, Option.bind_some]
          exact himage

private theorem restate_writeEnd (f : CodecError → CodecError) : Edit.restate f writeEnd = writeEnd := by
  funext sink
  unfold Edit.restate writeEnd
  cases Sink.write (Chunk.render Chunk.endKind []) sink <;> rfl

/-- The bytes of an image are cut into its rows again. -/
theorem flatMap_parts (image : Image) :
    ((Bytes.parts (3 * image.extent.width) image.extent.height (image.samples.map byteOf)).flatMap
      fun row => 0 :: row) = filteredRows image := by
  have hparts := Bytes.parts_flatten (Nat.mul_pos (by decide) image.accepted.1.1)
    fun row (hrow : row ∈ plainRows image) => length_plainRow hrow
  rw [flatten_plainRows, length_plainRows] at hparts
  rw [hparts, filteredRows_eq]

/-- Writing PNG is writing by way of the package. -/
theorem own_write (image : Image) : own.write image = Png.write image := by
  simp only [write, own, writeChunk, flatMap_parts, Edit.restate_bind, Edit.restate_restate,
    restate_writeEnd]
  rfl

/-- Three bytes to a pixel are those of an image. -/
theorem exists_image {e : Extent} {data : Bytes} (he : e.Accepted) (hlength : data.length = 3 * e.area) :
    ∃ image : Image, image.extent = e ∧ image.space = .rgb ∧ image.samples.map byteOf = data := by
  have hsize : (data.map fun b => narrow b.toNat).toArray.size = Image.sampleCount e := by
    rw [List.size_toArray, List.length_map, hlength, Nat.mul_comm]
    rfl
  have hmade : ∃ image, Image.ofSamples e .rgb _ = .ok image := Image.ofSamples_isOk he hsize
  obtain ⟨image, himage⟩ := hmade
  obtain ⟨hextent, hspace, hsamples⟩ := Image.holds_of_ofSamples_eq_ok himage
  refine ⟨image, hextent, hspace, ?_⟩
  rw [hsamples, List.map_map]
  exact (List.map_congr_left fun b _ => byteOf_narrow b).trans (List.map_id data)

/-- The file that the package of this project makes of the bytes of an image. -/
theorem own_writeFile (hrgb : image.space = .rgb) :
    (own.writeFile image.extent (image.samples.map byteOf)).collect =
      .ok (fileBytes (Header.colorBytes image.extent) (Flate.Zlib.store (filteredRows image))) := by
  rw [← collect_write_eq_ok_iff hrgb, own_write]
  exact collect_write hrgb

private theorem own_decodes (image : Image) :
    own.Decodes (fileBytes (Header.colorBytes image.extent) (Flate.Zlib.store (filteredRows image)))
      image.extent (image.samples.map byteOf) := by
  have hopen := openFile?_fileBytes image.accepted (length_store_lt image)
  have hsize := rowBytes_ofExtent image.extent image.extent.width
  have hpos : 0 < (Header.ofExtent image.extent).rowBytes image.extent.width := by
    rw [hsize]
    exact Nat.mul_pos (by decide) image.accepted.1.1
  refine ⟨⟨false, ?_⟩, ⟨_, image.samples.map byteOf, hpos⟩, ?_, hsize, rfl⟩
  · exact congrArg (Option.map fun opened => opened.1) hopen
  · refine Option.bind_eq_some_iff.2 ⟨_, hopen, ?_⟩
    exact Option.bind_eq_some_iff.2 ⟨_, readFrame?_written image, dif_pos hpos⟩

/-- The package of this project can be relied on. -/
theorem own_faithful : own.Faithful where
  exists_file := by
    intro e data he hlength
    obtain ⟨image, rfl, hrgb, rfl⟩ := exists_image he hlength
    exact ⟨_, own_writeFile hrgb⟩
  signed := by
    intro e data file he hlength hfile
    obtain ⟨image, rfl, hrgb, rfl⟩ := exists_image he hlength
    rw [own_writeFile hrgb] at hfile
    exact ⟨_, (Except.ok.inj hfile).symm⟩
  decodes := by
    intro e data file he hlength hfile
    obtain ⟨image, rfl, hrgb, rfl⟩ := exists_image he hlength
    rw [own_writeFile hrgb] at hfile
    obtain rfl := Except.ok.inj hfile
    exact own_decodes image

end Package

end Acutance.Codec.Png
