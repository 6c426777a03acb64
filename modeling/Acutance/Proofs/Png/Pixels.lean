import Acutance.Proofs.Png.Package

namespace Acutance.Codec.Png

namespace ColorType

/-- Which byte of a pixel a channel is taken from. All channels of a gray pixel are taken from one. -/
def place : ColorType → Channel → Nat
  | .rgb, .second | .rgba, .second => 1
  | .rgb, .third | .rgba, .third => 2
  | _, _ => 0

/-- Which byte of a pixel tells its transparency, if one does. -/
def alpha? : ColorType → Option Nat
  | .grayscaleAlpha => some 1
  | .rgba => some 3
  | _ => none

private theorem place_lt (color : ColorType) (c : Channel) : color.place c < color.samples := by
  cases color <;> cases c <;> decide

private theorem alpha_ne_place (color : ColorType) (c : Channel) : color.alpha? ≠ some (color.place c) := by
  cases color <;> cases c <;> decide

end ColorType

private theorem Lines.of_ofBytes? {size : Nat} {bytes : Bytes} {lines : Lines}
    (h : Lines.ofBytes? size bytes = some lines) : lines.size = size ∧ lines.bytes = bytes := by
  unfold Lines.ofBytes? at h
  split at h
  · obtain rfl := Option.some.inj h
    exact ⟨rfl, rfl⟩
  · cases h

/-- The samples of a pixel are bytes of the frame. -/
theorem Frame.get_pixelAt {e : Extent} {color : ColorType} {bytes : Array UInt8} (i : Nat)
    (c : Channel) : (Frame.pixelAt ⟨e, color.samples, bytes⟩ i).get c =
      narrow (bytes.getD (i * color.samples + color.place c) 0).toNat := by
  cases color <;> cases c <;> rfl

namespace Package

/-- A file holds an image of a layout and an extent that are read, and its frame is delivered with as many
bytes as the extent takes. -/
structure Delivers (p : Package) (file : Bytes) (e : Extent) (color : ColorType) (lines : Lines) :
    Prop where
  header_eq : ∃ interlaced, p.header? file = some ⟨e, color, .eight, interlaced⟩
  color_ne : color ≠ .indexed
  check_eq : e.check = .ok ()
  lines_eq : p.lines? file = some lines
  size_eq : lines.size = e.width * color.samples
  length_eq : lines.bytes.length = e.height * lines.size

/-- No frame of an image that is read is delivered in part, or with more bytes than its extent takes. -/
def Complete (p : Package) : Prop :=
  ∀ {file : Bytes} {h : Header} {lines : Lines}, p.header? file = some h → h.isReadable = true →
    h.extent.check = .ok () → p.lines? file = some lines → p.Delivers file h.extent h.color lines

variable {p : Package} {file file' : Bytes} {e : Extent} {color : ColorType} {lines lines' : Lines}

namespace Delivers

private theorem read_eq (h : p.Delivers file e color lines) :
    p.read file = Frame.toImage ⟨e, color.samples, lines.bytes.toArray⟩ := by
  obtain ⟨interlaced, hheader⟩ := h.header_eq
  have hreadable : Header.isReadable ⟨e, color, .eight, interlaced⟩ = true :=
    decide_eq_true h.color_ne
  have himage := Lines.toImage_eq (h := ⟨e, color, .eight, interlaced⟩) h.size_eq
    (Nat.le_of_eq h.length_eq.symm)
  unfold read
  simp only [hheader, hreadable, h.check_eq, h.lines_eq]
  exact himage

/-- The bytes of a pixel inside are among those of the frame. -/
theorem offset_lt (h : p.Delivers file e color lines) {x y : Nat} (hin : e.Contains x y)
    (c : Channel) : y * lines.size + x * color.samples + color.place c < lines.bytes.length := by
  have hplace := color.place_lt c
  have hpixels : (x + 1) * color.samples ≤ lines.size := by
    rw [h.size_eq]
    exact Nat.mul_le_mul_right _ hin.1
  have hlines : (y + 1) * lines.size ≤ lines.bytes.length := by
    rw [h.length_eq]
    exact Nat.mul_le_mul_right _ hin.2
  rw [Nat.succ_mul] at hpixels hlines
  omega

/-- Where the byte of a channel stands in its pixel can be told from where it stands in the frame. -/
theorem offset_mod (h : p.Delivers file e color lines) (x y : Nat) (c : Channel) :
    (y * lines.size + x * color.samples + color.place c) % color.samples = color.place c := by
  rw [h.size_eq, ← Nat.mul_assoc, ← Nat.add_mul, Nat.mul_add_mod', Nat.mod_eq_of_lt (color.place_lt c)]

/-- What is delivered is read as an image of these bytes. -/
theorem exists_read (h : p.Delivers file e color lines) : ∃ image, p.read file = .ok image ∧
    image.extent = e ∧ image.space = .rgb ∧ ∀ c x y, e.Contains x y → ∃ b : UInt8,
      lines.bytes[y * lines.size + x * color.samples + color.place c]? = some b ∧
        (image.pixel x y).get c = narrow b.toNat := by
  have haccepted : e.Accepted := Extent.check_eq_ok_iff.1 h.check_eq
  obtain ⟨image, himage, hextent, hspace, hpixel⟩ :=
    Frame.exists_toImage (f := ⟨e, color.samples, lines.bytes.toArray⟩) haccepted
  refine ⟨image, h.read_eq.trans himage, hextent, hspace, fun c x y hin => ?_⟩
  have hstart : e.index x y * color.samples = y * lines.size + x * color.samples := by
    rw [Extent.index, Nat.add_mul, Nat.mul_assoc, h.size_eq]
  have hbyte := List.getElem?_eq_getElem (h.offset_lt hin c)
  refine ⟨_, hbyte, ?_⟩
  rw [hpixel x y hin, Frame.get_pixelAt, hstart, Array.getD_eq_getD_getElem?, List.getElem?_toArray,
    hbyte, Option.getD_some]

/-- Only the bytes that channels are taken from matter. -/
theorem read_congr (h : p.Delivers file e color lines) (h' : p.Delivers file' e color lines')
    (hsame : ∀ i, color.alpha? ≠ some (i % color.samples) → lines.bytes[i]? = lines'.bytes[i]?) :
    p.read file = p.read file' := by
  obtain ⟨image, hread, hextent, hspace, hpixel⟩ := h.exists_read
  obtain ⟨image', hread', hextent', hspace', hpixel'⟩ := h'.exists_read
  rw [hread, hread']
  refine congrArg Except.ok (Image.ext_pixel (hextent.trans hextent'.symm)
    (hspace.trans hspace'.symm) fun x y hin => Pixel.ext_get fun c => ?_)
  rw [hextent] at hin
  obtain ⟨b, hb, hsample⟩ := hpixel c x y hin
  obtain ⟨b', hb', hsample'⟩ := hpixel' c x y hin
  have hcolor : color.alpha? ≠
      some ((y * lines.size + x * color.samples + color.place c) % color.samples) := by
    rw [h.offset_mod]
    exact color.alpha_ne_place c
  rw [hsame _ hcolor, h.size_eq, ← h'.size_eq, hb'] at hb
  rw [hsample, hsample', Option.some.inj hb]

end Delivers

/-- How reading ends when frames are delivered with all their bytes. -/
theorem Complete.read_cases (hp : p.Complete) (file : Bytes) :
    p.read file = .error (.decode .header) ∨
    (∃ color depth, p.read file = .error (.unsupported (.layout color depth))) ∨
    (∃ (e : Extent) (error : RasterError), e.check = .error error ∧
      p.read file = .error (.raster error)) ∨
    p.read file = .error (.decode .frame) ∨
    ∃ e color lines, p.Delivers file e color lines := by
  cases hheader : p.header? file with
  | none =>
    left
    unfold read
    simp only [hheader]
    rfl
  | some h =>
    right
    cases hreadable : h.isReadable with
    | false =>
      left
      refine ⟨h.color, h.depth, ?_⟩
      unfold read
      simp only [hheader, hreadable]
      rfl
    | true =>
      right
      cases hcheck : h.extent.check with
      | error error =>
        refine .inl ⟨h.extent, error, hcheck, ?_⟩
        unfold read
        simp only [hheader, hreadable, hcheck]
        rfl
      | ok u =>
        right
        cases hlines : p.lines? file with
        | none =>
          left
          unfold read
          simp only [hheader, hreadable, hcheck, hlines]
          rfl
        | some lines => exact .inr ⟨_, _, _, hp hheader hreadable hcheck hlines⟩

/-- The package of this project delivers all the bytes of an image that is read. -/
theorem own_complete : own.Complete := by
  intro file h lines hheader hreadable hcheck hlines
  obtain ⟨hdepth, hcolor⟩ := isReadable_iff.1 hreadable
  obtain ⟨opened, hopen, hread⟩ := Option.bind_eq_some_iff.1 hlines
  obtain ⟨frame, hframe, hread⟩ := Option.bind_eq_some_iff.1 hread
  have hopened : opened.1 = h := by
    have hmap : own.header? file = some opened.1 := congrArg (Option.map _) hopen
    exact Option.some.inj (hmap.symm.trans hheader)
  rw [hopened] at hframe hread
  obtain ⟨hsize, hbytes⟩ := Lines.of_ofBytes? hread
  obtain ⟨-, -, hlength⟩ := size_of_readFrame? (Extent.check_eq_ok_iff.1 hcheck).1 hdepth hframe
  rw [h.rowBytes_of_depth hdepth] at hsize
  refine ⟨⟨h.interlaced, ?_⟩, hcolor, hcheck, hlines, hsize, ?_⟩
  · rw [hheader, ← hdepth]
  · rw [hbytes, Array.length_toList, hlength, hsize]

/-- A file that holds the bytes of a frame as they are. -/
def plainFile (e : Extent) (color : ColorType) (data : Bytes) : Bytes :=
  fileBytes (Header.layoutBytes e color) (Flate.Zlib.store
    ((Bytes.parts (e.width * color.samples) e.height data).flatMap fun row => 0 :: row))

/-- Any bytes are delivered of some file, if their number is right. -/
theorem own_delivers_plainFile {data : Bytes} (hcheck : e.check = .ok ()) (hcolor : color ≠ .indexed)
    (hdata : data.length = e.height * (e.width * color.samples)) :
    ∃ lines, lines.bytes = data ∧ own.Delivers (plainFile e color data) e color lines := by
  have he : e.Accepted := Extent.check_eq_ok_iff.1 hcheck
  have hpos : 0 < e.width * color.samples :=
    Nat.mul_pos he.1.1 (Nat.zero_lt_of_lt (color.place_lt .first))
  have hfour : e.width * color.samples ≤ 4 * e.width := by
    rw [Nat.mul_comm]
    exact Nat.mul_le_mul_right _ (by cases color <;> decide)
  have hrow := Header.rowBytes_of_depth ⟨e, color, .eight, false⟩ rfl e.width
  obtain ⟨hcount, hrows, hflatten⟩ := Bytes.parts_of_length hpos hdata
  have hopen := openFile?_layoutBytes he color (length_store_coded_lt he hcount hfour hrows)
  have hframe := readFrame?_unpredicted (h := ⟨e, color, .eight, false⟩) rfl he.1 hcount
    fun row hmem => (hrows row hmem).trans hrow.symm
  rw [hflatten] at hframe
  refine ⟨⟨_, data, hpos⟩, rfl, ⟨false, ?_⟩, hcolor, hcheck, ?_, rfl, hdata⟩
  · exact congrArg (Option.map _) hopen
  · refine Option.bind_eq_some_iff.2 ⟨_, hopen, Option.bind_eq_some_iff.2 ⟨_, hframe, ?_⟩⟩
    rw [hrow]
    exact dif_pos hpos

/-- Whatever package delivers the frame of an image, with bytes for samples in any of four layouts and of
any extent that is accepted, the image is read, and each of its samples is the byte of its channel in the
pixel that begins at the offset of the place. Frames that differ in bytes of transparency only are read as
one image, and when all frames are delivered with all their bytes no file has too few or too many samples.
The package of this project is such a package, which delivers any bytes of some file, and what is read by
way of it is what is read. -/
theorem read_delivered (p : Package) :
    (∀ (file : Bytes) (e : Extent) (color : ColorType) (lines : Lines),
      p.Delivers file e color lines → ∃ image, p.read file = .ok image ∧ image.extent = e ∧
        image.space = .rgb ∧ ∀ c x y, e.Contains x y → ∃ b : UInt8,
          lines.bytes[y * lines.size + x * color.samples + color.place c]? = some b ∧
            ((image.pixel x y).get c).toInt = b.toNat) ∧
    (∀ (file file' : Bytes) (e : Extent) (color : ColorType) (lines lines' : Lines),
      p.Delivers file e color lines → p.Delivers file' e color lines' →
        (∀ i, color.alpha? ≠ some (i % color.samples) → lines.bytes[i]? = lines'.bytes[i]?) →
          p.read file = p.read file') ∧
    (p.Complete → ∀ file expected actual,
      p.read file ≠ .error (.raster (.sampleCount expected actual))) ∧
    own.Complete ∧
    (∀ (e : Extent) (color : ColorType) (data : Bytes), e.check = .ok () → color ≠ .indexed →
      data.length = e.height * (e.width * color.samples) → ∃ lines, lines.bytes = data ∧
        own.Delivers (plainFile e color data) e color lines) ∧
    ∀ file, own.read file = Png.read file := by
  refine ⟨fun file e color lines h => ?_, fun _ _ _ _ _ _ h h' => h.read_congr h',
    fun hcomplete file expected actual hread => ?_, own_complete,
    fun _ _ _ => own_delivers_plainFile, own_read⟩
  · obtain ⟨image, hread, hextent, hspace, hpixel⟩ := h.exists_read
    refine ⟨image, hread, hextent, hspace, fun c x y hin => ?_⟩
    obtain ⟨b, hbyte, hsample⟩ := hpixel c x y hin
    exact ⟨b, hbyte, by rw [hsample, toInt_narrow_byte]⟩
  · rcases hcomplete.read_cases file with h | ⟨_, _, h⟩ | ⟨e, error, hcheck, h⟩ | h | ⟨_, _, _, h⟩
    · cases h.symm.trans hread
    · cases h.symm.trans hread
    · obtain rfl := CodecError.raster.inj (Except.error.inj (h.symm.trans hread))
      exact Extent.check_ne_sampleCount e _ _ hcheck
    · cases h.symm.trans hread
    · obtain ⟨image, hok, -⟩ := h.exists_read
      cases hok.symm.trans hread

/-- Two gray pixels with their transparency. -/
def veiled (alpha : UInt8) : Bytes := [7, alpha, 200, 9]

theorem read_delivered_veiled :
    (∃ image, own.read (plainFile ⟨2, 1⟩ .grayscaleAlpha (veiled 3)) = .ok image ∧
      image.extent = ⟨2, 1⟩ ∧ image.space = .rgb ∧ ((image.pixel 1 0).get .third).toInt = 200) ∧
    own.read (plainFile ⟨2, 1⟩ .grayscaleAlpha (veiled 3)) =
      own.read (plainFile ⟨2, 1⟩ .grayscaleAlpha (veiled 251)) ∧
    ∀ expected actual, own.read (veiled 3) ≠ .error (.raster (.sampleCount expected actual)) := by
  obtain ⟨hread, hcongr, hcounted, hcomplete, hplain, -⟩ := read_delivered own
  obtain ⟨lines, hbytes, h⟩ := hplain ⟨2, 1⟩ .grayscaleAlpha (veiled 3) rfl (by decide) rfl
  obtain ⟨lines', hbytes', h'⟩ := hplain ⟨2, 1⟩ .grayscaleAlpha (veiled 251) rfl (by decide) rfl
  have hsame (i : Nat) (hi : ColorType.alpha? .grayscaleAlpha ≠ some (i % 2)) :
      lines.bytes[i]? = lines'.bytes[i]? := by
    rw [hbytes, hbytes']
    rcases i with _ | _ | i
    · rfl
    · exact absurd rfl hi
    · rfl
  obtain ⟨image, himage, hextent, hspace, hsample⟩ := hread _ _ _ _ h
  obtain ⟨b, hb, hpixel⟩ := hsample .third 1 0 ⟨by decide, by decide⟩
  rw [hbytes, h.size_eq] at hb
  obtain rfl : 200 = b := Option.some.inj hb
  exact ⟨⟨image, himage, hextent, hspace, hpixel⟩, hcongr _ _ _ _ _ _ h h' hsame,
    hcounted hcomplete (veiled 3)⟩

end Package

end Acutance.Codec.Png
