import Acutance.Proofs.Codec.Device
import Acutance.Proofs.Pnm.RoundTrip

namespace Acutance.Codec.Pnm

variable {σ : Type} {d : Device σ} {full : SystemError} {image : Image}

/-- The texts and numbers of a header. -/
def headerPieces (encoding : Encoding) (e : Extent) : List Bytes :=
  [encoding.magic ++ Bytes.ofAscii "\n", Decimal.digits e.width, Bytes.ofAscii " ",
    Decimal.digits e.height, Bytes.ofAscii "\n255\n"]

/-- The numbers of a row with a space between each two, and the end of their line. -/
def linePieces (image : Image) (y : Nat) : List Bytes :=
  [List.intercalate (Bytes.ofAscii " ") ((rowNumbers image y).map Decimal.digits), Bytes.ofAscii "\n"]

/-- The pieces of a raster. -/
def rasterPieces (image : Image) : Encoding → List Bytes
  | .bytes => [image.samples.map byteOf]
  | .text => (List.range image.extent.height).flatMap (linePieces image)

/-- Writes an image in red, green and blue to a device, piece by piece. Nothing is offered to the device of
an image in another space. -/
def writeOn (d : Device σ) (image : Image) (encoding : Encoding) : Edit σ CodecError Unit := do
  Edit.lift (Run.restate .raster (Run.ofExcept (image.expectSpace .rgb)))
  Edit.restate .system do
    (headerPieces encoding image.extent ++ rasterPieces image encoding).forM d.writeAll
    d.flush

private theorem flatten_headerPieces (encoding : Encoding) (e : Extent) :
    (headerPieces encoding e).flatten = headerBytes encoding e := by
  simp [headerPieces, headerBytes, List.append_assoc]

private theorem flatten_rasterPieces (image : Image) (encoding : Encoding) :
    (rasterPieces image encoding).flatten = rasterBytes image encoding := by
  cases encoding with
  | bytes => exact List.append_nil _
  | text =>
    have hline (y : Nat) : (linePieces image y).flatten = lineBytes image y := by
      rw [lineBytes_eq, linePieces, List.flatten_cons, List.flatten_singleton]
    rw [rasterPieces, rasterBytes, List.flatMap_def, List.flatten_flatten, List.map_map,
      List.flatMap_def]
    exact congrArg List.flatten (List.map_congr_left fun y _ => hline y)

private theorem lift_expectSpace_of_rgb (hrgb : image.space = .rgb) :
    (Edit.lift (Run.restate .raster (Run.ofExcept (image.expectSpace .rgb))) : Edit σ CodecError Unit) =
      pure () := by
  rw [Image.expectSpace_eq_ok_iff.2 hrgb]
  rfl

/-- An image in hue, saturation and value is refused before the device is offered a byte. -/
theorem writeOn_of_hsv (d : Device σ) (hhsv : image.space = .hsv) (encoding : Encoding) (s : σ) :
    writeOn d image encoding s = .error (.error (.raster (.spaceMismatch .rgb .hsv))) s := by
  have hcheck : image.expectSpace .rgb = .error (.spaceMismatch .rgb .hsv) := by
    rw [Image.expectSpace, hhsv]
    exact if_neg nofun
  rw [writeOn, hcheck]
  exact Edit.bind_eq_error_iff.2 (.inl rfl)

/-- The pieces put the whole file on a device, or as much of it as there is room for. -/
theorem writeOn_puts (h : d.Bounded full) (hrgb : image.space = .rgb) (encoding : Encoding) :
    d.Puts (writeOn d image encoding) (headerBytes encoding image.extent ++ rasterBytes image encoding)
      (.system full) := by
  have hpieces := h.forM_writeAll_puts
    (headerPieces encoding image.extent ++ rasterPieces image encoding)
  have hall := (hpieces.append h.flush_puts).restate CodecError.system
  rw [List.flatten_append, flatten_headerPieces, flatten_rasterPieces, List.append_nil] at hall
  rw [writeOn, lift_expectSpace_of_rgb hrgb, pure_bind]
  exact hall

/-- An image is written to a sink as it is written piece by piece. -/
theorem writeOn_device (image : Image) (encoding : Encoding) :
    writeOn Sink.device image encoding = write image encoding := by
  have hsink : Sink.device.writeAll = fun piece => Sink.write (id piece) :=
    funext Sink.writeAll_device
  have hflush : Sink.device.flush = pure () := rfl
  rw [writeOn, write_eq, hsink, Sink.forM_write, List.flatMap_id, List.flatten_append,
    flatten_headerPieces, flatten_rasterPieces, hflush, bind_pure_unit]

/-- An image in red, green and blue is written as far as there is room for it. A device that takes offers in
parts, however it parts them, and a sink with the same limit end up with the same bytes: the whole file
if there is room for it, and its first bytes if there is not. In the first case the writer ends well, in the
second with the error of the device. An image in hue, saturation and value is refused wherever it is
written to, and nothing is written of it. -/
theorem exists_written_prefix (image : Image) (encoding : Encoding) :
    (image.space = .rgb → ∃ bytes, (write image encoding).collect = .ok bytes ∧
      (∀ limit, ∃ sink, sink.bytes = bytes.take limit ∧ write image encoding (.limited limit) =
        if bytes.length ≤ limit then .ok () sink else .error (.error (.system .writerFull)) sink) ∧
      ∀ (σ : Type) (d : Device σ) (full : SystemError), d.Bounded full → ∀ s limit,
        d.taken s = [] → d.room s = some limit →
          ∃ s', d.taken s' = bytes.take limit ∧ writeOn d image encoding s =
            if bytes.length ≤ limit then .ok () s' else .error (.error (.system full)) s') ∧
    (image.space = .hsv →
      (∀ sink, write image encoding sink =
        .error (.error (.raster (.spaceMismatch .rgb .hsv))) sink) ∧
      ∀ (σ : Type) (d : Device σ) s, writeOn d image encoding s =
        .error (.error (.raster (.spaceMismatch .rgb .hsv))) s) := by
  constructor
  · intro hrgb
    refine ⟨_, collect_write hrgb encoding, fun limit => ?_, fun σ d full hd s limit htaken hroom => ?_⟩
    · obtain ⟨sink, hbytes, hwrite⟩ :=
        (writeOn_puts Sink.device_bounded hrgb encoding).exists_take (s := .limited limit) rfl rfl
      rw [writeOn_device] at hwrite
      exact ⟨sink, hbytes, hwrite⟩
    · exact (writeOn_puts hd hrgb encoding).exists_take htaken hroom
  · intro hhsv
    refine ⟨fun sink => ?_, fun σ d s => writeOn_of_hsv d hhsv encoding s⟩
    rw [← writeOn_device]
    exact writeOn_of_hsv Sink.device hhsv encoding sink

/-- Three rows of one pixel, with samples below and above a byte. -/
def stairs : Image where
  extent := ⟨1, 3⟩
  space := .rgb
  pixels := Extent.tabulate ⟨1, 3⟩ fun _ y => ⟨narrow (100 * y), -1, 300⟩
  accepted := by decide

theorem exists_written_prefix_stairs : stairs.space = .rgb ∧
    (Device.drip (.other "disk full")).Bounded (.other "disk full") ∧
    (∃ s, s.1 = Bytes.ofAscii "P3\n1 3\n255\n0 0 255\n100 0" ∧
      writeOn (.drip (.other "disk full")) stairs .text ([], 24) =
        .error (.error (.system (.other "disk full"))) s) ∧
    ∃ blank : Image, blank.space = .hsv ∧ write blank .text (.limited 24) =
      .error (.error (.raster (.spaceMismatch .rgb .hsv))) (.limited 24) := by
  have hfile : (write stairs .text).collect =
      .ok (Bytes.ofAscii "P3\n1 3\n255\n0 0 255\n100 0 255\n200 0 255\n") := by decide +kernel
  have hdrip := Device.drip_bounded (.other "disk full")
  obtain ⟨hrgb, -⟩ := exists_written_prefix stairs .text
  obtain ⟨bytes, hbytes, -, hdevice⟩ := hrgb rfl
  obtain rfl := Except.ok.inj (hfile.symm.trans hbytes)
  obtain ⟨s, htaken, hwrite⟩ := hdevice _ _ _ hdrip ([], 24) 24 rfl rfl
  obtain ⟨-, hhsv⟩ := exists_written_prefix { stairs with space := .hsv } .text
  exact ⟨rfl, hdrip, ⟨s, htaken, hwrite⟩, _, rfl, (hhsv rfl).1 _⟩

end Acutance.Codec.Pnm
