import Acutance.Codec.Pnm.Writer
import Acutance.Proofs.Codec.Sink
import Acutance.Proofs.Pnm.Binary
import Acutance.Proofs.Pnm.Text

namespace Acutance.Codec.Pnm

/-- The bytes that are written behind the header. -/
def rasterBytes (image : Image) : Encoding → Bytes
  | .bytes => image.samples.map byteOf
  | .text => (List.range image.extent.height).flatMap (lineBytes image)

/-- The header and the raster are written at once, if the image is in red, green and blue. -/
theorem write_eq (image : Image) (encoding : Encoding) : write image encoding = (do
    Edit.lift (Run.restate .raster (Run.ofExcept (image.expectSpace .rgb)))
    Edit.restate .system
      (Sink.write (headerBytes encoding image.extent ++ rasterBytes image encoding))) := by
  rw [Sink.write_append, Edit.restate_bind]
  cases encoding with
  | bytes => rfl
  | text =>
    rw [rasterBytes, ← Sink.forM_write, Edit.restate_forM]
    rfl

/-- An image in red, green and blue is written as a whole. -/
theorem collect_write {image : Image} (hrgb : image.space = .rgb) (encoding : Encoding) :
    (write image encoding).collect =
      .ok (headerBytes encoding image.extent ++ rasterBytes image encoding) := by
  have hspace : image.expectSpace .rgb = .ok () := Image.expectSpace_eq_ok_iff.2 hrgb
  rw [write_eq, hspace]
  exact Sink.collect_write CodecError.system _

theorem separator_space : Separator (Bytes.ofAscii " ") := .blank (by decide) .nil

theorem separator_newline : Separator (Bytes.ofAscii "\n") := .blank (by decide) .nil

theorem endsDigits_space (rest : Bytes) : EndsDigits (Bytes.ofAscii " " ++ rest) :=
  endsDigits_append (by decide) separator_space.endsDigits

theorem endsDigits_newline (rest : Bytes) : EndsDigits (Bytes.ofAscii "\n" ++ rest) :=
  endsDigits_append (by decide) separator_newline.endsDigits

/-- The digits of a number behind a separator are read as the number. -/
theorem number_digits {token : Token} {sep rest : Bytes} {n : Nat} (hsep : Separator sep)
    (hn : n < tokenLimit) (hends : EndsDigits rest) :
    number token (sep ++ Decimal.digits n ++ rest) = (.ok n, rest) := by
  rw [number_of_digits hsep (Decimal.digits_ne_nil n) (fun _ => Decimal.isDigit_of_mem_digits) hends,
    Decimal.toNat_digits, if_neg (Nat.not_le.2 hn)]

private theorem scans_digits {sep rest tail : Bytes} {n : Nat} {numbers : List Nat} (hsep : Separator sep)
    (hn : n < tokenLimit) (hends : EndsDigits rest) (hscans : Scans numbers rest tail) :
    Scans (n :: numbers) (sep ++ Decimal.digits n ++ rest) tail :=
  (scans_cons_iff .sample).2 ⟨rest, number_digits hsep hn hends, hscans⟩

/-- Numbers with a space between each two of them are scanned in order. -/
theorem scans_line {sep rest tail : Bytes} {line numbers : List Nat} (hne : line ≠ [])
    (hsep : Separator sep) (hline : ∀ n ∈ line, n < tokenLimit) (hends : EndsDigits rest)
    (hscans : Scans numbers rest tail) :
    Scans (line ++ numbers)
      (sep ++ List.intercalate (Bytes.ofAscii " ") (line.map Decimal.digits) ++ rest) tail := by
  -- every number but the first has the space before it for its separator
  induction line generalizing sep with
  | nil => exact absurd rfl hne
  | cons n line ih =>
    have hn := hline n (by simp)
    cases line with
    | nil =>
      simpa [List.intercalate] using scans_digits hsep hn hends hscans
    | cons m line =>
      have hrest := ih (by simp) separator_space fun k hk => hline k (by simp [hk])
      rw [List.append_assoc] at hrest
      have hfirst := scans_digits hsep hn (endsDigits_space _) hrest
      simpa [List.intercalate, List.append_assoc] using hfirst

/-- Lines of numbers are scanned in order, up to the end of the last line. -/
theorem scans_lines (lines : List (List Nat)) (hne : ∀ line ∈ lines, line ≠ [])
    (hlines : ∀ line ∈ lines, ∀ n ∈ line, n < tokenLimit) :
    Scans lines.flatten (Bytes.ofAscii "\n" ++ lines.flatMap fun line =>
      List.intercalate (Bytes.ofAscii " ") (line.map Decimal.digits) ++ Bytes.ofAscii "\n")
      (Bytes.ofAscii "\n") := by
  induction lines with
  | nil => exact scans_nil_iff.2 ⟨List.append_nil _, separator_newline.endsDigits⟩
  | cons line lines ih =>
    have hrest := ih (fun l hl => hne l (by simp [hl])) fun l hl => hlines l (by simp [hl])
    have hline := scans_line (hne line (by simp)) separator_newline (hlines line (by simp))
      (endsDigits_newline _) hrest
    simpa [List.append_assoc] using hline

/-- The numbers that are written in the line of a row. -/
def rowNumbers (image : Image) (y : Nat) : List Nat :=
  ((List.range image.extent.width).flatMap fun x => (image.pixel x y).samples).map
    fun s => (byteOf s).toNat

theorem lineBytes_eq (image : Image) (y : Nat) : lineBytes image y =
    List.intercalate (Bytes.ofAscii " ") ((rowNumbers image y).map Decimal.digits) ++
      Bytes.ofAscii "\n" := by
  rw [lineBytes, rowNumbers, List.map_map]
  rfl

theorem rowNumbers_ne_nil (image : Image) (y : Nat) : rowNumbers image y ≠ [] := by
  have hwidth := image.accepted.1.1
  obtain ⟨w, hw⟩ := Nat.exists_eq_succ_of_ne_zero (Nat.ne_of_gt hwidth)
  simp [rowNumbers, hw, List.range_succ_eq_map, Pixel.samples]

theorem flatMap_rowNumbers (image : Image) :
    (List.range image.extent.height).flatMap (rowNumbers image) =
      image.samples.map fun s => (byteOf s).toNat := by
  rw [image.samples_eq_rows, List.map_flatMap]
  rfl

/-- The variant that an encoding writes. -/
def Encoding.variant : Encoding → Variant
  | .bytes => .colorBytes
  | .text => .colorText

/-- The header of what is written of an extent. -/
def writtenHeader (e : Extent) : Header := ⟨e, 255⟩

/-- What is written of the header behind the magic number, without the end of its last line. -/
def writtenNumbers (e : Extent) : Bytes :=
  Bytes.ofAscii "\n" ++ Decimal.digits e.width ++ (Bytes.ofAscii " " ++ Decimal.digits e.height ++
    (Bytes.ofAscii "\n" ++ Decimal.digits 255))

theorem headerBytes_eq (encoding : Encoding) (e : Extent) :
    headerBytes encoding e = encoding.variant.magic ++ (writtenNumbers e ++ Bytes.ofAscii "\n") := by
  have hdigits : Decimal.digits 255 = Bytes.ofAscii "255" := by
    simp [Decimal.digits]
    decide
  have hend : Bytes.ofAscii "\n255\n" =
      Bytes.ofAscii "\n" ++ Bytes.ofAscii "255" ++ Bytes.ofAscii "\n" := by decide
  rw [headerBytes, writtenNumbers, hdigits, hend]
  cases encoding <;> simp [Encoding.magic, Encoding.variant, Variant.magic, List.append_assoc]

theorem writtenHeader_valid (image : Image) : (writtenHeader image.extent).Valid where
  extent_check := Extent.check_eq_ok_iff.2 image.accepted
  one_le_maxval := Nat.le_add_left 1 254
  maxval_le := Nat.le_add_right 255 65280

theorem scans_writtenNumbers (image : Image) (raster : Bytes) :
    Scans (writtenHeader image.extent).numbers
      (writtenNumbers image.extent ++ (Bytes.ofAscii "\n" ++ raster))
      (Bytes.ofAscii "\n" ++ raster) := by
  obtain ⟨hwidth, hheight⟩ := image.accepted.le
  have hlimit : Capacity.maxWidth < tokenLimit ∧ Capacity.maxHeight < tokenLimit := by decide
  have hends := endsDigits_newline raster
  have hmaxval := scans_digits separator_newline (by decide : 255 < tokenLimit) hends
    (scans_nil_iff.2 ⟨rfl, hends⟩)
  rw [List.append_assoc] at hmaxval
  have hsecond := scans_digits separator_space (Nat.lt_of_le_of_lt hheight hlimit.2)
    (endsDigits_newline _) hmaxval
  rw [List.append_assoc] at hsecond
  have hfirst := scans_digits separator_newline (Nat.lt_of_le_of_lt hwidth hlimit.1)
    (endsDigits_space _) hsecond
  simp only [writtenNumbers, List.append_assoc] at hfirst ⊢
  exact hfirst

end Acutance.Codec.Pnm
