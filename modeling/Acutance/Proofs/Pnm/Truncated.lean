import Acutance.Proofs.Buffer.Codec
import Acutance.Proofs.Pnm.Answers
import Acutance.Proofs.Pnm.Refused
import Acutance.Proofs.Pnm.RoundTrip

namespace Acutance.Codec.Pnm

variable {α β : Type} {token : Token} {cut left right tail : Bytes}

/-- What a text of two parts begins with ends in the first of them or reaches into the second. -/
theorem cut_append_cases (h : cut <+: left ++ right) :
    cut <+: left ∨ ∃ rest, rest ≠ [] ∧ cut = left ++ rest ∧ rest <+: right := by
  rcases List.prefix_or_prefix_of_prefix h (List.prefix_append left right) with hshort | ⟨rest, rfl⟩
  · exact .inl hshort
  · by_cases hrest : rest = []
    · left
      rw [hrest, List.append_nil]
    · exact .inr ⟨rest, hrest, rfl, (List.prefix_append_right_inj left).1 h⟩

private theorem EndsDigits.of_prefix (h : EndsDigits right) (hcut : cut <+: right) : EndsDigits cut := by
  obtain ⟨more, rfl⟩ := hcut
  intro b hb
  apply h
  rw [List.head?_append, hb, Option.some_or]

/-- Whether a reader finds a defect in the data, unless it answers with what has a property. -/
def DefectOr (answer : α → Prop) (x : Except CodecError α) : Prop :=
  (∃ defect, x = .error (.invalid defect)) ∨ ∃ a, x = .ok a ∧ answer a

namespace DefectOr

variable {answer : α → Prop} {final : β → Prop} {x : Except CodecError α}

private theorem bind {f : α → Except CodecError β} (h : DefectOr answer x)
    (hnext : ∀ a, answer a → DefectOr final (f a)) : DefectOr final (x >>= f) := by
  rcases h with ⟨defect, rfl⟩ | ⟨a, rfl, ha⟩
  · exact .inl ⟨defect, rfl⟩
  · exact hnext a ha

private theorem exists_defect (h : DefectOr (fun _ => False) x) : ∃ defect, x = .error (.invalid defect) := by
  rcases h with hdefect | ⟨_, _, hnone⟩
  · exact hdefect
  · exact hnone.elim

end DefectOr

/-- Where nothing is left, a number is missing. -/
theorem headerNumber_nil_bind {final : β → Prop} {f : Nat × Bytes → Except CodecError β} :
    DefectOr final (headerNumber token [] >>= f) := .inl ⟨.missing token, rfl⟩

/-- Of a number that is cut short, or that ends the data, nothing is left. A number that is cut leaves a
shorter one, which may well be a number for its place, but then nothing is left to read behind it. -/
theorem number_of_cut {sep : Bytes} {n : Nat} (hsep : Separator sep)
    (hcut : cut <+: sep ++ Decimal.digits n) : (number token cut).2 = [] := by
  rcases cut_append_cases hcut with hinside | ⟨digits, hne, rfl, hdigits⟩
  · have hskip := hsep.skip_of_prefix hinside
    rw [number_of_endsDigits (by rw [hskip]; exact endsDigits_nil), hskip]
  · have hnumber : number token (sep ++ digits ++ []) = _ :=
      number_of_digits hsep hne (fun b hb => Decimal.isDigit_of_mem_digits (hdigits.subset hb))
        endsDigits_nil
    rw [List.append_nil] at hnumber
    rw [hnumber]

/-- A cut in front of a number or inside of it leaves nothing behind the number. A cut behind it leaves
the number as it is, and a beginning of what followed. -/
theorem headerNumber_of_cut {sep : Bytes} {n : Nat} (hsep : Separator sep) (hn : n < tokenLimit)
    (hends : EndsDigits tail) (hcut : cut <+: sep ++ (Decimal.digits n ++ tail)) :
    DefectOr (fun read => read.2 = [] ∨ read.1 = n ∧ read.2 <+: tail) (headerNumber token cut) := by
  rw [← List.append_assoc] at hcut
  unfold headerNumber
  rcases cut_append_cases hcut with hinside | ⟨rest, -, rfl, hrest⟩
  · have hnothing : (number token cut).2 = [] := number_of_cut hsep hinside
    rcases hnumber : number token cut with ⟨defect | m, rest⟩
    · exact .inl ⟨defect, rfl⟩
    · rw [hnumber] at hnothing
      exact .inr ⟨(m, rest), rfl, .inl hnothing⟩
  · rw [number_digits hsep hn (hends.of_prefix hrest)]
    exact .inr ⟨(n, rest), rfl, .inr ⟨rfl, hrest⟩⟩

/-- A header that is cut short has a defect, or nothing is left behind it. -/
theorem Header.read_of_cut (image : Image) (hends : EndsDigits tail)
    (hcut : cut <+: writtenNumbers image.extent ++ tail) :
    DefectOr (fun read => read.2 = [] ∨ read.1 = writtenHeader image.extent ∧ read.2 <+: tail)
      (Header.read cut) := by
  obtain ⟨hwidth, hheight⟩ := image.accepted.le
  have hlimit : Capacity.maxWidth < tokenLimit ∧ Capacity.maxHeight < tokenLimit := by decide
  simp only [writtenNumbers, List.append_assoc] at hcut
  -- each number is left with nothing, or with what a cut leaves of the numbers behind it
  refine (headerNumber_of_cut separator_newline (Nat.lt_of_le_of_lt hwidth hlimit.1)
    (endsDigits_space _) hcut).bind ?_
  rintro ⟨width, rest⟩ (rfl | ⟨rfl, hrest⟩)
  · exact headerNumber_nil_bind
  refine (headerNumber_of_cut separator_space (Nat.lt_of_le_of_lt hheight hlimit.2)
    (endsDigits_newline _) hrest).bind ?_
  rintro ⟨height, rest⟩ (rfl | ⟨rfl, hrest⟩)
  · exact headerNumber_nil_bind
  refine (headerNumber_of_cut separator_newline (by decide) hends hrest).bind ?_
  rintro ⟨maxval, rest⟩ hrest
  dsimp only at hrest ⊢
  split
  · exact .inl ⟨.maxval maxval, rfl⟩
  · rw [Extent.check_eq_ok_iff.2 image.accepted]
    refine .inr ⟨(⟨image.extent, maxval⟩, rest), rfl, ?_⟩
    rcases hrest with hnothing | ⟨rfl, hrest⟩
    · exact .inl hnothing
    · exact .inr ⟨rfl, hrest⟩

/-- A raster that lacks its separator or some of its bytes is refused. -/
theorem byteSamples_of_cut {needed sampleBytes : Nat} {blank : UInt8} {raster : Bytes}
    (hcut : cut <+: blank :: raster) (hshort : raster.length < needed * sampleBytes) :
    ∃ defect, byteSamples needed sampleBytes cut = .error defect := by
  cases cut with
  | nil => exact ⟨.noSeparator, rfl⟩
  | cons b rest =>
    have hrest : rest.length < needed * sampleBytes :=
      Nat.lt_of_le_of_lt (List.cons_prefix_cons.1 hcut).2.length_le hshort
    simp only [byteSamples, if_pos hrest]
    split
    · exact ⟨_, rfl⟩
    · exact ⟨.noSeparator, rfl⟩

/-- Behind the magic number, a written file that lacks some of the bytes of its raster is refused, and so
is whatever it begins with. -/
theorem exists_defect_of_cut (image : Image) {raster : Bytes}
    (hshort : raster.length < image.extent.area * Variant.colorBytes.channels)
    (hcut : cut <+: writtenNumbers image.extent ++ (Bytes.ofAscii "\n" ++ raster)) :
    ∃ defect, read (Variant.colorBytes.magic ++ cut) = .error (.invalid defect) := by
  have hraster : DefectOr (fun _ => False) (rasterOf .colorBytes cut) := by
    refine (Header.read_of_cut image (endsDigits_newline _) hcut).bind ?_
    rintro ⟨h, rest⟩ (rfl | ⟨rfl, hrest⟩)
    · exact .inl ⟨.noSeparator, rfl⟩
    · have hline : rest <+: newline :: raster := hrest
      obtain ⟨defect, hdefect⟩ := byteSamples_of_cut hline (by rwa [Nat.mul_one])
      have hsamples : readSamples .colorBytes (writtenHeader image.extent) rest = .error defect := hdefect
      exact .inl ⟨defect, by simp only [hsamples]; rfl⟩
  obtain ⟨defect, hdefect⟩ := hraster.exists_defect
  refine ⟨defect, ?_⟩
  rw [read_eq_raster_bind, raster_magic_append, hdefect]
  rfl

/-- What a file without the end of its raster begins with is refused, with its magic number or without. -/
theorem exists_defects_of_cut (image : Image) {raster : Bytes}
    (hshort : raster.length < image.extent.area * Variant.colorBytes.channels)
    (hcut : cut <+: Variant.colorBytes.magic ++
      (writtenNumbers image.extent ++ (Bytes.ofAscii "\n" ++ raster))) :
    ∃ defect detected, read cut = .error (.invalid defect) ∧
      Codec.read cut = .error (.invalid detected) := by
  rcases Nat.lt_or_ge cut.length 2 with hnone | hlong
  · refine ⟨.noMagic, .undetectable, ?_, ?_⟩
    · rw [read, if_pos hnone]
      rfl
    · rw [Codec.read, FileFormat.detect, if_pos hnone]
      rfl
  · obtain ⟨rest, rfl⟩ : Variant.colorBytes.magic <+: cut :=
      List.prefix_of_prefix_length_le (List.prefix_append _ _) hcut hlong
    obtain ⟨defect, hdefect⟩ :=
      exists_defect_of_cut image hshort ((List.prefix_append_right_inj _).1 hcut)
    exact ⟨defect, defect, hdefect, by rw [codec_read_magic, hdefect]⟩

/-- What is left of the bytes of an image in red, green and blue when some of them are cut off, be it all of
them, is refused as invalid data. It does not matter whether it is read as PNM or as a file of any format,
and no slice, byte or count is ever missed on the way. -/
theorem exists_defect_of_truncated {image : Image} (hrgb : image.space = .rgb) :
    ∃ bytes, (write image .bytes).collect = .ok bytes ∧ ∀ cut, cut <+: bytes → cut ≠ bytes →
      ∃ defect detected,
        read cut = .error (.invalid defect) ∧
        ImageBuffer.decode cut (.format .pnm) = .error (.error (.refused (.invalid defect))) ∧
        Codec.read cut = .error (.invalid detected) ∧
        ImageBuffer.decode cut .detected = .error (.error (.refused (.invalid detected))) := by
  have hlength : (rasterBytes image .bytes).length = image.extent.area * Variant.colorBytes.channels := by
    rw [rasterBytes, List.length_map, image.length_samples, Nat.mul_comm]
    rfl
  obtain ⟨raster, last, hraster⟩ : ∃ raster last, rasterBytes image .bytes = raster ++ [last] := by
    have hne : rasterBytes image .bytes ≠ [] := by
      intro hempty
      have harea := Nat.mul_pos image.accepted.1.1 image.accepted.1.2
      rw [hempty, Extent.area] at hlength
      change 0 = image.extent.width * image.extent.height * 3 at hlength
      omega
    exact ⟨_, _, (List.dropLast_concat_getLast hne).symm⟩
  rw [hraster, List.length_append, List.length_singleton] at hlength
  refine ⟨_, collect_write hrgb .bytes, ?_⟩
  intro cut hcut hne
  -- a file that is cut lacks the last byte of its raster at least
  rw [hraster, ← List.append_assoc] at hcut hne
  have hbefore := (List.prefix_concat_iff.1 hcut).resolve_left hne
  rw [headerBytes_eq, List.append_assoc, List.append_assoc] at hbefore
  obtain ⟨defect, detected, hread, hdetected⟩ := exists_defects_of_cut image (by omega) hbefore
  refine ⟨defect, detected, hread, ?_, hdetected, ?_⟩
  · rw [Image.decode_buffer, ReadMode.read, hread]
    rfl
  · rw [Image.decode_buffer, ReadMode.read, hdetected]
    rfl

/-- A row of twelve pixels, whose raster could be taken for text. -/
def strip : Image where
  extent := ⟨12, 1⟩
  space := .rgb
  pixels := Extent.tabulate ⟨12, 1⟩ fun _ _ => ⟨35, 10, 49⟩
  accepted := by decide

/-- A width that is cut to one digit and a full intensity that is cut to two are numbers for their places. -/
theorem exists_defect_of_truncated_strip : strip.space = .rgb ∧
    ∃ bytes, (write strip .bytes).collect = .ok bytes ∧
      ∀ cut ∈ [Bytes.ofAscii "P6\n1", Bytes.ofAscii "P6\n12 1\n25"], cut <+: bytes ∧ cut ≠ bytes ∧
        ∃ defect detected, read cut = .error (.invalid defect) ∧
          Codec.read cut = .error (.invalid detected) := by
  have hrgb : strip.space = .rgb := rfl
  obtain ⟨bytes, hwrite, hcuts⟩ := exists_defect_of_truncated hrgb
  have hheader : headerBytes .bytes strip.extent = Bytes.ofAscii "P6\n12 1\n255\n" := by
    simp [headerBytes, strip, Decimal.digits]
    decide
  have hbytes : Bytes.ofAscii "P6\n12 1\n255\n" ++ rasterBytes strip .bytes = bytes := by
    rw [← hheader]
    exact Except.ok.inj ((collect_write hrgb .bytes).symm.trans hwrite)
  refine ⟨hrgb, bytes, hwrite, ?_⟩
  intro cut hcut
  have hbegins : cut <+: Bytes.ofAscii "P6\n12 1\n255\n" ∧ cut.length < 12 := by
    revert cut
    decide
  have hstarts : cut <+: bytes := hbytes ▸ hbegins.1.trans (List.prefix_append _ _)
  have hne : cut ≠ bytes := by
    rintro rfl
    have hlength := hbegins.2
    rw [← hbytes, List.length_append] at hlength
    change 12 + _ < 12 at hlength
    omega
  obtain ⟨defect, detected, hread, -, hdetected, -⟩ := hcuts cut hstarts hne
  exact ⟨hstarts, hne, defect, detected, hread, hdetected⟩

end Acutance.Codec.Pnm
