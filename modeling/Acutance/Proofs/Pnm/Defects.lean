import Acutance.Proofs.Pnm.Answers
import Acutance.Proofs.Pnm.Refused

namespace Acutance.Codec.Pnm

variable {variant : Variant} {h : Header} {needed left count : Nat} {bytes raster rest : Bytes}
  {defect : Defect} {e : CodecError}

/-- A raster that holds `count` numbers, which are fewer than it needs, and goes on with `rest`. -/
structure HoldsFew (needed count : Nat) (raster rest : Bytes) : Prop where
  count_lt : count < needed
  scans : ∃ values : List Nat, values.length = count ∧ Scans values raster rest

/-- What the reader makes of a raster that goes on with `rest` behind `count` numbers. -/
inductive SampleDefect (needed count : Nat) (rest : Bytes) : Defect → Prop where
  | trailing (htrailing : Trailing rest) : SampleDefect needed count rest (.truncatedSamples count needed)
  | foreign {tail : Bytes} (hforeign : Foreign rest tail) :
      SampleDefect needed count rest (.missing .sample)
  | oversized {tail : Bytes} (hoversized : Oversized rest tail) (hmore : ∃ b ∈ tail, isBlank b = false) :
      SampleDefect needed count rest (.outOfRange .sample)
  | oversizedLast {tail : Bytes} (hoversized : Oversized rest tail)
      (hblank : ∀ b ∈ tail, isBlank b = true) : SampleDefect needed count rest (.truncatedSamples count needed)

private theorem sampleDefect_truncated_iff {k n : Nat} :
    SampleDefect needed count rest (.truncatedSamples k n) ↔ k = count ∧ n = needed ∧
      (Trailing rest ∨ ∃ tail, Oversized rest tail ∧ ∀ b ∈ tail, isBlank b = true) := by
  constructor
  · intro h
    cases h with
    | trailing htrailing => exact ⟨rfl, rfl, .inl htrailing⟩
    | oversizedLast hoversized hblank => exact ⟨rfl, rfl, .inr ⟨_, hoversized, hblank⟩⟩
  · rintro ⟨rfl, rfl, htrailing | ⟨tail, hoversized, hblank⟩⟩
    · exact .trailing htrailing
    · exact .oversizedLast hoversized hblank

private theorem sampleDefect_outOfRange_iff : SampleDefect needed count rest (.outOfRange .sample) ↔
    ∃ tail, Oversized rest tail ∧ ∃ b ∈ tail, isBlank b = false := by
  constructor
  · intro h
    cases h with
    | oversized hoversized hmore => exact ⟨_, hoversized, hmore⟩
  · rintro ⟨tail, hoversized, hmore⟩
    exact .oversized hoversized hmore

private theorem sampleDefect_missing_iff :
    SampleDefect needed count rest (.missing .sample) ↔ ∃ tail, Foreign rest tail := by
  constructor
  · intro h
    cases h with
    | foreign hforeign => exact ⟨_, hforeign⟩
  · rintro ⟨tail, hforeign⟩
    exact .foreign hforeign

/-- A number that is refused is a defect of its own, unless it is followed by blanks alone. -/
theorem sampleDefect_iff : SampleDefect needed count rest defect ↔
    ∃ reason tail, number .sample rest = (.error reason, tail) ∧
      defect = if tail.all isBlank then .truncatedSamples count needed else reason := by
  simp only [number_eq_error_iff]
  constructor
  · intro h
    cases h with
    | trailing htrailing => exact ⟨_, [], .inl ⟨rfl, .inl ⟨htrailing, rfl⟩⟩, rfl⟩
    | @foreign tail hforeign =>
      refine ⟨_, tail, .inl ⟨rfl, .inr hforeign⟩, ?_⟩
      rw [if_neg hforeign.not_all_isBlank]
    | @oversized tail hoversized hmore =>
      refine ⟨_, tail, .inr ⟨rfl, hoversized⟩, ?_⟩
      rw [if_neg (by simpa using hmore)]
    | @oversizedLast tail hoversized hblank =>
      refine ⟨_, tail, .inr ⟨rfl, hoversized⟩, ?_⟩
      rw [if_pos (by simpa using hblank)]
  · rintro ⟨reason, tail, ⟨rfl, ⟨htrailing, rfl⟩ | hforeign⟩ | ⟨rfl, hoversized⟩, rfl⟩
    · exact .trailing htrailing
    · rw [if_neg hforeign.not_all_isBlank]
      exact .foreign hforeign
    · split
      · next hblank => exact .oversizedLast hoversized (by simpa using hblank)
      · next hmore => exact .oversized hoversized (by simpa using hmore)

/-- A raster holds too few numbers when nothing is read of it yet, or when that is so behind its first. -/
theorem holdsFew_succ_iff (hends : EndsDigits bytes) : HoldsFew (left + 1) count bytes rest ↔
    count = 0 ∧ rest = bytes ∨
      ∃ n mid more, number .sample bytes = (.ok n, mid) ∧ count = more + 1 ∧
        HoldsFew left more mid rest := by
  constructor
  · rintro ⟨hcount, _ | ⟨n, values⟩, rfl, hscans⟩
    · exact .inl ⟨rfl, (scans_nil_iff.1 hscans).1.symm⟩
    · obtain ⟨mid, hnumber, hrest⟩ := (scans_cons_iff .sample).1 hscans
      exact .inr ⟨n, mid, values.length, hnumber, rfl, Nat.lt_of_succ_lt_succ hcount, values, rfl, hrest⟩
  · rintro (⟨rfl, rfl⟩ | ⟨n, mid, more, hnumber, rfl, hmore, values, hlength, hrest⟩)
    · exact ⟨Nat.succ_pos left, [], rfl, scans_nil_iff.2 ⟨rfl, hends⟩⟩
    · exact ⟨Nat.succ_lt_succ hmore, n :: values, congrArg Nat.succ hlength,
        (scans_cons_iff .sample).2 ⟨mid, hnumber, hrest⟩⟩

private theorem textSamples_of_number_error {acc : Array Sample} {reason : Defect} {tail : Bytes}
    (hnumber : number .sample bytes = (.error reason, tail)) :
    textSamples needed (left + 1) acc bytes =
      .error (if tail.all isBlank then .truncatedSamples acc.size needed else reason) := by
  simp only [textSamples, hnumber]
  split <;> rfl

/-- Samples are refused behind fewer numbers than are left to read. -/
theorem textSamples_eq_error_iff {acc : Array Sample} (hends : EndsDigits bytes) :
    textSamples needed left acc bytes = .error defect ↔
      ∃ count rest, HoldsFew left count bytes rest ∧
        SampleDefect needed (acc.size + count) rest defect := by
  induction left generalizing acc bytes with
  | zero =>
    constructor
    · nofun
    · rintro ⟨count, rest, hfew, -⟩
      exact absurd hfew.count_lt (Nat.not_lt_zero count)
  | succ left ih =>
    simp only [holdsFew_succ_iff hends]
    rcases hnumber : number .sample bytes with ⟨reason | n, mid⟩
    · rw [textSamples_of_number_error hnumber]
      constructor
      · intro h
        exact ⟨0, bytes, .inl ⟨rfl, rfl⟩,
          sampleDefect_iff.2 ⟨reason, mid, hnumber, (Except.error.inj h).symm⟩⟩
      · rintro ⟨count, rest, ⟨rfl, rfl⟩ | ⟨_, _, _, hread, -⟩, h⟩
        · obtain ⟨_, _, hrefused, rfl⟩ := sampleDefect_iff.1 h
          obtain ⟨hreason, rfl⟩ := Prod.mk.inj (hnumber.symm.trans hrefused)
          rw [Except.error.inj hreason, Nat.add_zero]
        · cases hread
    · have hmid := (number_eq_ok_iff.1 hnumber).1
      simp only [textSamples, hnumber, ih hmid, Array.size_push]
      constructor
      · rintro ⟨more, rest, hfew, h⟩
        refine ⟨more + 1, rest, .inr ⟨n, mid, more, rfl, rfl, hfew⟩, ?_⟩
        rwa [← Nat.add_assoc, Nat.add_right_comm]
      · rintro ⟨count, rest, ⟨rfl, rfl⟩ | ⟨_, _, more, hread, rfl, hfew⟩, h⟩
        · obtain ⟨reason, tail, hrefused, -⟩ := sampleDefect_iff.1 h
          rw [hnumber] at hrefused
          cases hrefused
        · obtain ⟨-, rfl⟩ := Prod.mk.inj hread
          refine ⟨more, rest, hfew, ?_⟩
          rwa [← Nat.add_assoc, Nat.add_right_comm] at h

/-- Behind a header that is read, a file is refused when its samples are. -/
theorem read_eq_error_iff_of_header (hheader : Header.read bytes = .ok (h, raster)) :
    read (variant.magic ++ bytes) = .error e ↔
      ∃ defect, e = .invalid defect ∧ readSamples variant h raster = .error defect := by
  have hraster : rasterOf variant bytes = .error e ↔
      ∃ defect, e = .invalid defect ∧ readSamples variant h raster = .error defect := by
    have hbehind : rasterOf variant bytes = (readSamples variant h raster).mapError .invalid >>=
        fun samples => pure (h.extent, spread variant samples) := by
      rw [rasterOf, hheader]
      rfl
    rw [hbehind, bind_eq_error_iff, mapError_eq_error_iff]
    constructor
    · rintro (⟨defect, hdefect, rfl⟩ | ⟨_, -, hend⟩)
      · exact ⟨defect, rfl, hdefect⟩
      · cases hend
    · rintro ⟨defect, rfl, hdefect⟩
      exact .inl ⟨defect, hdefect, rfl⟩
  rw [read_eq_raster_bind, raster_magic_append, bind_eq_error_iff, hraster]
  constructor
  · rintro (hrefused | ⟨⟨extent, samples⟩, hread, himage⟩)
    · exact hrefused
    · obtain ⟨image, hmade⟩ := exists_ofSamples_of_rasterOf hread
      rw [hmade] at himage
      cases himage
  · exact .inl

/-- A text file with a valid header is refused for its raster alone. -/
theorem read_text_eq_error_iff (htext : variant.isText = true) (hvalid : h.Valid)
    (hscans : Scans h.numbers bytes raster) : read (variant.magic ++ bytes) = .error e ↔
      ∃ defect, e = .invalid defect ∧
        ∃ count rest, HoldsFew (h.extent.area * variant.channels) count raster rest ∧
          SampleDefect (h.extent.area * variant.channels) count rest defect := by
  have hsamples : readSamples variant h raster = textSamples (h.extent.area * variant.channels)
      (h.extent.area * variant.channels) #[] raster := if_pos htext
  simp only [read_eq_error_iff_of_header (Header.read_eq_ok_iff.2 ⟨hvalid, hscans⟩), hsamples,
    textSamples_eq_error_iff hscans.endsDigits, List.size_toArray, List.length_nil, Nat.zero_add]

/-- A text file with a valid header is called truncated when nothing but separators follows the numbers of
its raster, or nothing but one that is too large and blanks. A number that is too large is called out of
range when anything but blanks follows it, and a byte that begins no number is called a missing one. There
is no other reason to refuse such a file. -/
theorem read_text_refused_iff (htext : variant.isText = true) (hvalid : h.Valid)
    (hscans : Scans h.numbers bytes raster) :
    (∀ k n, read (variant.magic ++ bytes) = .error (.invalid (.truncatedSamples k n)) ↔
      n = h.extent.area * variant.channels ∧ ∃ rest, HoldsFew n k raster rest ∧
        (Trailing rest ∨ ∃ tail, Oversized rest tail ∧ ∀ b ∈ tail, isBlank b = true)) ∧
    (read (variant.magic ++ bytes) = .error (.invalid (.outOfRange .sample)) ↔
      ∃ k rest tail, HoldsFew (h.extent.area * variant.channels) k raster rest ∧
        Oversized rest tail ∧ ∃ b ∈ tail, isBlank b = false) ∧
    (read (variant.magic ++ bytes) = .error (.invalid (.missing .sample)) ↔
      ∃ k rest tail, HoldsFew (h.extent.area * variant.channels) k raster rest ∧ Foreign rest tail) ∧
    ∀ e, read (variant.magic ++ bytes) = .error e →
      (∃ k n, e = .invalid (.truncatedSamples k n) ∧
        e.message = s!"invalid image data: truncated raster: {k} of {n} samples") ∨
      (e = .invalid (.outOfRange .sample) ∧ e.message = "invalid image data: sample out of range") ∨
      (e = .invalid (.missing .sample) ∧ e.message = "invalid image data: expected sample") := by
  have hread (e : CodecError) := read_text_eq_error_iff (e := e) htext hvalid hscans
  have hdefect (d : Defect) : read (variant.magic ++ bytes) = .error (.invalid d) ↔
      ∃ k rest, HoldsFew (h.extent.area * variant.channels) k raster rest ∧
        SampleDefect (h.extent.area * variant.channels) k rest d := by
    simp only [hread, CodecError.invalid.injEq, exists_eq_left']
  refine ⟨?_, ?_, ?_, ?_⟩
  · intro k n
    rw [hdefect]
    simp only [sampleDefect_truncated_iff]
    constructor
    · rintro ⟨_, rest, hfew, rfl, rfl, hrest⟩
      exact ⟨rfl, rest, hfew, hrest⟩
    · rintro ⟨rfl, rest, hfew, hrest⟩
      exact ⟨k, rest, hfew, rfl, rfl, hrest⟩
  · simp only [hdefect, sampleDefect_outOfRange_iff, exists_and_left]
  · simp only [hdefect, sampleDefect_missing_iff, exists_and_left]
  · intro e he
    obtain ⟨_, rfl, k, rest, -, hreason⟩ := (hread e).1 he
    cases hreason with
    | trailing => exact .inl ⟨k, _, rfl, rfl⟩
    | foreign => exact .inr (.inr ⟨rfl, rfl⟩)
    | oversized => exact .inr (.inl ⟨rfl, rfl⟩)
    | oversizedLast => exact .inl ⟨k, _, rfl, rfl⟩

/-- Two gray pixels, of which the second is too large by one and has a comment behind it. -/
def blown : Bytes := Bytes.ofAscii "2 1 9 7 4294967296#"

theorem read_text_refused_iff_blown : Variant.grayText.isText = true ∧
    (⟨⟨2, 1⟩, 9⟩ : Header).Valid ∧ Scans [2, 1, 9] blown (Bytes.ofAscii " 7 4294967296#") ∧
      read (Variant.grayText.magic ++ blown) = .error (.invalid (.outOfRange .sample)) := by
  have htext : Variant.grayText.isText = true := rfl
  have hvalid : (⟨⟨2, 1⟩, 9⟩ : Header).Valid := by decide
  have hscans : Scans [2, 1, 9] blown (Bytes.ofAscii " 7 4294967296#") := by decide
  have hfew : HoldsFew 2 1 (Bytes.ofAscii " 7 4294967296#") (Bytes.ofAscii " 4294967296#") :=
    ⟨by decide, [7], rfl, by decide⟩
  have hoversized : Oversized (Bytes.ofAscii " 4294967296#") (Bytes.ofAscii "#") :=
    (number_eq_outOfRange_iff .sample).1 (by decide)
  obtain ⟨-, hrange, -, -⟩ := read_text_refused_iff htext hvalid hscans
  exact ⟨htext, hvalid, hscans, hrange.2 ⟨1, _, _, hfew, hoversized, commentByte, by decide, rfl⟩⟩

/-- One gray pixel that is too large by one, and nothing behind it. -/
def clipped : Bytes := Bytes.ofAscii "1 1 255 4294967296"

/-- The only number of a raster is too large, and the raster is called truncated. -/
theorem read_clipped_truncated : (⟨⟨1, 1⟩, 255⟩ : Header).Valid ∧
    Scans [1, 1, 255] clipped (Bytes.ofAscii " 4294967296") ∧
    HoldsFew 1 0 (Bytes.ofAscii " 4294967296") (Bytes.ofAscii " 4294967296") ∧
    Oversized (Bytes.ofAscii " 4294967296") [] ∧ ¬ Trailing (Bytes.ofAscii " 4294967296") ∧
      read (Variant.grayText.magic ++ clipped) = .error (.invalid (.truncatedSamples 0 1)) := by
  have hvalid : (⟨⟨1, 1⟩, 255⟩ : Header).Valid := by decide
  have hscans : Scans [1, 1, 255] clipped (Bytes.ofAscii " 4294967296") := by decide
  have hfew : HoldsFew 1 0 (Bytes.ofAscii " 4294967296") (Bytes.ofAscii " 4294967296") :=
    ⟨by decide, [], rfl, by decide⟩
  have hoversized : Oversized (Bytes.ofAscii " 4294967296") [] :=
    (number_eq_outOfRange_iff .sample).1 (by decide)
  refine ⟨hvalid, hscans, hfew, hoversized, ?_, ?_⟩
  · rw [← skipSeparators_eq_nil_iff]
    decide
  · exact (read_text_eq_error_iff rfl hvalid hscans).2
      ⟨_, rfl, 0, _, hfew, .oversizedLast hoversized nofun⟩

end Acutance.Codec.Pnm
