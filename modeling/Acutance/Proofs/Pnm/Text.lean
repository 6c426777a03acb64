import Acutance.Proofs.Pnm.Header

namespace Acutance.Codec.Pnm

/-- The bytes behind the magic number of a text file: the numbers of a valid header and one number for
each sample that the extent asks for. What stands behind the last of them is of no account. -/
structure TextFile (variant : Variant) (bytes : Bytes) (h : Header) (values : List Nat) : Prop where
  valid : h.Valid
  length_eq : values.length = h.extent.area * variant.channels
  scans : ∃ tail, Scans (h.numbers ++ values) bytes tail

theorem scans_append_iff {first : Nat} {left right : List Nat} {bytes rest : Bytes} :
    Scans (first :: left ++ right) bytes rest ↔
      ∃ mid, Scans (first :: left) bytes mid ∧ Scans right mid rest := by
  induction left generalizing first bytes with
  | nil =>
    simp only [List.cons_append, List.nil_append, scans_cons_iff .sample, scans_nil_iff]
    constructor
    · rintro ⟨mid, hnumber, hright⟩
      exact ⟨mid, ⟨mid, hnumber, rfl, (number_eq_ok_iff.1 hnumber).1⟩, hright⟩
    · rintro ⟨mid, ⟨_, hnumber, rfl, -⟩, hright⟩
      exact ⟨_, hnumber, hright⟩
  | cons second left ih =>
    rw [List.cons_append, scans_cons_iff .sample]
    simp only [ih]
    constructor
    · rintro ⟨start, hnumber, mid, hleft, hright⟩
      exact ⟨mid, (scans_cons_iff .sample).2 ⟨start, hnumber, hleft⟩, hright⟩
    · rintro ⟨mid, hleft, hright⟩
      obtain ⟨start, hnumber, hleft⟩ := (scans_cons_iff .sample).1 hleft
      exact ⟨start, hnumber, mid, hleft, hright⟩

/-- Samples are read from text as long as numbers are scanned off it. -/
theorem textSamples_eq_ok_iff {needed left : Nat} {acc samples : Array Sample} {bytes : Bytes}
    (hends : EndsDigits bytes) : textSamples needed left acc bytes = .ok samples ↔
      ∃ values : List Nat, values.length = left ∧ (∃ tail, Scans values bytes tail) ∧
        samples.toList = acc.toList ++ values.map fun (n : Nat) => narrow n := by
  induction left generalizing acc bytes with
  | zero =>
    constructor
    · intro h
      obtain rfl := Except.ok.inj h
      exact ⟨[], rfl, ⟨bytes, scans_nil_iff.2 ⟨rfl, hends⟩⟩, by simp⟩
    · rintro ⟨values, hlength, -, hsamples⟩
      obtain rfl := List.length_eq_zero_iff.1 hlength
      rw [textSamples, Array.toList_inj.1 (hsamples.trans (List.append_nil _))]
  | succ left ih =>
    rcases hnumber : number .sample bytes with ⟨n | n, rest⟩
    · constructor
      · intro h
        simp only [textSamples, hnumber] at h
        split at h <;> cases h
      · rintro ⟨_ | ⟨n, values⟩, hlength, ⟨tail, hscans⟩, -⟩
        · cases hlength
        · obtain ⟨mid, hread, -⟩ := (scans_cons_iff .sample).1 hscans
          rw [hnumber] at hread
          cases hread
    · simp only [textSamples, hnumber, ih (number_eq_ok_iff.1 hnumber).1]
      constructor
      · rintro ⟨values, hlength, ⟨tail, hscans⟩, hsamples⟩
        exact ⟨n :: values, by simp [hlength],
          ⟨tail, (scans_cons_iff .sample).2 ⟨rest, hnumber, hscans⟩⟩, by simp [hsamples]⟩
      · rintro ⟨_ | ⟨m, values⟩, hlength, ⟨tail, hscans⟩, hsamples⟩
        · cases hlength
        · obtain ⟨mid, hread, hrest⟩ := (scans_cons_iff .sample).1 hscans
          rw [hnumber] at hread
          obtain ⟨hvalue, rfl⟩ := Prod.mk.inj hread
          obtain rfl := Except.ok.inj hvalue
          exact ⟨values, by simpa using hlength, ⟨tail, hrest⟩, by simpa using hsamples⟩

theorem read_text_eq_ok_iff {variant : Variant} (htext : variant.isText = true) {rest : Bytes}
    {image : Image} : read (variant.magic ++ rest) = .ok image ↔
      ∃ h values, TextFile variant rest h values ∧ Shows image variant h values := by
  have hsamples (h : Header) (raster : Bytes) : readSamples variant h raster =
      textSamples (h.extent.area * variant.channels) (h.extent.area * variant.channels) #[]
        raster := if_pos htext
  rw [read_eq_ok_iff]
  constructor
  · rintro ⟨h, raster, samples, hheader, hread, hextent, hspace, himage⟩
    obtain ⟨hvalid, hnumbers⟩ := Header.read_eq_ok_iff.1 hheader
    rw [hsamples, textSamples_eq_ok_iff hnumbers.endsDigits] at hread
    obtain ⟨values, hlength, ⟨tail, hscans⟩, hvalues⟩ := hread
    refine ⟨h, values, ⟨hvalid, hlength, tail, scans_append_iff.2 ⟨raster, hnumbers, hscans⟩⟩,
      hextent, hspace, ?_⟩
    rw [himage, hvalues, List.nil_append, List.flatMap_map]
  · rintro ⟨h, values, ⟨hvalid, hlength, tail, hscans⟩, hextent, hspace, himage⟩
    obtain ⟨raster, hnumbers, hscans⟩ := scans_append_iff.1 hscans
    refine ⟨h, raster, (values.map fun (n : Nat) => narrow n).toArray,
      Header.read_eq_ok_iff.2 ⟨hvalid, hnumbers⟩, ?_, hextent, hspace, ?_⟩
    · rw [hsamples, textSamples_eq_ok_iff hnumbers.endsDigits]
      exact ⟨values, hlength, ⟨tail, hscans⟩, rfl⟩
    · rw [himage, List.flatMap_map]

/-- A text file is read when the bytes behind its magic number are the numbers of a valid header and
of its samples, with blanks and comments between them. The image shows the samples; neither what stands
between the numbers nor what stands behind the last of them has any part in it. -/
theorem read_ok_iff_textFile {variant : Variant} (htext : variant.isText = true) (rest : Bytes) :
    ((∃ image, read (variant.magic ++ rest) = .ok image) ↔
      ∃ h values, TextFile variant rest h values) ∧
    ∀ h values, TextFile variant rest h values → ∃ image, Shows image variant h values ∧
      ∀ rest', TextFile variant rest' h values → read (variant.magic ++ rest') = .ok image := by
  have hresult : ∀ h values, TextFile variant rest h values → ∃ image,
      Shows image variant h values ∧
        ∀ rest', TextFile variant rest' h values → read (variant.magic ++ rest') = .ok image := by
    intro h values hfile
    obtain ⟨image, hshows⟩ := exists_shows hfile.valid hfile.length_eq
    exact ⟨image, hshows, fun rest' hfile' =>
      (read_text_eq_ok_iff htext).2 ⟨h, values, hfile', hshows⟩⟩
  refine ⟨⟨?_, ?_⟩, hresult⟩
  · rintro ⟨image, himage⟩
    obtain ⟨h, values, hfile, -⟩ := (read_text_eq_ok_iff htext).1 himage
    exact ⟨h, values, hfile⟩
  · rintro ⟨h, values, hfile⟩
    obtain ⟨image, -, hread⟩ := hresult h values hfile
    exact ⟨image, hread rest hfile⟩

/-- Two gray pixels, with a comment before the first number and another between the samples. -/
def commented : Bytes := Bytes.ofAscii "# 8\n2 1 15 007#\n9x"

private theorem commented_textFile : TextFile .grayText commented ⟨⟨2, 1⟩, 15⟩ [7, 9] :=
  ⟨by decide, rfl, Bytes.ofAscii "x", by decide⟩

theorem read_ok_iff_textFile_commented : Variant.grayText.isText = true ∧
    TextFile .grayText commented ⟨⟨2, 1⟩, 15⟩ [7, 9] ∧
      ∃ image, Shows image .grayText ⟨⟨2, 1⟩, 15⟩ [7, 9] ∧
        read (Variant.grayText.magic ++ commented) = .ok image := by
  have htext : Variant.grayText.isText = true := rfl
  obtain ⟨image, hshows, hread⟩ :=
    (read_ok_iff_textFile htext commented).2 _ _ commented_textFile
  exact ⟨htext, commented_textFile, image, hshows, hread _ commented_textFile⟩

end Acutance.Codec.Pnm
