import Acutance.Proofs.Files.Enhance
import Acutance.Proofs.Pnm.Answers

namespace Acutance

variable {bytes : Bytes}

namespace FileFormat

private theorem detect_of_length_lt (hshort : bytes.length < 2) :
    detect bytes = .error (.invalid .undetectable) :=
  if_pos hshort

/-- What the detector finds: too few bytes, a signature, a magic number, or none of them. -/
theorem detect_cases (bytes : Bytes) :
    (bytes.length < 2 ∧ detect bytes = .error (.invalid .undetectable)) ∨
    (∃ rest, bytes = Codec.Png.signature ++ rest) ∨
    (∃ (variant : Codec.Pnm.Variant) (rest : Bytes), bytes = variant.magic ++ rest) ∨
    (2 ≤ bytes.length ∧ detect bytes = .error (.unsupported .format)) := by
  by_cases hshort : bytes.length < 2
  · exact .inl ⟨hshort, detect_of_length_lt hshort⟩
  by_cases hsigned : bytes.take Magic.png.length = Magic.png
  · have hwhole := List.take_append_drop Magic.png.length bytes
    rw [hsigned, Codec.Png.magic_eq_signature] at hwhole
    exact .inr (.inl ⟨_, hwhole.symm⟩)
  cases hmagic : Codec.Pnm.Variant.ofMagic? (bytes.take 2) with
  | some variant =>
    exact .inr (.inr (.inl ⟨variant, _, Codec.Pnm.Variant.eq_magic_append_of_ofMagic? hmagic⟩))
  | none =>
    refine .inr (.inr (.inr ⟨Nat.not_lt.1 hshort, ?_⟩))
    rw [detect, if_neg hshort, if_neg hsigned, Magic.isPnm_eq, hmagic]
    rfl

private theorem detect_eq_png_iff :
    detect bytes = .ok .png ↔ ∃ rest, bytes = Codec.Png.signature ++ rest := by
  constructor
  · intro h
    rcases detect_cases bytes with ⟨-, hrefused⟩ | hsigned | ⟨variant, rest, rfl⟩ | ⟨-, hrefused⟩
    · cases hrefused.symm.trans h
    · exact hsigned
    · cases (Codec.Pnm.detect_magic variant rest).symm.trans h
    · cases hrefused.symm.trans h
  · rintro ⟨rest, rfl⟩
    exact Codec.Png.detect_signature rest

private theorem detect_eq_pnm_iff : detect bytes = .ok .pnm ↔
    ∃ (variant : Codec.Pnm.Variant) (rest : Bytes), bytes = variant.magic ++ rest := by
  constructor
  · intro h
    rcases detect_cases bytes with ⟨-, hrefused⟩ | ⟨rest, rfl⟩ | hmagic | ⟨-, hrefused⟩
    · cases hrefused.symm.trans h
    · cases (Codec.Png.detect_signature rest).symm.trans h
    · exact hmagic
    · cases hrefused.symm.trans h
  · rintro ⟨variant, rest, rfl⟩
    exact Codec.Pnm.detect_magic variant rest

/-- The detector looks at no more than the first bytes. -/
theorem detect_take (bytes : Bytes) : detect (bytes.take detectionBytes) = detect bytes := by
  have hlength : (bytes.take detectionBytes).length < 2 ↔ bytes.length < 2 := by
    rw [List.length_take, detectionBytes]
    omega
  have hsignature : (bytes.take detectionBytes).take Magic.png.length =
      bytes.take Magic.png.length := by
    rw [List.take_take]
    rfl
  have hmagic : (bytes.take detectionBytes).take 2 = bytes.take 2 := by
    rw [List.take_take]
    rfl
  simp only [detect, hlength, hsignature, hmagic]

end FileFormat

namespace Codec

private theorem read_of_detect_eq_pnm (h : FileFormat.detect bytes = .ok .pnm) :
    read bytes = Pnm.read bytes := by
  rw [read, h]
  rfl

private theorem read_of_detect_eq_png (h : FileFormat.detect bytes = .ok .png) :
    read bytes = Png.read bytes := by
  rw [read, h]
  rfl

private theorem read_of_detect_eq_error {e : CodecError} (h : FileFormat.detect bytes = .error e) :
    read bytes = .error e := by
  rw [read, h]
  rfl

namespace Pnm

variable {what : Unsupported}

private theorem headerNumber_ne_unsupported {token : Token} :
    headerNumber token bytes ≠ .error (.unsupported what) := by
  unfold headerNumber
  split <;> nofun

/-- A header can be wrong in many ways, but it is of a kind that is read. -/
theorem Header.read_ne_unsupported : Header.read bytes ≠ .error (.unsupported what) := by
  intro hread
  rcases bind_eq_error_iff.1 hread with hwidth | ⟨⟨width, rest₁⟩, -, hread⟩
  · exact headerNumber_ne_unsupported hwidth
  rcases bind_eq_error_iff.1 hread with hheight | ⟨⟨height, rest₂⟩, -, hread⟩
  · exact headerNumber_ne_unsupported hheight
  rcases bind_eq_error_iff.1 hread with hmaxval | ⟨⟨maxval, rest₃⟩, -, hread⟩
  · exact headerNumber_ne_unsupported hmaxval
  dsimp only at hread
  split at hread
  · cases hread
  · rcases bind_eq_error_iff.1 hread with hcheck | ⟨_, -, hend⟩
    · obtain ⟨_, -, hraster⟩ := mapError_eq_error_iff.1 hcheck
      cases hraster
    · cases hend

/-- Whatever stands behind a magic number, the reader does not take it for an unknown kind of file. -/
theorem read_magic_ne_unsupported (variant : Variant) (rest : Bytes) :
    read (variant.magic ++ rest) ≠ .error (.unsupported what) := by
  intro hread
  rw [read_eq_raster_bind, raster_magic_append] at hread
  rcases bind_eq_error_iff.1 hread with hraster | ⟨_, -, himage⟩
  · rcases bind_eq_error_iff.1 hraster with hheader | ⟨_, -, hsamples⟩
    · exact Header.read_ne_unsupported hheader
    · rcases bind_eq_error_iff.1 hsamples with hsamples | ⟨_, -, hend⟩
      · obtain ⟨_, -, hdefect⟩ := mapError_eq_error_iff.1 hsamples
        cases hdefect
      · cases hend
  · obtain ⟨_, -, hraster⟩ := mapError_eq_error_iff.1 himage
    cases hraster

/-- The reader knows a file by its magic number. -/
theorem exists_magic_iff (hlong : 2 ≤ bytes.length) :
    (∃ (variant : Variant) (rest : Bytes), bytes = variant.magic ++ rest) ↔
      ∀ what, read bytes ≠ .error (.unsupported what) := by
  constructor
  · rintro ⟨variant, rest, rfl⟩ what
    exact read_magic_ne_unsupported variant rest
  · intro hknown
    cases hmagic : Variant.ofMagic? (bytes.take 2) with
    | some variant => exact ⟨variant, _, Variant.eq_magic_append_of_ofMagic? hmagic⟩
    | none =>
      refine absurd ?_ (hknown (.magic (bytes.take 2)))
      simp only [read_eq_raster_bind, raster, if_neg (Nat.not_lt.2 hlong), hmagic]
      rfl

end Pnm

end Codec

namespace Files

private theorem detect_eq {d : Disk} {path : String} (h : d.read path = .ok bytes) :
    detect (m := StateM Disk) path d = (FileFormat.detect bytes, d) := by
  simp only [detect, bind, StateT.bind, Disk.readFile_eq_ok h, FileFormat.detect_take]
  rfl

end Files

/-- A file of two bytes or more is detected as PNM exactly when the reader of PNM knows its kind, and as PNG
exactly when it begins with the signature; it is then read as the format that was detected. The formats
exclude each other. A file of neither format is refused for its format, and one of fewer bytes because it is
too short, by the detector and by the reader of any format alike. The first eight bytes of a file decide,
so the detector finds the same in a file on a disk, of which it sees no more than these, as in all of its
content. -/
theorem detection_agrees :
    (∀ bytes : Bytes, 2 ≤ bytes.length →
      (FileFormat.detect bytes = .ok .pnm ↔
        ∀ what, Codec.Pnm.read bytes ≠ .error (.unsupported what)) ∧
      (FileFormat.detect bytes = .ok .pnm → Codec.read bytes = Codec.Pnm.read bytes) ∧
      (FileFormat.detect bytes = .ok .png ↔ ∃ rest, bytes = Codec.Png.signature ++ rest) ∧
      (FileFormat.detect bytes = .ok .png → Codec.read bytes = Codec.Png.read bytes) ∧
      ((∃ rest, bytes = Codec.Png.signature ++ rest) →
        ∃ what, Codec.Pnm.read bytes = .error (.unsupported what)) ∧
      ((∀ rest, bytes ≠ Codec.Png.signature ++ rest) →
        (∃ what, Codec.Pnm.read bytes = .error (.unsupported what)) →
          FileFormat.detect bytes = .error (.unsupported .format) ∧
            Codec.read bytes = .error (.unsupported .format))) ∧
    (∀ bytes : Bytes, bytes.length < 2 →
      FileFormat.detect bytes = .error (.invalid .undetectable) ∧
        Codec.read bytes = .error (.invalid .undetectable)) ∧
    (∀ bytes bytes' : Bytes, bytes.take 8 = bytes'.take 8 →
      FileFormat.detect bytes = FileFormat.detect bytes') ∧
    ∀ (d : Disk) (path : String) (bytes : Bytes), d.read path = .ok bytes →
      Files.detect (m := StateM Disk) path d = (FileFormat.detect bytes, d) := by
  refine ⟨fun bytes hlong => ?_, fun bytes hshort => ?_, fun bytes bytes' hfirst => ?_,
    fun d path bytes hread => Files.detect_eq hread⟩
  · have hpnm := FileFormat.detect_eq_pnm_iff.trans (Codec.Pnm.exists_magic_iff hlong)
    refine ⟨hpnm, fun hdetect => ?_, FileFormat.detect_eq_png_iff, fun hdetect => ?_,
      fun hsigned => ?_, fun hunsigned hunknown => ?_⟩
    · exact Codec.read_of_detect_eq_pnm hdetect
    · exact Codec.read_of_detect_eq_png hdetect
    · by_contra hknown
      have hdetect := hpnm.2 (not_exists.1 hknown)
      rw [FileFormat.detect_eq_png_iff.2 hsigned] at hdetect
      cases hdetect
    · have hrefused : FileFormat.detect bytes = .error (.unsupported .format) := by
        rcases FileFormat.detect_cases bytes with
          ⟨hshort, -⟩ | ⟨rest, hsigned⟩ | ⟨variant, rest, rfl⟩ | ⟨-, hrefused⟩
        · exact absurd hshort (Nat.not_lt.2 hlong)
        · exact absurd hsigned (hunsigned rest)
        · obtain ⟨what, hwhat⟩ := hunknown
          exact absurd hwhat (Codec.Pnm.read_magic_ne_unsupported variant rest)
        · exact hrefused
      exact ⟨hrefused, Codec.read_of_detect_eq_error hrefused⟩
  · have hdetect := FileFormat.detect_of_length_lt hshort
    exact ⟨hdetect, Codec.read_of_detect_eq_error hdetect⟩
  · rw [← FileFormat.detect_take bytes, ← FileFormat.detect_take bytes']
    exact congrArg FileFormat.detect hfirst

theorem detection_agrees_brief :
    Codec.read [0x50, 0x36] = Codec.Pnm.read [0x50, 0x36] ∧
    (∃ what, Codec.Pnm.read Codec.Png.signature = .error (.unsupported what)) ∧
    Codec.read Codec.Png.signature = Codec.Png.read Codec.Png.signature ∧
    Codec.Pnm.read [0x50, 0x34, 0x20, 0x38] = .error (.unsupported (.magic [0x50, 0x34])) ∧
    FileFormat.detect [0x50, 0x34, 0x20, 0x38] = .error (.unsupported .format) ∧
    Codec.read [0x50, 0x34, 0x20, 0x38] = .error (.unsupported .format) ∧
    Codec.read [0x50] = .error (.invalid .undetectable) ∧
    FileFormat.detect (Codec.Png.signature ++ [7]) = FileFormat.detect (Codec.Png.signature ++ [8]) ∧
    Files.detect (m := StateM Disk) "in.ppm" Files.shelf =
      (FileFormat.detect Files.scribble, Files.shelf) := by
  obtain ⟨hlong, hshort, hfirst, hdisk⟩ := detection_agrees
  have hunknown : Codec.Pnm.read [0x50, 0x34, 0x20, 0x38] =
      .error (.unsupported (.magic [0x50, 0x34])) := rfl
  have hunsigned (rest : Bytes) : ([0x50, 0x34, 0x20, 0x38] : Bytes) ≠ Codec.Png.signature ++ rest := by
    intro h
    cases (List.cons.inj h).1
  obtain ⟨-, hpnm, -⟩ := hlong [0x50, 0x36] (Nat.le_refl 2)
  obtain ⟨-, -, -, hpng, hexcluded, -⟩ := hlong Codec.Png.signature (by decide)
  obtain ⟨-, -, -, -, -, hother⟩ := hlong [0x50, 0x34, 0x20, 0x38] (by decide)
  obtain ⟨hdetect, hread⟩ := hother hunsigned ⟨_, hunknown⟩
  exact ⟨hpnm rfl, hexcluded ⟨[], rfl⟩, hpng rfl, hunknown, hdetect, hread, (hshort [0x50] (by decide)).2,
    hfirst _ _ rfl, hdisk Files.shelf "in.ppm" Files.scribble (by decide +kernel)⟩

end Acutance
