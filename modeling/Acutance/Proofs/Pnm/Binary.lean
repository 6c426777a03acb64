import Acutance.Proofs.Pnm.Header
import Mathlib.Data.List.Basic

namespace Acutance.Codec.Pnm

/-- The bytes behind the magic number of a file with a raster of bytes: the numbers of a valid header,
a single blank, and bytes enough for each sample that the extent asks for. -/
structure BinaryFile (variant : Variant) (bytes : Bytes) (h : Header) (raster : Bytes) : Prop where
  valid : h.Valid
  layout : ∃ text blank, bytes = text ++ blank :: raster ∧ Spells h.numbers text ∧
    isBlank blank = true
  enough : h.extent.area * variant.channels * h.sampleBytes ≤ raster.length

/-- The first numbers of a raster. Each takes the same number of bytes, the highest of them first. -/
def rasterNumbers (count sampleBytes : Nat) (raster : Bytes) : List Nat :=
  (List.range count).map fun i => Bytes.toNat ((raster.drop (sampleBytes * i)).take sampleBytes)

theorem Header.sampleBytes_eq (h : Header) : h.sampleBytes = 1 ∨ h.sampleBytes = 2 := by
  unfold sampleBytes
  split
  · exact Or.inl rfl
  · exact Or.inr rfl

theorem BinaryFile.of_scans {variant : Variant} {bytes raster : Bytes} {h : Header} {blank : UInt8}
    (hvalid : h.Valid) (hscans : Scans h.numbers bytes (blank :: raster))
    (hblank : isBlank blank = true)
    (henough : h.extent.area * variant.channels * h.sampleBytes ≤ raster.length) :
    BinaryFile variant bytes h raster := by
  obtain ⟨text, htext, hspells, -⟩ := hscans
  exact ⟨hvalid, ⟨text, blank, htext, hspells, hblank⟩, henough⟩

private theorem BinaryFile.exists_scans {variant : Variant} {bytes raster : Bytes} {h : Header}
    (hfile : BinaryFile variant bytes h raster) :
    ∃ blank, isBlank blank = true ∧ Scans h.numbers bytes (blank :: raster) := by
  obtain ⟨text, blank, htext, hspells, hblank⟩ := hfile.layout
  refine ⟨blank, hblank, text, htext, hspells, fun b hb => ?_⟩
  obtain rfl : blank = b := by simpa using hb
  exact isDigit_of_isBlank hblank

theorem length_rasterNumbers (count sampleBytes : Nat) (raster : Bytes) :
    (rasterNumbers count sampleBytes raster).length = count := by
  simp [rasterNumbers]

/-- Bytes behind the numbers of a raster have no part in them. -/
theorem rasterNumbers_append {count sampleBytes : Nat} {raster : Bytes} (extra : Bytes)
    (henough : count * sampleBytes ≤ raster.length) :
    rasterNumbers count sampleBytes (raster ++ extra) =
      rasterNumbers count sampleBytes raster := by
  refine List.map_congr_left fun i hi => ?_
  have hlast : sampleBytes * i + sampleBytes ≤ raster.length := by
    have hrows : sampleBytes * (i + 1) ≤ sampleBytes * count :=
      Nat.mul_le_mul_left _ (List.mem_range.1 hi)
    rw [Nat.mul_comm count] at henough
    rw [Nat.mul_succ] at hrows
    omega
  rw [List.drop_append_of_le_length (by omega), List.take_append_of_le_length]
  rw [List.length_drop]
  omega

theorem drop_take_one {raster : Bytes} {i : Nat} (hi : i < raster.length) :
    (raster.drop (1 * i)).take 1 = [raster[i]] := by
  rw [Nat.one_mul, List.drop_eq_getElem_cons hi]
  rfl

/-- The number of a raster that takes one or two bytes is the sample that is read from them. -/
theorem byteSample_eq {count sampleBytes i : Nat} {raster : Bytes}
    (hsize : sampleBytes = 1 ∨ sampleBytes = 2) (henough : count * sampleBytes ≤ raster.length)
    (hi : i < count) : byteSample sampleBytes (raster.take (count * sampleBytes)).toArray i =
      narrow (Bytes.toNat ((raster.drop (sampleBytes * i)).take sampleBytes)) := by
  rcases hsize with rfl | rfl
  · have hplace : i < raster.length := by omega
    rw [byteSample, if_pos rfl, drop_take_one hplace]
    simp [Bytes.toNat, hi, hplace]
  · have hplace : 2 * i + 1 < raster.length := by omega
    have hfirst : 2 * i < raster.length := by omega
    have hlow : 2 * i + 1 < count * 2 := by omega
    have hhigh : 2 * i < count * 2 := by omega
    have hbytes : (raster.drop (2 * i)).take 2 = [raster[2 * i], raster[2 * i + 1]] := by
      rw [List.drop_eq_getElem_cons hfirst, List.drop_eq_getElem_cons hplace]
      rfl
    rw [byteSample, if_neg (by decide), hbytes]
    simp [Bytes.toNat, hlow, hhigh, hplace, hfirst]

/-- Samples are read from bytes behind a blank when there are enough of them. -/
theorem byteSamples_eq_ok_iff {needed sampleBytes : Nat} {bytes : Bytes} {samples : Array Sample}
    (hsize : sampleBytes = 1 ∨ sampleBytes = 2) :
    byteSamples needed sampleBytes bytes = .ok samples ↔ ∃ blank raster, bytes = blank :: raster ∧
      isBlank blank = true ∧ needed * sampleBytes ≤ raster.length ∧
        samples.toList =
          (rasterNumbers needed sampleBytes raster).map fun (n : Nat) => narrow n := by
  have hvalues {raster : Bytes} (henough : needed * sampleBytes ≤ raster.length) :
      (Array.ofFn fun i : Fin needed => byteSample sampleBytes
        (raster.take (needed * sampleBytes)).toArray i).toList =
          (rasterNumbers needed sampleBytes raster).map fun (n : Nat) => narrow n := by
    apply List.ext_getElem
    · simp [rasterNumbers]
    · intro i hi _
      have hi' : i < needed := by simpa using hi
      simp [rasterNumbers, byteSample_eq hsize henough hi']
  constructor
  · intro h
    cases bytes with
    | nil => cases h
    | cons blank raster =>
      simp only [byteSamples] at h
      split at h
      · next hblank =>
        split at h
        · cases h
        · next hlength =>
          obtain rfl := Except.ok.inj h
          have henough := Nat.le_of_not_lt hlength
          exact ⟨blank, raster, rfl, hblank, henough, hvalues henough⟩
      · cases h
  · rintro ⟨blank, raster, rfl, hblank, henough, hsamples⟩
    rw [byteSamples, if_pos hblank, if_neg (Nat.not_lt.2 henough)]
    exact congrArg Except.ok (Array.toList_inj.1 ((hvalues henough).trans hsamples.symm))

theorem read_binary_eq_ok_iff {variant : Variant} (hbinary : variant.isText = false) {rest : Bytes}
    {image : Image} : read (variant.magic ++ rest) = .ok image ↔
      ∃ h raster, BinaryFile variant rest h raster ∧ Shows image variant h
        (rasterNumbers (h.extent.area * variant.channels) h.sampleBytes raster) := by
  have hsamples (h : Header) (bytes : Bytes) : readSamples variant h bytes =
      byteSamples (h.extent.area * variant.channels) h.sampleBytes bytes := by
    simp [readSamples, hbinary]
  simp only [read_eq_ok_iff, Header.read_eq_ok_iff, hsamples,
    byteSamples_eq_ok_iff (Header.sampleBytes_eq _)]
  constructor
  · rintro ⟨h, _, samples, ⟨hvalid, hscans⟩, ⟨blank, raster, rfl, hblank, henough, hvalues⟩,
      hextent, hspace, himage⟩
    refine ⟨h, raster, .of_scans hvalid hscans hblank henough, hextent, hspace, ?_⟩
    rw [himage, hvalues, List.flatMap_map]
  · rintro ⟨h, raster, hfile, hextent, hspace, himage⟩
    obtain ⟨blank, hblank, hscans⟩ := hfile.exists_scans
    refine ⟨h, blank :: raster, Array.mk ((rasterNumbers (h.extent.area * variant.channels)
      h.sampleBytes raster).map fun (n : Nat) => narrow n), ⟨hfile.valid, hscans⟩,
      ⟨blank, raster, rfl, hblank, hfile.enough, rfl⟩, hextent, hspace, ?_⟩
    rw [himage, List.flatMap_map]

private theorem BinaryFile.append {variant : Variant} {bytes raster : Bytes} {h : Header}
    (hfile : BinaryFile variant bytes h raster) (extra : Bytes) :
    BinaryFile variant (bytes ++ extra) h (raster ++ extra) := by
  obtain ⟨hvalid, ⟨text, blank, rfl, hspells, hblank⟩, henough⟩ := hfile
  refine ⟨hvalid, ⟨text, blank, by simp, hspells, hblank⟩, ?_⟩
  rw [List.length_append]
  omega

/-- The largest number that a raster can hold. -/
def Header.highest (h : Header) : Nat := if h.maxval < 256 then 255 else 65535

theorem Header.highest_le (h : Header) : h.highest ≤ 65535 := by
  unfold highest
  split <;> decide

private theorem toNat_take_le (h : Header) (bytes : Bytes) :
    Bytes.toNat (bytes.take h.sampleBytes) ≤ h.highest := by
  unfold Header.sampleBytes Header.highest
  split
  · rcases bytes with _ | ⟨a, rest⟩
    · decide
    · have ha := a.toNat_lt
      simp [Bytes.toNat]
      omega
  · rcases bytes with _ | ⟨a, _ | ⟨b, rest⟩⟩
    · decide
    · have ha := a.toNat_lt
      simp [Bytes.toNat]
      omega
    · have ha := a.toNat_lt
      have hb := b.toNat_lt
      simp [Bytes.toNat]
      omega

theorem rasterNumbers_le {h : Header} {count n : Nat} {raster : Bytes}
    (hn : n ∈ rasterNumbers count h.sampleBytes raster) : n ≤ h.highest := by
  obtain ⟨i, -, rfl⟩ := List.mem_map.1 hn
  exact toNat_take_le h _

/-- Numbers that a sample can hold are shown as they are. -/
theorem Shows.toInt_samples {image : Image} {variant : Variant} {h : Header} {numbers : List Nat}
    (hshows : Shows image variant h numbers) (hsmall : ∀ n ∈ numbers, n ≤ 65535) :
    image.samples.map Int32.toInt =
      numbers.flatMap fun (n : Nat) => List.replicate variant.copies (n : Int) := by
  rw [hshows.samples_eq, List.map_flatMap]
  refine List.flatMap_congr fun n hn => ?_
  have hle := hsmall n hn
  rw [List.map_replicate, toInt_narrow]
  constructor
  · simp only [Width.lowest]
    omega
  · simp only [Width.highest]
    omega

/-- An image that shows integers in a range has no sample outside of it. -/
theorem sample_mem_of_toInt_samples {image : Image} {numbers : List Nat} {copies highest : Nat}
    (hsamples : image.samples.map Int32.toInt =
      numbers.flatMap fun (n : Nat) => List.replicate copies (n : Int))
    (hle : ∀ n ∈ numbers, n ≤ highest) {s : Sample} (hs : s ∈ image.samples) :
    0 ≤ s.toInt ∧ s.toInt ≤ highest := by
  have hmem : s.toInt ∈ image.samples.map Int32.toInt := List.mem_map_of_mem hs
  rw [hsamples] at hmem
  obtain ⟨n, hn, hcopy⟩ := List.mem_flatMap.1 hmem
  have heq := List.eq_of_mem_replicate hcopy
  have hbound := hle n hn
  omega

/-- The image that a file with a raster of bytes stands for. -/
structure ShowsRaster (image : Image) (variant : Variant) (h : Header) (raster : Bytes) : Prop where
  extent_eq : image.extent = h.extent
  space_eq : image.space = .rgb
  samples_eq : image.samples.map Int32.toInt =
    (rasterNumbers (h.extent.area * variant.channels) h.sampleBytes raster).flatMap
      fun (n : Nat) => List.replicate variant.copies (n : Int)
  sample_mem : ∀ s ∈ image.samples, 0 ≤ s.toInt ∧ s.toInt ≤ h.highest

private theorem exists_showsRaster {variant : Variant} {bytes raster : Bytes} {h : Header}
    (hfile : BinaryFile variant bytes h raster) : ∃ image,
      ShowsRaster image variant h raster ∧ Shows image variant h
        (rasterNumbers (h.extent.area * variant.channels) h.sampleBytes raster) := by
  have hlength := length_rasterNumbers (h.extent.area * variant.channels) h.sampleBytes raster
  obtain ⟨image, hshows⟩ := exists_shows hfile.valid hlength
  have hsamples := hshows.toInt_samples fun n hn => (rasterNumbers_le hn).trans h.highest_le
  exact ⟨image, ⟨hshows.extent_eq, hshows.space_eq, hsamples,
    fun s hs => sample_mem_of_toInt_samples hsamples (fun n hn => rasterNumbers_le hn) hs⟩, hshows⟩

/-- A file with a raster of bytes is read when the numbers of a valid header stand behind its magic
number, then a single blank, and then bytes enough. The image shows the numbers that the first of these
bytes make, one or two to a number, and bytes that follow change nothing. -/
theorem read_ok_iff_binaryFile {variant : Variant} (hbinary : variant.isText = false)
    (rest : Bytes) :
    ((∃ image, read (variant.magic ++ rest) = .ok image) ↔
      ∃ h raster, BinaryFile variant rest h raster) ∧
    ∀ h raster, BinaryFile variant rest h raster → ∃ image, ShowsRaster image variant h raster ∧
      ∀ extra, read (variant.magic ++ (rest ++ extra)) = .ok image := by
  have hresult : ∀ h raster, BinaryFile variant rest h raster → ∃ image,
      ShowsRaster image variant h raster ∧
        ∀ extra, read (variant.magic ++ (rest ++ extra)) = .ok image := by
    intro h raster hfile
    obtain ⟨image, hraster, hshows⟩ := exists_showsRaster hfile
    refine ⟨image, hraster, fun extra => ?_⟩
    refine (read_binary_eq_ok_iff hbinary).2 ⟨h, raster ++ extra, hfile.append extra, ?_⟩
    rwa [rasterNumbers_append extra hfile.enough]
  refine ⟨⟨?_, ?_⟩, hresult⟩
  · rintro ⟨image, himage⟩
    obtain ⟨h, raster, hfile, -⟩ := (read_binary_eq_ok_iff hbinary).1 himage
    exact ⟨h, raster, hfile⟩
  · rintro ⟨h, raster, hfile⟩
    obtain ⟨image, -, hread⟩ := hresult h raster hfile
    have hself := hread []
    rw [List.append_nil] at hself
    exact ⟨image, hself⟩

/-- Two gray pixels of two bytes each. The raster begins with a number sign and holds a digit and
a blank. -/
def wide : Bytes := Bytes.ofAscii "#\n 2 1 0300\n" ++ [35, 49, 32, 255]

private theorem wide_binaryFile : BinaryFile .grayBytes wide ⟨⟨2, 1⟩, 300⟩ [35, 49, 32, 255] := by
  have hwidth : number .width wide =
      (.ok 2, Bytes.ofAscii " 1 0300\n" ++ [35, 49, 32, 255]) := by decide
  have hheight : number .height (Bytes.ofAscii " 1 0300\n" ++ [35, 49, 32, 255]) =
      (.ok 1, Bytes.ofAscii " 0300\n" ++ [35, 49, 32, 255]) := by decide
  have hmaxval : number .maxval (Bytes.ofAscii " 0300\n" ++ [35, 49, 32, 255]) =
      (.ok 300, [10, 35, 49, 32, 255]) := by decide
  have hscans : Scans (Header.numbers ⟨⟨2, 1⟩, 300⟩) wide [10, 35, 49, 32, 255] :=
    (scans_cons_iff .width).2 ⟨_, hwidth, (scans_cons_iff .height).2 ⟨_, hheight,
      (scans_cons_iff .maxval).2 ⟨_, hmaxval,
        scans_nil_iff.2 ⟨rfl, (number_eq_ok_iff.1 hmaxval).1⟩⟩⟩⟩
  exact .of_scans ⟨by decide, by decide, by decide⟩ hscans (by decide) (by decide)

theorem read_ok_iff_binaryFile_wide : Variant.grayBytes.isText = false ∧
    BinaryFile .grayBytes wide ⟨⟨2, 1⟩, 300⟩ [35, 49, 32, 255] ∧
      ∃ image, image.samples.map Int32.toInt = [9009, 9009, 9009, 8447, 8447, 8447] ∧
        read (Variant.grayBytes.magic ++ (wide ++ [48])) = .ok image := by
  have hbinary : Variant.grayBytes.isText = false := rfl
  obtain ⟨image, hshows, hread⟩ :=
    (read_ok_iff_binaryFile hbinary wide).2 _ _ wide_binaryFile
  exact ⟨hbinary, wide_binaryFile, image, hshows.samples_eq.trans (by decide), hread [48]⟩

end Acutance.Codec.Pnm
