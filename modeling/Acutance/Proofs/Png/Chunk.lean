import Acutance.Codec.Png.Preamble
import Acutance.Raster.Capacity
import Mathlib.Algebra.Group.Nat.Defs

namespace Acutance.Codec.Png

/-- What is written of a chunk is split off as the chunk, whatever follows. -/
theorem chunks_render {kind data : Bytes} (hkind : kind.length = 4) (hdata : data.length < 2 ^ 32)
    (rest : Bytes) : chunks (Chunk.render kind data ++ rest) =
      (⟨kind, data, true⟩ :: (chunks rest).1, (chunks rest).2) := by
  have hnumber : (Bytes.bigEndian 4 data.length).length = 4 := Bytes.length_bigEndian 4 _
  have hlength : Bytes.toNat (Bytes.bigEndian 4 data.length) = data.length :=
    Bytes.toNat_bigEndian 4 _ hdata
  have hchecked := Bytes.toNat_bigEndian 4 (Checksum.ofBytes (kind ++ data)).toNat
    (UInt32.toNat_lt _)
  have hsum : (Bytes.bigEndian 4 (Checksum.ofBytes (kind ++ data)).toNat).length = 4 :=
    Bytes.length_bigEndian 4 _
  rw [Chunk.render]
  generalize Bytes.bigEndian 4 data.length = number at *
  generalize Bytes.bigEndian 4 (Checksum.ofBytes (kind ++ data)).toNat = sum at *
  simp only [List.append_assoc]
  have hfirst : (number ++ (kind ++ (data ++ (sum ++ rest)))).take 4 = number :=
    List.take_left' hnumber
  have hsecond : ((number ++ (kind ++ (data ++ (sum ++ rest)))).drop 4).take 4 = kind := by
    rw [List.drop_left' hnumber, List.take_left' hkind]
  have hbody : (number ++ (kind ++ (data ++ (sum ++ rest)))).drop 8 = data ++ (sum ++ rest) := by
    rw [← List.append_assoc]
    exact List.drop_left' (by rw [List.length_append, hnumber, hkind])
  have hchecksum : ((data ++ (sum ++ rest)).drop data.length).take 4 = sum := by
    rw [List.drop_left, List.take_left' hsum]
  have hrest : (data ++ (sum ++ rest)).drop (data.length + 4) = rest := by
    rw [← List.append_assoc]
    exact List.drop_left' (by rw [List.length_append, hsum])
  have hlong : ¬ (number ++ (kind ++ (data ++ (sum ++ rest)))).length < 8 := by
    simp only [List.length_append]
    omega
  have hwhole : ¬ (data ++ (sum ++ rest)).length < data.length + 4 := by
    simp only [List.length_append]
    omega
  rw [chunks, if_neg hlong]
  simp only [hfirst, hsecond, hbody, hlength, if_neg hwhole, List.take_left, hchecksum, hrest,
    hchecked, decide_true]

/-- The bytes of a file with one chunk of image data. -/
def fileBytes (header data : Bytes) : Bytes :=
  signature ++ (Chunk.render Chunk.headerKind header ++
    (Chunk.render Chunk.dataKind data ++ Chunk.render Chunk.endKind []))

private theorem chunks_fileBytes {header data : Bytes} (hheader : header.length < 2 ^ 32)
    (hdata : data.length < 2 ^ 32) : chunks ((fileBytes header data).drop signature.length) =
      ([⟨Chunk.headerKind, header, true⟩, ⟨Chunk.dataKind, data, true⟩,
        ⟨Chunk.endKind, [], true⟩], .cut) := by
  have hlast : chunks (Chunk.render Chunk.endKind [] ++ []) =
      (⟨Chunk.endKind, [], true⟩ :: (chunks []).1, (chunks []).2) :=
    chunks_render rfl (by decide) []
  rw [List.append_nil] at hlast
  rw [fileBytes, List.drop_left, chunks_render rfl hheader, chunks_render rfl hdata, hlast, chunks]
  rfl

/-- The code of a color type in a header. -/
def ColorType.code : ColorType → UInt8
  | .grayscale => 0
  | .rgb => 2
  | .indexed => 3
  | .grayscaleAlpha => 4
  | .rgba => 6

/-- The data of the header of an image with bytes for samples. -/
def Header.layoutBytes (e : Extent) (color : ColorType) : Bytes :=
  Bytes.bigEndian 4 e.width ++ Bytes.bigEndian 4 e.height ++ [8, color.code, 0, 0, 0]

private theorem Header.ofBytes?_layoutBytes {e : Extent} (he : e.Accepted) (color : ColorType) :
    ofBytes? (layoutBytes e color) = some ⟨e, color, .eight, false⟩ := by
  obtain ⟨hwidth, hheight⟩ := he.le
  have hlimit : Capacity.maxWidth < 2 ^ 32 ∧ Capacity.maxHeight < 2 ^ 32 := by decide
  have hfirst : Bytes.toNat ((layoutBytes e color).take 4) = e.width :=
    Bytes.toNat_bigEndian 4 e.width (Nat.lt_of_le_of_lt hwidth hlimit.1)
  have hsecond : Bytes.toNat (((layoutBytes e color).drop 4).take 4) = e.height :=
    Bytes.toNat_bigEndian 4 e.height (Nat.lt_of_le_of_lt hheight hlimit.2)
  have hextent : (⟨Bytes.toNat ((layoutBytes e color).take 4),
      Bytes.toNat (((layoutBytes e color).drop 4).take 4)⟩ : Extent) = e := by
    rw [hfirst, hsecond]
  have hcolor : ColorType.ofCode? ((layoutBytes e color).getD 9 0) = some color := by
    cases color <;> rfl
  have hallowed : (guard (color.allows .eight) : Option Unit) = some () := by
    cases color <;> rfl
  rw [ofBytes?]
  refine Option.bind_eq_some_iff.2 ⟨(), if_pos rfl, ?_⟩
  rw [hextent]
  refine Option.bind_eq_some_iff.2 ⟨.eight, rfl, ?_⟩
  refine Option.bind_eq_some_iff.2 ⟨color, hcolor, ?_⟩
  refine Option.bind_eq_some_iff.2 ⟨(), if_pos he.1, ?_⟩
  exact Option.bind_eq_some_iff.2 ⟨(), hallowed, rfl⟩

private theorem Header.rowBytes_le_memoryLimit {e : Extent} (he : e.Accepted) (color : ColorType) :
    (⟨e, color, .eight, false⟩ : Header).rowBytes e.width ≤ Preamble.memoryLimit := by
  have hsamples : e.width * color.samples ≤ Capacity.maxWidth * 4 :=
    Nat.mul_le_mul he.le.1 (by cases color <;> decide)
  have hlimit : (Capacity.maxWidth * 4 * 8 + 7) / 8 ≤ Preamble.memoryLimit := by decide
  have hbits : (⟨e, color, .eight, false⟩ : Header).rowBytes e.width =
      (e.width * color.samples * 8 + 7) / 8 := rfl
  omega

/-- A file with a header and one chunk of image data is opened, if its extent is accepted. -/
theorem openFile?_layoutBytes {e : Extent} (he : e.Accepted) (color : ColorType) {data : Bytes}
    (hdata : data.length < 2 ^ 32) : openFile? (fileBytes (Header.layoutBytes e color) data) =
      some (⟨e, color, .eight, false⟩,
        [⟨Chunk.dataKind, data, true⟩, ⟨Chunk.endKind, [], true⟩], .cut) := by
  have hsignature : (guard ((fileBytes (Header.layoutBytes e color) data).take signature.length =
      signature) : Option Unit) = some () := if_pos List.take_left
  have hsize : (Header.layoutBytes e color).length < 2 ^ 32 := by
    change 13 < 2 ^ 32
    decide
  have hpreamble : (Preamble.start ⟨e, color, .eight, false⟩).takeAll?
      [⟨Chunk.dataKind, data, true⟩, ⟨Chunk.endKind, [], true⟩] .cut =
        some (Preamble.start ⟨e, color, .eight, false⟩) := rfl
  have hmemory : (Preamble.start ⟨e, color, .eight, false⟩).reserve?
      ((⟨e, color, .eight, false⟩ : Header).rowBytes e.width) = some _ :=
    if_pos (Header.rowBytes_le_memoryLimit he color)
  rw [openFile?]
  refine Option.bind_eq_some_iff.2 ⟨(), hsignature, ?_⟩
  rw [chunks_fileBytes hsize hdata]
  refine Option.bind_eq_some_iff.2 ⟨(), rfl, ?_⟩
  refine Option.bind_eq_some_iff.2 ⟨_, Header.ofBytes?_layoutBytes he color, ?_⟩
  refine Option.bind_eq_some_iff.2 ⟨_, hpreamble, ?_⟩
  exact Option.bind_eq_some_iff.2 ⟨_, hmemory, rfl⟩

/-- The header of an image with three bytes to a pixel. -/
def Header.ofExtent (e : Extent) : Header := ⟨e, .rgb, .eight, false⟩

theorem openFile?_fileBytes {e : Extent} (he : e.Accepted) {data : Bytes}
    (hdata : data.length < 2 ^ 32) : openFile? (fileBytes (Header.colorBytes e) data) =
      some (.ofExtent e, [⟨Chunk.dataKind, data, true⟩, ⟨Chunk.endKind, [], true⟩], .cut) :=
  openFile?_layoutBytes he .rgb hdata

theorem imageData?_single (data : Bytes) :
    imageData? [⟨Chunk.dataKind, data, true⟩, ⟨Chunk.endKind, [], true⟩] .cut = some [data] := by
  rfl

end Acutance.Codec.Png
