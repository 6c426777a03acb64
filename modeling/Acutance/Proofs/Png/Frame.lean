import Acutance.Codec.Png.Reader
import Acutance.Proofs.Edit
import Acutance.Proofs.Raster.Samples

namespace Acutance.Codec.Png

variable {pixelBytes rowBytes : Nat}

private theorem restore_none (prior : Array UInt8) (row : Bytes) :
    Prediction.none.restore pixelBytes prior row = row.toArray := by
  simp only [Prediction.restore, Prediction.predict, UInt8.add_zero]
  rw [List.foldl_push_eq_append, List.map_id']
  exact Array.empty_append

/-- Rows that no prediction was made for are restored to what they are. -/
theorem restoreRows_unpredicted {rows : List Bytes} (hrows : ∀ row ∈ rows, row.length = rowBytes)
    (prior : Array UInt8) (rest : Bytes) :
    restoreRows pixelBytes rowBytes rows.length prior ((rows.flatMap fun row => 0 :: row) ++ rest) =
      some (rows.map List.toArray, rest) := by
  induction rows generalizing prior with
  | nil => rfl
  | cons row rows ih =>
    have hrow : row.length = rowBytes := hrows row (by simp)
    have hrest := ih (fun other hother => hrows other (by simp [hother]))
    have hcode : Prediction.ofCode? 0 = some .none := rfl
    simp only [List.flatMap_cons, List.cons_append, List.append_assoc, List.length_cons,
      restoreRows, hcode, List.take_left' hrow, List.drop_left' hrow, restore_none, hrest,
      Option.bind_eq_bind, Option.bind_some]
    rfl

private theorem foldl_append_rows (rows : List Bytes) (out : Array UInt8) :
    (rows.map List.toArray).foldl (fun out row => out ++ row) out = out ++ rows.flatten.toArray := by
  induction rows generalizing out with
  | nil => simp
  | cons row rows ih => simp [ih]

namespace Frame

/-- A frame is restored from rows that no prediction was made for to what the rows hold. -/
theorem restore?_unpredicted {h : Header} {rows : List Bytes} (hplain : h.interlaced = false)
    (hcount : rows.length = h.extent.height)
    (hrows : ∀ row ∈ rows, row.length = h.rowBytes h.extent.width) :
    restore? h (rows.flatMap fun row => 0 :: row) =
      some ⟨h.extent, h.color.samples, rows.flatten.toArray⟩ := by
  have hrestored : restoreRows h.color.samples (h.rowBytes h.extent.width) rows.length #[]
      ((rows.flatMap fun row => 0 :: row) ++ []) = some (rows.map List.toArray, []) :=
    restoreRows_unpredicted hrows #[] []
  rw [List.append_nil, hcount] at hrestored
  simp only [restore?, hplain, hrestored, Option.bind_eq_bind, Option.bind_some,
    foldl_append_rows, Array.empty_append]
  rfl

/-- The pixel of a frame with a number. -/
def pixelAt (f : Frame) (i : Nat) : Pixel :=
  let byte (k : Nat) : Sample := narrow (f.bytes.getD (i * f.pixelBytes + k) 0).toNat
  if f.pixelBytes ≤ 2 then ⟨byte 0, byte 0, byte 0⟩ else ⟨byte 0, byte 1, byte 2⟩

private theorem pixelSamples_eq (f : Frame) (i : Nat) : f.pixelSamples i = (f.pixelAt i).samples := by
  unfold pixelSamples pixelAt
  split <;> rfl

/-- Every frame whose extent is accepted shows an image. -/
theorem exists_toImage {f : Frame} (haccepted : f.extent.Accepted) : ∃ image, f.toImage = .ok image ∧
    image.extent = f.extent ∧ image.space = .rgb ∧
      ∀ x y, f.extent.Contains x y → image.pixel x y = f.pixelAt (f.extent.index x y) := by
  refine ⟨⟨f.extent, .rgb, Vector.ofFn fun i => f.pixelAt i, haccepted⟩, ?_, rfl, rfl, ?_⟩
  · rw [toImage, mapError_eq_ok_iff]
    have hpixels : (Vector.ofFn fun i : Fin f.extent.area => f.pixelAt i).toList =
        (List.range f.extent.area).map f.pixelAt := by
      apply List.ext_getElem <;> simp
    refine Image.ofSamples_eq_ok_iff.2 ⟨rfl, rfl, ?_⟩
    rw [Image.samples, hpixels, List.flatMap_map, funext f.pixelSamples_eq]
  · intro x y hin
    rw [Image.pixel_mk hin]
    exact Vector.getElem_ofFn _

end Frame

private theorem size_foldl_push (next : Array UInt8 → UInt8 → UInt8) (row : Bytes) (out : Array UInt8) :
    (row.foldl (fun out b => out.push (next out b)) out).size = out.size + row.length := by
  induction row generalizing out with
  | nil => rfl
  | cons b row ih =>
    rw [List.foldl_cons, ih, Array.size_push, List.length_cons]
    omega

private theorem Prediction.size_restore (p : Prediction) (prior : Array UInt8) (row : Bytes) :
    (p.restore pixelBytes prior row).size = row.length :=
  (size_foldl_push _ row #[]).trans (Nat.zero_add _)

/-- The rows of a raster are all there, and have their full length, when there are bytes for them. -/
theorem size_of_restoreRows {count : Nat} {prior : Array UInt8} {bytes rest : Bytes}
    {rows : List (Array UInt8)} (hbytes : count * (1 + rowBytes) ≤ bytes.length)
    (h : restoreRows pixelBytes rowBytes count prior bytes = some (rows, rest)) :
    rows.length = count ∧ ∀ row ∈ rows, row.size = rowBytes := by
  induction count generalizing prior bytes rows with
  | zero =>
    obtain ⟨rfl, -⟩ := Prod.mk.inj (Option.some.inj h)
    simp
  | succ count ih =>
    cases bytes with
    | nil => cases h
    | cons code bytes =>
      rw [Nat.succ_mul, List.length_cons] at hbytes
      obtain ⟨prediction, -, h⟩ := Option.bind_eq_some_iff.1 h
      obtain ⟨⟨below, left⟩, hbelow, h⟩ := Option.bind_eq_some_iff.1 h
      obtain ⟨rfl, rfl⟩ := Prod.mk.inj (Option.some.inj h)
      have hrest : count * (1 + rowBytes) ≤ (bytes.drop rowBytes).length := by
        rw [List.length_drop]
        omega
      obtain ⟨hcount, hsizes⟩ := ih hrest hbelow
      refine ⟨congrArg (· + 1) hcount, fun row hrow => ?_⟩
      rcases List.mem_cons.1 hrow with rfl | hrow
      · rw [Prediction.size_restore, List.length_take]
        omega
      · exact hsizes row hrow

private theorem size_foldl_append {rows : List (Array UInt8)} (hsizes : ∀ row ∈ rows, row.size = rowBytes)
    (out : Array UInt8) : (rows.foldl (fun out row => out ++ row) out).size =
      out.size + rows.length * rowBytes := by
  induction rows generalizing out with
  | nil => simp
  | cons row rows ih =>
    rw [List.foldl_cons, ih (fun other hother => hsizes other (by simp [hother])), Array.size_append,
      hsizes row (by simp), List.length_cons, Nat.succ_mul]
    omega

/-- Samples that are bytes take as many bytes. -/
theorem Header.rowBytes_of_depth (h : Header) (hdepth : h.depth = .eight) (width : Nat) :
    h.rowBytes width = width * h.color.samples := by
  rw [rowBytes, hdepth]
  change (width * h.color.samples * 8 + 7) / 8 = _
  omega

/-- A frame that is restored from as many bytes as its image takes is complete. -/
theorem Frame.size_of_restore? {h : Header} {bytes : Bytes} {f : Frame}
    (hbytes : imageBytes h ≤ bytes.length) (hnonempty : h.extent.Nonempty)
    (hdepth : h.depth = .eight) (hf : Frame.restore? h bytes = some f) :
    f.extent = h.extent ∧ f.pixelBytes = h.color.samples ∧
      f.bytes.size = h.extent.height * (h.extent.width * h.color.samples) := by
  unfold Frame.restore? at hf
  cases hinterlaced : h.interlaced with
  | true =>
    simp only [hinterlaced, if_true] at hf
    obtain ⟨passes, -, hf⟩ := Option.bind_eq_some_iff.1 hf
    obtain rfl := Option.some.inj hf
    refine ⟨rfl, rfl, ?_⟩
    simp [List.length_flatMap]
  | false =>
    simp only [hinterlaced, Bool.false_eq_true, if_false] at hf
    obtain ⟨⟨rows, rest⟩, hrows, hf⟩ := Option.bind_eq_some_iff.1 hf
    obtain rfl := Option.some.inj hf
    have hneeded : h.extent.height * (1 + h.rowBytes h.extent.width) ≤ bytes.length := by
      rw [imageBytes, hinterlaced, filteredBytes, if_pos hnonempty] at hbytes
      exact hbytes
    obtain ⟨hcount, hsizes⟩ := size_of_restoreRows hneeded hrows
    refine ⟨rfl, rfl, ?_⟩
    rw [size_foldl_append hsizes, hcount, h.rowBytes_of_depth hdepth]
    exact Nat.zero_add _

private theorem le_size_of_gather? {needed : Nat} {i : Flate.Inflater} {parts : List Bytes}
    {bytes : Array UInt8} (h : gather? needed i parts = some bytes) : needed ≤ bytes.size := by
  induction parts generalizing i with
  | nil =>
    rw [gather?] at h
    split_ifs at h with hend hneeded
    · obtain rfl := Option.some.inj h
      exact hneeded
  | cons part rest ih =>
    rw [gather?] at h
    split_ifs at h with hend hneeded
    · obtain rfl := Option.some.inj h
      exact hneeded
    · obtain ⟨next, -, h⟩ := Option.bind_eq_some_iff.1 h
      exact ih h

/-- A frame that is read is complete. -/
theorem size_of_readFrame? {h : Header} {rest : List Chunk} {tail : Tail} {f : Frame}
    (hnonempty : h.extent.Nonempty) (hdepth : h.depth = .eight)
    (hf : readFrame? h rest tail = some f) :
    f.extent = h.extent ∧ f.pixelBytes = h.color.samples ∧
      f.bytes.size = h.extent.height * (h.extent.width * h.color.samples) := by
  obtain ⟨parts, -, hf⟩ := Option.bind_eq_some_iff.1 hf
  obtain ⟨bytes, hbytes, hf⟩ := Option.bind_eq_some_iff.1 hf
  exact Frame.size_of_restore? (le_size_of_gather? hbytes) hnonempty hdepth hf

end Acutance.Codec.Png
