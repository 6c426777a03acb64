import Acutance.Proofs.Buffer.Layout
import Acutance.Proofs.InPlace

namespace Acutance

private theorem Extent.not_nonempty_iff {e : Extent} : ¬ e.Nonempty ↔ e.width = 0 ∨ e.height = 0 := by
  rw [Nonempty]
  omega

theorem Extent.not_contains_iff {e : Extent} {x y : Nat} :
    ¬ e.Contains x y ↔ e.width ≤ x ∨ e.height ≤ y := by
  rw [Contains]
  omega

private theorem Extent.eq_iff {a b : Extent} : a = b ↔ a.width = b.width ∧ a.height = b.height := by
  cases a
  cases b
  simp

/-- A plane as it lies in memory. -/
structure PlaneBuffer where
  extent : Extent
  data : Array Sample
  deriving DecidableEq, Repr

/-- The plane has a place, and as many samples as places. -/
structure PlaneBuffer.WellFormed (p : PlaneBuffer) : Prop where
  nonempty : 0 < p.extent.width ∧ 0 < p.extent.height
  size_eq : p.data.size = p.extent.width * p.extent.height

/-- The plane in a buffer. -/
def Plane.buffer (p : Plane) : PlaneBuffer := ⟨p.extent, p.samples.toArray⟩

namespace PlaneBuffer

variable {ε : Type}

def zeros (e : Extent) : Run (Flaw RasterError) PlaneBuffer :=
  if e.width = 0 ∨ e.height = 0 then Run.answering (.error (.emptyExtent e))
  else do
    Buffer.room (e.width * e.height)
    return ⟨e, Array.replicate (e.width * e.height) 0⟩

def ofSamples (e : Extent) (samples : Array Sample) : Run (Flaw RasterError) PlaneBuffer :=
  if e.width = 0 ∨ e.height = 0 then Run.answering (.error (.emptyExtent e))
  else if samples.size = e.width * e.height then .ok ⟨e, samples⟩
  else Run.answering (.error (.sampleCount (e.width * e.height) samples.size))

/-- Where the sample of a place lies. -/
def index (p : PlaneBuffer) (x y : Nat) : Nat := y * p.extent.width + x

def read (p : PlaneBuffer) (x y : Nat) : Run (Flaw ε) Sample := Buffer.read p.data (p.index x y)

def write (p : PlaneBuffer) (x y : Nat) (s : Sample) : Run (Flaw ε) PlaneBuffer := do
  let data ← Buffer.write p.data (p.index x y) s
  return { p with data }

def get? (p : PlaneBuffer) (x y : Nat) : Run (Flaw ε) (Option Sample) :=
  if p.extent.width ≤ x ∨ p.extent.height ≤ y then .ok none
  else do return some (← p.read x y)

def set (p : PlaneBuffer) (x y : Nat) (s : Sample) : Run (Flaw RasterError) PlaneBuffer :=
  if p.extent.width ≤ x ∨ p.extent.height ≤ y then
    Run.answering (.error (.outOfBounds (p.index x y) p.data.size))
  else p.write x y s

/-- The samples of a row, without a look at the height. -/
def row (p : PlaneBuffer) (y : Nat) : Run (Flaw ε) (Array Sample) :=
  Buffer.slice p.data (y * p.extent.width) (y * p.extent.width + p.extent.width)

/-- Replaces the samples of a row by what `f` makes of the column and the sample there. To ask for a row
outside is a fault. -/
def editRow (p : PlaneBuffer) (y : Nat) (f : Nat → Sample → Sample) : Run (Flaw ε) PlaneBuffer :=
  if p.extent.height ≤ y then .error (.fault .rowOutOfRange)
  else do
    let row ← p.row y
    let data ← Buffer.splice p.data (y * p.extent.width) (row.mapIdx f)
    return { p with data }

/-- Replaces all samples by what `f` makes of the number of the place and the sample there. -/
def editSamples (p : PlaneBuffer) (f : Nat → Sample → Sample) : PlaneBuffer :=
  { p with data := p.data.mapIdx f }

def clear (p : PlaneBuffer) : PlaneBuffer := { p with data := p.data.map fun _ => 0 }

def expectExtent (p : PlaneBuffer) (expected : Extent) : Run (Flaw RasterError) Unit :=
  if p.extent.width = expected.width ∧ p.extent.height = expected.height then .ok ()
  else Run.answering (.error (.extentMismatch expected p.extent))

end PlaneBuffer

namespace Plane

variable {ε : Type}

/-- Replaces the samples of a row by what `f` makes of the column and the sample there. -/
def editRow (p : Plane) (y : Nat) (f : Nat → Sample → Sample) : Checked Plane :=
  if y < p.extent.height then .ok ((List.range p.extent.width).foldl
    (fun q x => q.put x y (f x (q.sample x y))) p)
  else .error .rowOutOfRange

/-- Replaces all samples by what `f` makes of the number of the place and the sample there. -/
def editSamples (p : Plane) (f : Nat → Sample → Sample) : Plane :=
  { p with samples := p.samples.mapIdx f }

@[simp] theorem extent_buffer (p : Plane) : p.buffer.extent = p.extent := rfl

theorem size_buffer (p : Plane) : p.buffer.data.size = p.extent.area := p.samples.size_toArray

theorem buffer_wellFormed (p : Plane) : p.buffer.WellFormed := ⟨p.nonempty, p.size_buffer⟩

/-- A well-formed buffer holds a plane. -/
theorem exists_buffer_eq {b : PlaneBuffer} (h : b.WellFormed) : ∃ p : Plane, p.buffer = b :=
  ⟨⟨b.extent, h.nonempty, ⟨b.data, h.size_eq⟩⟩, rfl⟩

private theorem index_lt_size_buffer (p : Plane) {x y : Nat} (hin : p.extent.Contains x y) :
    p.buffer.index x y < p.buffer.data.size := by
  rw [p.size_buffer]
  exact Extent.index_lt_area hin

/-- The sample of a place lies in the buffer. -/
theorem getElem?_buffer (p : Plane) {x y : Nat} (hin : p.extent.Contains x y) :
    p.buffer.data[p.buffer.index x y]? = some (p.sample x y) := by
  rw [Array.getElem?_eq_getElem (p.index_lt_size_buffer hin), sample_of_contains hin]
  rfl

theorem read_buffer (p : Plane) {x y : Nat} (hin : p.extent.Contains x y) :
    (p.buffer.read x y : Run (Flaw ε) Sample) = .ok (p.sample x y) := by
  rw [PlaneBuffer.read, Buffer.read, p.getElem?_buffer hin]

theorem write_buffer (p : Plane) {x y : Nat} (hin : p.extent.Contains x y) (s : Sample) :
    (p.buffer.write x y s : Run (Flaw ε) PlaneBuffer) = .ok (p.put x y s).buffer := by
  have hlt := p.index_lt_size_buffer hin
  rw [PlaneBuffer.write, Buffer.write_of_lt hlt, put, dif_pos hin, Array.setIfInBounds, dif_pos hlt]
  rfl

theorem zeros_buffer (e : Extent) : PlaneBuffer.zeros e = (zeros e).laidOut buffer := by
  unfold PlaneBuffer.zeros zeros
  by_cases hne : e.Nonempty
  · rw [if_neg fun h => Extent.not_nonempty_iff.2 h hne, dif_pos hne]
    unfold Buffer.room Extent.area
    split
    · rfl
    · simp only [Run.laidOut_ok, buffer, Vector.toArray_replicate]
      rfl
  · rw [if_pos (Extent.not_nonempty_iff.1 hne), dif_neg hne]
    rfl

theorem ofSamples_buffer (e : Extent) (samples : Array Sample) :
    PlaneBuffer.ofSamples e samples = (Run.ofExcept (ofSamples e samples)).laidOut buffer := by
  unfold PlaneBuffer.ofSamples ofSamples Extent.area
  by_cases hne : e.Nonempty
  · rw [if_neg fun h => Extent.not_nonempty_iff.2 h hne, dif_pos hne]
    split <;> rfl
  · rw [if_pos (Extent.not_nonempty_iff.1 hne), dif_neg hne]
    rfl

/-- Every place can be asked for. -/
theorem get?_buffer (p : Plane) (x y : Nat) :
    (p.buffer.get? x y : Run (Flaw ε) (Option Sample)) = .ok (p.get? x y) := by
  unfold PlaneBuffer.get?
  by_cases hin : p.extent.Contains x y
  · rw [extent_buffer, if_neg fun h => Extent.not_contains_iff.2 h hin, read_buffer p hin,
      get?_eq_some_sample hin]
    rfl
  · rw [extent_buffer, if_pos (Extent.not_contains_iff.1 hin), get?, if_neg hin]

/-- Every place can be written to, or is refused. -/
theorem set_buffer (p : Plane) (x y : Nat) (s : Sample) :
    p.buffer.set x y s = (Run.ofExcept (p.set x y s)).laidOut buffer := by
  unfold PlaneBuffer.set set
  by_cases hin : p.extent.Contains x y
  · rw [extent_buffer, if_neg fun h => Extent.not_contains_iff.2 h hin, write_buffer p hin,
      if_pos hin, Run.ofExcept_ok, Run.laidOut_ok]
  · rw [extent_buffer, if_pos (Extent.not_contains_iff.1 hin), if_neg hin, size_buffer]
    rfl

theorem expectExtent_buffer (p : Plane) (e : Extent) :
    p.buffer.expectExtent e = (Run.ofExcept (p.expectExtent e)).laidOut id := by
  unfold PlaneBuffer.expectExtent expectExtent
  simp only [extent_buffer, ← Extent.eq_iff]
  split <;> rfl

private theorem row_end_le_size_buffer (p : Plane) {y : Nat} :
    y * p.extent.width + p.extent.width ≤ p.buffer.data.size ↔ y < p.extent.height := by
  rw [p.size_buffer, Extent.area, ← Nat.succ_mul, Nat.mul_comm p.extent.width]
  exact ⟨fun h => Nat.le_of_mul_le_mul_right h p.nonempty.1, Nat.mul_le_mul_right _⟩

private theorem extract_buffer (p : Plane) {y : Nat} (hy : y < p.extent.height) :
    p.buffer.data.extract (y * p.extent.width) (y * p.extent.width + p.extent.width) =
      (p.rowSamples y).toArray := by
  have hend := p.row_end_le_size_buffer.2 hy
  apply Array.ext_getElem?
  intro x
  by_cases hx : x < p.extent.width
  · have hplace := p.getElem?_buffer ⟨hx, hy⟩
    rw [PlaneBuffer.index, extent_buffer] at hplace
    rw [Array.getElem?_extract, if_pos (by omega), hplace]
    simp [rowSamples, hx]
  · rw [Array.getElem?_eq_none (by rw [Array.size_extract]; omega),
      Array.getElem?_eq_none (by simp [rowSamples]; omega)]

/-- A row lies in the buffer when it is one of the plane. -/
theorem row_buffer (p : Plane) {y : Nat} (hy : y < p.extent.height) :
    (p.buffer.row y : Run (Flaw ε) (Array Sample)) = .ok (p.rowSamples y).toArray := by
  rw [PlaneBuffer.row, extent_buffer, Buffer.slice_of_le (Nat.le_add_right _ _)
    (p.row_end_le_size_buffer.2 hy), p.extract_buffer hy]

theorem row_buffer_of_le (p : Plane) {y : Nat} (hy : p.extent.height ≤ y) {row : Array Sample} :
    (p.buffer.row y : Run (Flaw ε) (Array Sample)) ≠ .ok row := by
  have hend := mt p.row_end_le_size_buffer.1 (Nat.not_lt.2 hy)
  rw [PlaneBuffer.row, extent_buffer, Buffer.slice, if_neg fun h => hend h.2]
  nofun

/-- Writing the first samples of a row one after the other leaves all others as they were. -/
theorem foldl_put_row (p : Plane) {y : Nat} (hy : y < p.extent.height) (f : Nat → Sample → Sample)
    {n : Nat} (hn : n ≤ p.extent.width) :
    let q := (List.range n).foldl (fun q x => q.put x y (f x (q.sample x y))) p
    q.extent = p.extent ∧ ∀ x' y', q.sample x' y' =
      if y' = y ∧ x' < n then f x' (p.sample x' y') else p.sample x' y' := by
  induction n with
  | zero => simp
  | succ n ih =>
    obtain ⟨hextent, hsample⟩ := ih (by omega)
    rw [List.range_succ, List.foldl_append, List.foldl_cons, List.foldl_nil]
    generalize (List.range n).foldl (fun q x => q.put x y (f x (q.sample x y))) p = q at hextent hsample ⊢
    have hold : q.sample n y = p.sample n y := by rw [hsample, if_neg (by omega)]
    have hin : q.extent.Contains n y := by
      rw [hextent]
      exact ⟨hn, hy⟩
    refine ⟨(extent_put _ _ _ _).trans hextent, fun x' y' => ?_⟩
    rw [sample_put hin, hold]
    by_cases hplace : x' = n ∧ y' = y
    · obtain ⟨rfl, rfl⟩ := hplace
      rw [if_pos ⟨rfl, rfl⟩, if_pos ⟨rfl, Nat.lt_succ_self _⟩]
    · have hbefore : (y' = y ∧ x' < n) ↔ (y' = y ∧ x' < n + 1) := by omega
      rw [if_neg hplace, hsample]
      simp only [hbefore]

/-- A row is put over the one in the buffer, and all other rows stay. -/
theorem splice_buffer {p q : Plane} {y : Nat} (hy : y < p.extent.height) {row : Array Sample}
    (hextent : q.extent = p.extent) (hsize : row.size = p.extent.width)
    (hrow : ∀ x < p.extent.width, row[x]? = some (q.sample x y))
    (hothers : ∀ x y', y' ≠ y → q.sample x y' = p.sample x y') :
    (Buffer.splice p.buffer.data (y * p.extent.width) row : Run (Flaw ε) (Array Sample)) =
      .ok q.buffer.data := by
  have hend : y * p.extent.width + row.size ≤ p.buffer.data.size :=
    hsize ▸ p.row_end_le_size_buffer.2 hy
  have hfull := p.size_buffer
  have hfull' := q.size_buffer
  rw [hextent] at hfull'
  rw [Buffer.splice_of_le hend]
  refine congrArg Except.ok (Array.ext_getElem? fun i => ?_)
  rw [Buffer.getElem?_splice hend, hsize]
  by_cases hi : i < p.extent.area
  · have hin := Extent.contains_of_lt_area hi
    have hplace := Extent.index_mod_div p.extent i
    -- the entry lies in the row when its place does
    have hinRow : (y * p.extent.width ≤ i ∧ i < y * p.extent.width + p.extent.width) ↔
        i / p.extent.width = y := by
      have hpos := p.nonempty.1
      rw [Nat.div_eq_iff hpos]
      omega
    simp only [hinRow]
    generalize i % p.extent.width = x, i / p.extent.width = y' at hin hplace ⊢
    have hold := p.getElem?_buffer hin
    have hnew := q.getElem?_buffer (hextent ▸ hin)
    rw [PlaneBuffer.index, extent_buffer] at hold hnew
    rw [hextent] at hnew
    rw [Extent.index] at hplace
    rw [← hplace, hnew, hold]
    split
    · next hsame =>
      subst hsame
      rw [Nat.add_sub_cancel_left, hrow x hin.1]
    · next hother => rw [hothers x y' hother]
  · rw [hsize] at hend
    rw [if_neg (by omega), Array.getElem?_eq_none (by omega), Array.getElem?_eq_none (by omega)]

/-- A row is replaced in the buffer, and nothing besides. -/
theorem editRow_buffer (p : Plane) (y : Nat) (f : Nat → Sample → Sample) :
    (p.buffer.editRow y f : Run (Flaw ε) PlaneBuffer) =
      (Run.ofChecked (p.editRow y f)).laidOut buffer := by
  unfold PlaneBuffer.editRow editRow
  by_cases hy : y < p.extent.height
  · obtain ⟨hextent, hsample⟩ := p.foldl_put_row hy f (Nat.le_refl _)
    rw [extent_buffer, if_neg (Nat.not_le.2 hy), if_pos hy, p.row_buffer hy]
    generalize (List.range p.extent.width).foldl (fun q x => q.put x y (f x (q.sample x y))) p = q
      at hextent hsample ⊢
    simp only [bind, Except.bind]
    rw [splice_buffer hy hextent (by simp [rowSamples])
      (fun x hx => by simp [rowSamples, hx, hsample]) fun x y' hne => by simp [hne, hsample]]
    simp only [Run.ofChecked_ok, Run.laidOut_ok, buffer, hextent]
    rfl
  · rw [extent_buffer, if_pos (Nat.not_lt.1 hy), if_neg hy]
    rfl

theorem editSamples_buffer (p : Plane) (f : Nat → Sample → Sample) :
    p.buffer.editSamples f = (p.editSamples f).buffer := by
  simp [PlaneBuffer.editSamples, editSamples, buffer]

theorem clear_buffer (p : Plane) : p.buffer.clear = p.clear.buffer := by
  simp [PlaneBuffer.clear, clear, buffer, Array.map_const']

end Plane

end Acutance
