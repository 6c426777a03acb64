import Acutance.Raster.Error

namespace Acutance

namespace Capacity

/-- The widest row, in pixels. -/
def maxWidth : Nat := 731

/-- The stride of a row in the interleaved buffer, in samples. -/
def rowStride : Nat := maxWidth * Pixel.channelCount

/-- The size of the interleaved buffer, in samples. -/
def imageBuffer : Nat := 2300000

/-- The stride of a row in the scratch buffer, in samples. -/
def scratchStride : Nat := maxWidth

/-- The size of the scratch buffer, in samples. -/
def scratchBuffer : Nat := 750000

/-- The largest height that fits both buffers. -/
def maxHeight : Nat := min (imageBuffer / rowStride) (scratchBuffer / scratchStride)

end Capacity

namespace Extent

/-- Whether an image may have this extent. It has to fit an interleaved buffer and a scratch buffer
of one channel, both laid out with the stride of the widest row. -/
def Accepted (e : Extent) : Prop :=
  e.Nonempty ∧ e.width ≤ Capacity.maxWidth ∧
    e.height * Capacity.rowStride ≤ Capacity.imageBuffer ∧
    e.height * Capacity.scratchStride ≤ Capacity.scratchBuffer

instance (e : Extent) : Decidable e.Accepted := inferInstanceAs (Decidable (_ ∧ _))

/-- Refuses an extent that no image may have. An empty extent is named before a bound. -/
def check (e : Extent) : Except RasterError Unit :=
  if ¬ e.Nonempty then .error (.emptyExtent e)
  else if Capacity.maxWidth < e.width then .error (.extentExceeded e .rowStride)
  else if Capacity.imageBuffer < e.height * Capacity.rowStride then
    .error (.extentExceeded e .imageBuffer)
  else if Capacity.scratchBuffer < e.height * Capacity.scratchStride then
    .error (.extentExceeded e .scratchBuffer)
  else .ok ()

/-- The check passes exactly the accepted extents. -/
theorem check_eq_ok_iff {e : Extent} : e.check = .ok () ↔ e.Accepted := by
  unfold check Accepted Nonempty
  repeat' split
  all_goals
    simp only [reduceCtorEq, true_iff, false_iff]
    omega

/-- An accepted extent keeps the bounds on width and height. -/
theorem Accepted.le {e : Extent} (h : e.Accepted) :
    e.width ≤ Capacity.maxWidth ∧ e.height ≤ Capacity.maxHeight := by
  obtain ⟨-, hwidth, himage, hscratch⟩ := h
  refine ⟨hwidth, ?_⟩
  simp only [Capacity.maxHeight, Capacity.rowStride, Capacity.scratchStride, Capacity.maxWidth,
    Capacity.imageBuffer, Capacity.scratchBuffer, Pixel.channelCount] at *
  omega

end Extent

end Acutance
