import Acutance.Filter.Kernel
import Acutance.Proofs.Buffer.Layout

namespace Acutance

/-- A kernel as it lies in memory. -/
structure KernelBuffer where
  taps : Array Sample
  center : Nat
  norm : Int
  deriving DecidableEq, Repr

/-- The number of taps is odd, the center is the middle one, and the divisor is not zero. -/
structure KernelBuffer.WellFormed (k : KernelBuffer) : Prop where
  odd : k.taps.size % 2 = 1
  center_eq : k.center = (k.taps.size - 1) / 2
  norm_ne_zero : k.norm ≠ 0

/-- The kernel in a buffer. -/
def Kernel.buffer (k : Kernel) : KernelBuffer := ⟨k.taps.toArray, k.radius, k.norm⟩

namespace KernelBuffer

variable {ε : Type}

/-- The sum of taps in the integers, which up to `2 ^ 32` taps also have in a 64-bit word. -/
def total (taps : Array Sample) : Int := taps.foldl (fun sum t => sum + t.toInt) 0

/-- The smoothing kernel of the unsharp mask. It divides by the sum of its taps. -/
def gaussian : KernelBuffer :=
  let taps := #[4433, 54006, 242036, 399050, 242036, 54006, 4433]
  ⟨taps, taps.size / 2, total taps⟩

def ofTaps (taps : Array Sample) : Run (Flaw FilterError) KernelBuffer :=
  if taps.size = 0 ∨ taps.size % 2 = 0 then Run.answering (.error (.tapCount taps.size))
  else if total taps = 0 then Run.answering (.error .zeroTapSum)
  else .ok ⟨taps, taps.size / 2, total taps⟩

/-- The kernel with the divisor taken off the tap at its center. -/
def highpass (k : KernelBuffer) : Run (Flaw ε) KernelBuffer := do
  let middle ← Buffer.read k.taps k.center
  let taps ← Buffer.write k.taps k.center (narrow (middle.toInt - k.norm))
  return { k with taps }

end KernelBuffer

namespace Kernel

variable {ε : Type}

theorem buffer_wellFormed (k : Kernel) : k.buffer.WellFormed where
  odd := k.odd
  center_eq := by
    have hodd := k.odd
    change k.taps.length / 2 = (k.taps.length - 1) / 2
    omega
  norm_ne_zero := k.norm_ne_zero

/-- A well-formed buffer holds a kernel. -/
theorem exists_buffer_eq {b : KernelBuffer} (h : b.WellFormed) : ∃ k : Kernel, k.buffer = b := by
  obtain ⟨taps, center, norm⟩ := b
  obtain ⟨hodd, hcenter, hnorm⟩ := h
  simp only at hodd hcenter hnorm
  have hradius : taps.size / 2 = center := by omega
  exact ⟨⟨taps.toList, norm, hodd, hnorm⟩, by simp [buffer, radius, hradius]⟩

theorem total_toArray (taps : List Sample) : KernelBuffer.total taps.toArray = total taps := by
  rw [KernelBuffer.total, total, List.foldl_toArray]

theorem gaussian_buffer : KernelBuffer.gaussian = gaussian.buffer := by
  decide

theorem ofTaps_buffer (taps : List Sample) :
    KernelBuffer.ofTaps taps.toArray = (Run.ofExcept (ofTaps taps)).laidOut buffer := by
  unfold KernelBuffer.ofTaps ofTaps
  rw [total_toArray, List.size_toArray]
  by_cases hodd : taps.length % 2 = 1
  · rw [if_neg (by omega), dif_pos hodd]
    split <;> rfl
  · rw [if_pos (by omega), dif_neg hodd]
    rfl

/-- The tap at the center is there. -/
theorem highpass_buffer (k : Kernel) :
    (k.buffer.highpass : Run (Flaw ε) KernelBuffer) = .ok k.highpass.buffer := by
  have hmiddle : k.radius < k.taps.length := k.radius_lt_size
  have hradius : k.highpass.radius = k.radius := by simp [highpass, radius]
  have htaps : k.highpass.taps = k.taps.set k.radius (narrow (k.taps[k.radius].toInt - k.norm)) := by
    change k.taps.modify k.radius (fun t => narrow (t.toInt - k.norm)) = _
    rw [List.modify_eq_set, List.getElem?_eq_getElem hmiddle, Option.getD_some]
  rw [KernelBuffer.highpass, Buffer.read_of_lt (by exact hmiddle)]
  simp only [bind, Except.bind]
  rw [Buffer.write_of_lt (by exact hmiddle)]
  simp only [buffer, hradius, htaps, List.setIfInBounds_toArray]
  rfl

end Kernel

end Acutance
