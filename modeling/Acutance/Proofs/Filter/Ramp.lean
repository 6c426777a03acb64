import Acutance.Proofs.Filter.Build
import Acutance.Proofs.Filter.Symmetry
import Acutance.Proofs.InPlace

namespace Acutance

namespace Kernel

variable {k : Kernel} {taps : List Sample} {p : Plane} {x y : Nat}

/-- A line that averages to one value over every two places across the middle of the window has the
weighted sum of a line that holds this value throughout. -/
theorem IsSymmetric.dot_of_balanced (hk : k.IsSymmetric) {line : Nat → Int} {start : Nat} {c : Int}
    (hline : ∀ i < k.size, line (start + i) + line (start + (k.size - 1 - i)) = 2 * c) :
    k.dot line start = (∑ i ∈ Finset.range k.size, k.tap i) * c := by
  have hturned : k.dot (fun i => line (start + (k.size - 1 - i))) 0 = k.dot line start := by
    apply hk.dot_eq
    intro i _
    rw [Nat.zero_add]
  have hpairs : k.dot line start + k.dot (fun i => line (start + (k.size - 1 - i))) 0 =
      2 * ((∑ i ∈ Finset.range k.size, k.tap i) * c) := by
    rw [dot, dot, ← Finset.sum_add_distrib, Finset.sum_mul, Finset.mul_sum]
    apply Finset.sum_congr rfl
    intro i hi
    rw [Nat.zero_add, ← mul_add, hline i (Finset.mem_range.1 hi)]
    ring
  omega

/-- Equal steps balance around every place. -/
theorem IsSymmetric.dot_of_steps (hk : k.IsSymmetric) {line : Nat → Int} {start : Nat} {first step : Int}
    (hline : ∀ i < k.size, line (start + i) = first + step * (start + i : Nat)) :
    k.dot line start = (∑ i ∈ Finset.range k.size, k.tap i) * line (start + k.radius) := by
  have hsize := k.size_eq
  apply hk.dot_of_balanced
  intro i hi
  have hacross : ((start + i : Nat) : Int) + (start + (k.size - 1 - i) : Nat) =
      2 * (start + k.radius : Nat) := by
    omega
  rw [hline i hi, hline _ (by omega), hline _ k.radius_lt_size]
  calc first + step * (start + i : Nat) + (first + step * (start + (k.size - 1 - i) : Nat))
      = 2 * first + step * ((start + i : Nat) + (start + (k.size - 1 - i) : Nat)) := by ring
    _ = 2 * (first + step * (start + k.radius : Nat)) := by rw [hacross]; ring

/-- A symmetric kernel leaves every sample of a ramp as it is. -/
theorem smooth_of_steps (hk : ofTaps taps = .ok k) (hsymmetric : k.IsSymmetric)
    (hmass : k.mass < 4294967296) {first step : Int}
    (hrow : ∀ x < p.extent.width, p.grid x y = first + step * x) :
    k.smooth p x y = .ok (p.sample x y) := by
  by_cases hedge : x < k.radius ∨ p.extent.width ≤ x + k.radius
  · exact smooth_edge hedge
  · have hsize := k.size_eq
    have hleft : k.radius ≤ x := by omega
    have hright : x + k.radius < p.extent.width := by omega
    have hdot : k.dot (fun x' => p.grid x' y) (x - k.radius) = k.norm * p.grid x y := by
      have hsteps : k.dot (fun x' => p.grid x' y) (x - k.radius) =
          (∑ i ∈ Finset.range k.size, k.tap i) * p.grid (x - k.radius + k.radius) y :=
        hsymmetric.dot_of_steps fun i _ => hrow _ (by omega)
      rwa [Nat.sub_add_cancel hleft, ← norm_eq_sum hk] at hsteps
    have hsmooth := smooth_inside_of_mass (y := y) 2147483648 hleft hright
      (fun i _ => abs_toInt_le _) (by omega)
    rw [hdot, Int.mul_tdiv_cancel_left _ k.norm_ne_zero] at hsmooth
    rw [hsmooth, Plane.grid, narrow, Int32.ofInt_toInt]

end Kernel

namespace Plane

variable {k : Kernel} {taps : List Sample} {p target : Plane}

/-- Whether every row is a ramp, with samples that rise or fall by equal steps. -/
def RampRows (p : Plane) : Prop :=
  ∀ y < p.extent.height, ∃ first step : Int, ∀ x < p.extent.width, p.grid x y = first + step * x

/-- A kernel that reads the same from both ends, of any length and with taps of either sign whose
magnitudes add up to less than `2 ^ 32`, copies every plane whose rows are ramps into every plane of
the same extent, at once or sample by sample. -/
theorem smoothRows_of_rampRows (hk : Kernel.ofTaps taps = .ok k) (hsymmetric : k.IsSymmetric)
    (htaps : (taps.map fun t => |t.toInt|).sum < 4294967296) (hp : p.RampRows)
    (htarget : target.extent = p.extent) :
    p.smoothRows k target = .ok p ∧ p.smoothRowsInPlace k target = .ok () p := by
  have hmass : k.mass < 4294967296 := by
    rw [k.mass_eq_sum, (Kernel.ofTaps_eq_ok_iff.1 hk).1]
    exact htaps
  have hcopied : p.smoothRows k target = .ok p := by
    refine smoothRows_eq_ok_iff.2 ⟨htarget, rfl, fun x y hin => ?_⟩
    obtain ⟨first, step, hrow⟩ := hp y hin.2
    exact Kernel.smooth_of_steps hk hsymmetric hmass hrow
  exact ⟨hcopied, (smoothRowsInPlace_matches p k).eq_ok_iff.2 (Edit.update_eq_ok_iff.2 hcopied)⟩

/-- Three taps that sum to less than zero, with magnitudes that add up to as much as they may. -/
def sunken : Kernel := ⟨[-2147483647, 1, -2147483647], -4294967293, rfl, by decide⟩

/-- A row that falls from the highest sample to the lowest, above one that rises. -/
def slopes : Plane :=
  ⟨⟨4, 2⟩, by decide, #v[2147483647, 715827882, -715827883, -2147483648, -8, -1, 6, 13]⟩

private theorem slopes_rampRows : slopes.RampRows := by
  intro y hy
  have hrows : y = 0 ∨ y = 1 := by
    change y < 2 at hy
    omega
  rcases hrows with rfl | rfl
  · have hfall : ∀ x < 4, slopes.grid x 0 = 2147483647 + -1431655765 * x := by decide
    exact ⟨2147483647, -1431655765, hfall⟩
  · have hrise : ∀ x < 4, slopes.grid x 1 = -8 + 7 * x := by decide
    exact ⟨-8, 7, hrise⟩

/-- A plane of the same extent with no sample of the slopes. -/
def terraces : Plane := ⟨⟨4, 2⟩, by decide, #v[0, 0, 0, 0, 9, 9, 9, 9]⟩

theorem smoothRows_of_rampRows_slopes :
    Kernel.ofTaps [-2147483647, 1, -2147483647] = .ok sunken ∧ sunken.IsSymmetric ∧
      (([-2147483647, 1, -2147483647] : List Sample).map fun t => |t.toInt|).sum < 4294967296 ∧
      slopes.RampRows ∧ terraces.extent = slopes.extent ∧ slopes.smoothRows sunken terraces = .ok slopes := by
  have hk : Kernel.ofTaps [-2147483647, 1, -2147483647] = .ok sunken := by decide
  have hsymmetric : sunken.IsSymmetric := by decide
  have htaps : (([-2147483647, 1, -2147483647] : List Sample).map fun t => |t.toInt|).sum <
      4294967296 := by decide
  have htarget : terraces.extent = slopes.extent := rfl
  obtain ⟨hcopied, -⟩ := smoothRows_of_rampRows hk hsymmetric htaps slopes_rampRows htarget
  exact ⟨hk, hsymmetric, htaps, slopes_rampRows, htarget, hcopied⟩

end Plane

end Acutance
