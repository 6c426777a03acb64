import Acutance.Proofs.Filter.Columns

namespace Acutance

namespace Kernel

/-- The sum that is formed in a place by the first `m` taps. Each adds the sample itself and weighs the one
that it stands over. -/
def columnSum (k : Kernel) (p : Plane) (x y m : Nat) : Int :=
  ∑ i ∈ Finset.range m, (p.grid x y + k.tap i * p.grid x (y - k.radius + i))

/-- No sum that is formed in a place leaves a word, and neither does the quotient. -/
structure FitsAt (k : Kernel) (p : Plane) (x y : Nat) : Prop where
  sum_holds : ∀ m ≤ k.size, Width.bits64.Holds (k.columnSum p x y m)
  quotient_holds : Width.bits64.Holds ((k.columnSum p x y k.size).tdiv k.norm)

/-- What a place becomes: zero within the radius of the top or bottom edge, and else the low bits of the
weighted sum of its column, with the sample itself once per tap, over the divisor. -/
def columnReference (k : Kernel) (p : Plane) (x y : Nat) : Sample :=
  if y < k.radius ∨ p.extent.height ≤ y + k.radius then 0
  else narrow ((k.size * p.grid x y +
    ∑ i ∈ Finset.range k.size, k.tap i * p.grid x (y - k.radius + i)).tdiv k.norm)

variable {k : Kernel} {p : Plane} {x y : Nat}

private theorem columnSum_size (k : Kernel) (p : Plane) (x y : Nat) : k.columnSum p x y k.size =
    k.size * p.grid x y + ∑ i ∈ Finset.range k.size, k.tap i * p.grid x (y - k.radius + i) := by
  rw [columnSum, Finset.sum_add_distrib]
  simp

/-- A kernel with taps around the middle one has the detail of a place exactly when nothing that is formed
there leaves a word. -/
theorem detail_eq_ok_iff (hpos : 0 < k.radius) {d : Sample} : k.detail p x y = .ok d ↔
    (k.radius ≤ y → y + k.radius < p.extent.height → k.FitsAt p x y) ∧
      d = k.columnReference p x y := by
  by_cases hedge : y < k.radius ∨ p.extent.height ≤ y + k.radius
  · rw [detail_edge hedge, columnReference, if_pos hedge]
    constructor
    · intro h
      exact ⟨fun htop hbottom => absurd hedge (by omega), (Except.ok.inj h).symm⟩
    · rintro ⟨-, rfl⟩
      rfl
  · have htop : k.radius ≤ y := by omega
    have hbottom : y + k.radius < p.extent.height := by omega
    have hweigh {sum : Int} : k.weighBiased (p.sample x y).toInt (k.columnWindow p x y) = .ok sum ↔
        (∀ m ≤ k.size, Width.bits64.Holds (k.columnSum p x y m)) ∧ sum = k.columnSum p x y k.size :=
      weighBiased_eq_ok_iff
    rw [detail_inside htop hbottom, columnReference, if_neg hedge, ← columnSum_size, bind_eq_ok_iff]
    simp only [hweigh, if_neg hpos.ne', scaleDown_eq_ok_iff]
    constructor
    · rintro ⟨_, ⟨hsums, rfl⟩, hquotient, rfl⟩
      exact ⟨fun _ _ => ⟨hsums, hquotient⟩, rfl⟩
    · rintro ⟨hfits, rfl⟩
      obtain ⟨hsums, hquotient⟩ := hfits htop hbottom
      exact ⟨_, ⟨hsums, rfl⟩, hquotient, rfl⟩

/-- The sample that is added once per tap weighs as much as the number of taps on the middle one. -/
theorem sum_centered (hy : k.radius ≤ y) : k.size * p.grid x y +
    ∑ i ∈ Finset.range k.size, k.tap i * p.grid x (y - k.radius + i) =
      ∑ i ∈ Finset.range k.size,
        (k.tap i + if i = k.radius then (k.size : Int) else 0) * p.grid x (y - k.radius + i) := by
  have hmiddle : y - k.radius + k.radius = y := Nat.sub_add_cancel hy
  simp only [add_mul, Finset.sum_add_distrib, ite_mul, zero_mul, Finset.sum_ite_eq',
    Finset.mem_range, k.radius_lt_size, if_true, hmiddle]
  exact add_comm _ _

end Kernel

namespace Plane

variable {p q : Plane} {k : Kernel}

/-- The column pass of a kernel of three taps or more comes to an end exactly when no sum and no quotient
inside leaves a word, and then every place holds the reference, read off the plane before the pass. The
reference is zero in every row of a plane that is no higher than twice the radius, and elsewhere it is a
plain convolution of the column, with the number of taps added to the middle one. -/
theorem detailColumns_eq_ok_iff_reference (hsize : 3 ≤ k.size) :
    (p.detailColumns k = .ok q ↔
      (∀ x y, p.extent.Contains x y → k.radius ≤ y → y + k.radius < p.extent.height →
        k.FitsAt p x y) ∧
      q.extent = p.extent ∧
      ∀ x y, p.extent.Contains x y → q.sample x y = k.columnReference p x y) ∧
    (p.extent.height ≤ 2 * k.radius → ∀ x y, k.columnReference p x y = 0) ∧
    ∀ x y, k.radius ≤ y → y + k.radius < p.extent.height → k.columnReference p x y =
      narrow ((∑ i ∈ Finset.range k.size, (k.tap i + if i = k.radius then (k.size : Int) else 0) *
        p.grid x (y - k.radius + i)).tdiv k.norm) := by
  have hpos : 0 < k.radius := by
    have := k.size_eq
    omega
  refine ⟨?_, fun hlow x y => if_pos (by omega), fun x y htop hbottom => ?_⟩
  · simp only [detailColumns_eq_ok_iff, Kernel.detail_eq_ok_iff hpos]
    constructor
    · rintro ⟨hextent, hplaces⟩
      exact ⟨fun x y hin => (hplaces x y hin).1, hextent, fun x y hin => (hplaces x y hin).2⟩
    · rintro ⟨hfits, hextent, hreference⟩
      exact ⟨hextent, fun x y hin => ⟨hfits x y hin, hreference x y hin⟩⟩
  · rw [← Kernel.sum_centered htop, Kernel.columnReference, if_neg (by omega)]

/-- Three taps that are not the same from both ends. -/
def slope : Kernel := ⟨[1, 2, -2], 1, rfl, by decide⟩

/-- A column with the largest sample in the middle. -/
def peak : Plane := ⟨⟨1, 3⟩, by decide, #v[5, 2147483647, 0]⟩

theorem detailColumns_eq_ok_iff_reference_peak : 3 ≤ slope.size ∧
    ∃ q, peak.detailColumns slope = .ok q ∧ q.sample 0 0 = 0 ∧ q.sample 0 1 = -2147483648 ∧
      q.sample 0 2 = 0 := by
  have hsize : 3 ≤ slope.size := by decide
  have hends : (peak.detailColumns slope).toBool = true := by decide +kernel
  cases hrun : peak.detailColumns slope with
  | error fault =>
    rw [hrun] at hends
    cases hends
  | ok q =>
    obtain ⟨-, -, hreference⟩ := (detailColumns_eq_ok_iff_reference hsize).1.1 hrun
    refine ⟨hsize, q, rfl, ?_, ?_, ?_⟩
    · rw [hreference 0 0 (by decide)]
      decide
    · rw [hreference 0 1 (by decide)]
      decide
    · rw [hreference 0 2 (by decide)]
      decide

end Plane

end Acutance
