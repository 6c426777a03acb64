import Acutance.Proofs.Filter.Build

namespace Acutance

/-- What the low 32 bits of the negative of an integer leave out. -/
theorem toInt_narrow_neg (n : Int) :
    (narrow (-n)).toInt = 4294967296 * ((n + 2147483647) / 4294967296) - n := by
  have hsize : (Int32.size : Int) = 4294967296 := rfl
  rw [narrow, Int32.toInt_ofInt, Int.bmod_def, hsize]
  split <;> omega

namespace Kernel

variable {k : Kernel} {taps : List Sample}

/-- The sum of the taps around the middle one. -/
def around (k : Kernel) : Int := ∑ i ∈ (Finset.range k.size).erase k.radius, k.tap i

/-- What the middle tap of the high-pass kernel gains by being stored in 32 bits, in multiples of
`2 ^ 32`. -/
def carry (k : Kernel) : Int := (k.around + 2147483647) / 4294967296

private theorem carry_eq_zero_iff (k : Kernel) :
    k.carry = 0 ↔ -2147483647 ≤ k.around ∧ k.around ≤ 2147483648 := by
  unfold carry
  omega

/-- A kernel that divides by the sum of its taps divides by the middle one and those around it. -/
theorem norm_of_ofTaps (hk : ofTaps taps = .ok k) : k.norm = k.tap k.radius + k.around := by
  have hmiddle : k.radius ∈ Finset.range k.size := Finset.mem_range.2 k.radius_lt_size
  calc k.norm = ∑ i ∈ Finset.range k.size, k.tap i := norm_eq_sum hk
    _ = k.tap k.radius + k.around := (Finset.add_sum_erase _ _ hmiddle).symm

private theorem tap_highpass_radius (hk : ofTaps taps = .ok k) :
    k.highpass.tap k.radius = 4294967296 * k.carry - k.around := by
  have hlt := k.radius_lt_size
  have hmiddle : k.highpass.tap k.radius = (narrow (k.tap k.radius - k.norm)).toInt := by
    unfold size at hlt
    simp [tap, highpass, hlt]
  have hleft : k.tap k.radius - k.norm = -k.around := by
    rw [norm_of_ofTaps hk]
    omega
  rw [hmiddle, hleft, toInt_narrow_neg]
  rfl

/-- The high-pass kernel weighs the middle of a line by the divisor less than the kernel, up to what its
middle tap has gained. -/
theorem dot_highpass (hk : ofTaps taps = .ok k) (line : Nat → Int) (start : Nat) :
    k.highpass.dot line start =
      k.dot line start + (4294967296 * k.carry - k.norm) * line (start + k.radius) := by
  have htap : ∀ i, k.highpass.tap i =
      k.tap i + if i = k.radius then 4294967296 * k.carry - k.norm else 0 := by
    intro i
    by_cases hi : i = k.radius
    · subst hi
      rw [if_pos rfl, tap_highpass_radius hk, norm_of_ofTaps hk]
      omega
    · rw [if_neg hi, tap_highpass_of_ne hi, add_zero]
  simp only [dot, size_highpass, htap, add_mul, Finset.sum_add_distrib, ite_mul, zero_mul,
    Finset.sum_ite_eq', Finset.mem_range, k.radius_lt_size, if_true]

private theorem sum_highpass (hk : ofTaps taps = .ok k) : k.highpass.sum = 4294967296 * k.carry := by
  have hones : k.dot (fun _ => 1) 0 = k.norm := by
    rw [dot_const, norm_eq_sum hk, mul_one]
  calc k.highpass.sum = k.highpass.dot (fun _ => 1) 0 := by
        rw [dot_const, sum_eq, mul_one]
    _ = k.norm + (4294967296 * k.carry - k.norm) * 1 := by rw [dot_highpass hk, hones]
    _ = 4294967296 * k.carry := by omega

/-- The divisor, and the sum of the high-pass kernel, are those that a 64-bit word adds up. -/
theorem addUp_of_ofTaps (hk : ofTaps taps = .ok k) (hlength : taps.length ≤ 4294967296) :
    addUp k.taps = .ok k.norm ∧ addUp k.highpass.taps = .ok k.highpass.sum := by
  obtain ⟨rfl, hnorm⟩ := ofTaps_eq_ok_iff.1 hk
  rw [hnorm]
  exact ⟨addUp_eq hlength, addUp_eq (k.size_highpass.trans_le hlength)⟩

/-- The high-pass kernel keeps the divisor and every tap but the middle one. Its taps sum to zero, and
weigh every line as the kernel does less the divisor times the middle of the line, exactly when the taps
around the middle one sum to at least `-(2 ^ 31 - 1)` and at most `2 ^ 31`. For all other taps, the middle
one does not fit into 32 bits, and both are off by a multiple of `2 ^ 32`. The divisor and the sum are
those of a 64-bit word for as long as there are no more than `2 ^ 32` taps. -/
theorem highpass_weighs_difference (hk : ofTaps taps = .ok k) :
    k.highpass.norm = k.norm ∧ k.highpass.size = k.size ∧ k.highpass.radius = k.radius ∧
    (∀ i, i ≠ k.radius → k.highpass.get? i = k.get? i) ∧
    ((k.highpass.sum = 0 ∧ ∀ line start,
        k.highpass.dot line start = k.dot line start - k.norm * line (start + k.radius)) ↔
      -2147483647 ≤ k.around ∧ k.around ≤ 2147483648) ∧
    k.highpass.sum = 4294967296 * k.carry ∧
    (∀ line start, k.highpass.dot line start =
      k.dot line start + (4294967296 * k.carry - k.norm) * line (start + k.radius)) ∧
    (taps.length ≤ 4294967296 → addUp k.taps = .ok k.norm ∧
      addUp k.highpass.taps = .ok k.highpass.sum) := by
  refine ⟨rfl, k.size_highpass, k.radius_highpass, fun i => get?_highpass_of_ne, ?_,
    sum_highpass hk, dot_highpass hk, addUp_of_ofTaps hk⟩
  rw [← k.carry_eq_zero_iff, sum_highpass hk]
  constructor
  · rintro ⟨hsum, -⟩
    omega
  · intro hcarry
    refine ⟨by rw [hcarry, mul_zero], fun line start => ?_⟩
    rw [dot_highpass hk, hcarry]
    ring

/-- Three taps with as much weight around the middle one as its negative can still take off. -/
def brink : Kernel := ⟨[2147483647, 5, 1], 2147483653, rfl, by decide⟩

theorem highpass_weighs_difference_brink : ofTaps [2147483647, 5, 1] = .ok brink ∧
    brink.highpass.get? 1 = some (-2147483648) ∧ brink.highpass.sum = 0 ∧
    (∀ line start,
      brink.highpass.dot line start = brink.dot line start - 2147483653 * line (start + 1)) ∧
    addUp brink.highpass.taps = .ok 0 := by
  have hk : ofTaps [2147483647, 5, 1] = .ok brink := by decide
  obtain ⟨-, -, -, -, hlaw, -, -, hwords⟩ := highpass_weighs_difference hk
  obtain ⟨hsum, hdot⟩ := hlaw.2 (by decide)
  have hword := (hwords (by decide)).2
  rw [hsum] at hword
  exact ⟨hk, by decide, hsum, hdot, hword⟩

/-- Three taps with more weight around the middle one than its negative can take off. -/
def steep : Kernel := ⟨[2147483647, 1, 2], 2147483650, rfl, by decide⟩

/-- The middle tap of a high-pass kernel can come out with the wrong sign. -/
theorem highpass_steep_wraps : ofTaps [2147483647, 1, 2] = .ok steep ∧
    steep.highpass.get? 1 = some 2147483647 ∧ steep.highpass.sum = 4294967296 := by
  decide

end Kernel

end Acutance
