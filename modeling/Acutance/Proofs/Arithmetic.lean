import Mathlib.Algebra.BigOperators.Intervals
import Mathlib.Algebra.Order.BigOperators.Ring.Finset
import Mathlib.Algebra.Order.Ring.Abs
import Mathlib.Tactic.Linarith
import Acutance.Word

namespace Acutance

/-- A truncated quotient stays between the truncated quotients of any bounds on the dividend. -/
theorem tdiv_mem_of_mem {low high n d : Int} (hd : 0 < d) (hlow : low ≤ n) (hhigh : n ≤ high) :
    low.tdiv d ≤ n.tdiv d ∧ n.tdiv d ≤ high.tdiv d :=
  ⟨Int.tdiv_le_tdiv hd hlow, Int.tdiv_le_tdiv hd hhigh⟩

/-- A truncated quotient stays between the bounds that, times the divisor, bound the dividend. -/
theorem tdiv_mem_of_mul_mem {low high n d : Int} (hd : 0 < d) (hlow : low * d ≤ n)
    (hhigh : n ≤ high * d) : low ≤ n.tdiv d ∧ n.tdiv d ≤ high := by
  have h := tdiv_mem_of_mem hd hlow hhigh
  rwa [Int.mul_tdiv_cancel _ hd.ne', Int.mul_tdiv_cancel _ hd.ne'] at h

namespace Width

variable {w : Width} {a b c : Int}

theorem add_eq_ok_iff : w.add a b = .ok c ↔ w.Holds (a + b) ∧ c = a + b := keep_eq_ok_iff

theorem add_of_holds (h : w.Holds (a + b)) : w.add a b = .ok (a + b) := keep_of_holds h

theorem sub_eq_ok_iff : w.sub a b = .ok c ↔ w.Holds (a - b) ∧ c = a - b := keep_eq_ok_iff

theorem sub_of_holds (h : w.Holds (a - b)) : w.sub a b = .ok (a - b) := keep_of_holds h

theorem mul_eq_ok_iff : w.mul a b = .ok c ↔ w.Holds (a * b) ∧ c = a * b := keep_eq_ok_iff

theorem mul_of_holds (h : w.Holds (a * b)) : w.mul a b = .ok (a * b) := keep_of_holds h

theorem div_eq_ok_iff : w.div a b = .ok c ↔ b ≠ 0 ∧ w.Holds (a.tdiv b) ∧ c = a.tdiv b := by
  by_cases hb : b = 0
  · simp [div, hb]
  · rw [div, if_neg hb, keep_eq_ok_iff]
    simp [hb]

theorem div_of_holds (hb : b ≠ 0) (h : w.Holds (a.tdiv b)) : w.div a b = .ok (a.tdiv b) :=
  div_eq_ok_iff.2 ⟨hb, h, rfl⟩

theorem rem_of_holds (hb : b ≠ 0) (h : w.Holds (a.tdiv b)) : w.rem a b = .ok (a.tmod b) := by
  rw [rem, if_neg hb, if_pos h]

theorem bits32_holds_iff : bits32.Holds a ↔ -2147483648 ≤ a ∧ a ≤ 2147483647 := Iff.rfl

theorem bits64_holds_iff :
    bits64.Holds a ↔ -9223372036854775808 ≤ a ∧ a ≤ 9223372036854775807 := Iff.rfl

theorem holds_of_abs_le (h : |a| ≤ w.highest) : w.Holds a := by
  obtain ⟨hlow, hhigh⟩ := abs_le.1 h
  have hlowest : w.lowest = -w.highest - 1 := by cases w <;> rfl
  exact ⟨by omega, hhigh⟩

/-- A quotient is a word when the dividend and its negative are. -/
theorem holds_tdiv (h : |a| ≤ w.highest) : w.Holds (a.tdiv b) := by
  refine holds_of_abs_le (le_trans ?_ h)
  rw [Int.abs_eq_natAbs, Int.abs_eq_natAbs]
  exact_mod_cast Int.natAbs_tdiv_le_natAbs a b

theorem holds_tdiv_of_pos (hb : 0 < b) (h : w.Holds a) : w.Holds (a.tdiv b) := by
  have hlowest : w.lowest < 0 := by cases w <;> decide
  have hhighest : 0 < w.highest := by cases w <;> decide
  obtain ⟨hlow, hhigh⟩ := h
  exact tdiv_mem_of_mul_mem hb (by nlinarith) (by nlinarith)

/-- A checked sum of checked terms adds up the exact terms whenever it has a value. -/
theorem foldlM_add_eq_ok {α : Type} (term : α → Checked Int) (value : α → Int) {xs : List α}
    (hterm : ∀ x ∈ xs, ∀ t, term x = .ok t → t = value x) {acc total : Int}
    (h : xs.foldlM (fun sum x => term x >>= w.add sum) acc = .ok total) :
    total = acc + (xs.map value).sum := by
  induction xs generalizing acc with
  | nil =>
    obtain rfl := Except.ok.inj h
    simp
  | cons x xs ih =>
    rw [List.foldlM_cons, bind_eq_ok_iff] at h
    obtain ⟨next, hstep, hrest⟩ := h
    obtain ⟨t, ht, hadd⟩ := bind_eq_ok_iff.1 hstep
    obtain ⟨_, rfl⟩ := add_eq_ok_iff.1 hadd
    rw [ih (fun y hy => hterm y (by simp [hy])) hrest, hterm x (by simp) t ht]
    simp only [List.map_cons, List.sum_cons]
    omega

/-- A checked sum has a value when its terms have one and their magnitudes add up to a word: then no
partial sum leaves the range either. -/
theorem foldlM_add_of_abs_le {α : Type} (term : α → Checked Int) (value : α → Int) {xs : List α}
    (acc : Int) (hterm : ∀ x ∈ xs, term x = .ok (value x))
    (hbound : |acc| + (xs.map fun x => |value x|).sum ≤ w.highest) :
    xs.foldlM (fun sum x => term x >>= w.add sum) acc = .ok (acc + (xs.map value).sum) := by
  induction xs generalizing acc with
  | nil => simp [pure, Except.pure]
  | cons x xs ih =>
    simp only [List.map_cons, List.sum_cons] at hbound
    have hrest : 0 ≤ (xs.map fun x => |value x|).sum :=
      List.sum_nonneg (by simp [abs_nonneg])
    have hnext : |acc + value x| ≤ |acc| + |value x| := abs_add_le acc (value x)
    have hadd : w.add acc (value x) = .ok (acc + value x) :=
      add_of_holds (holds_of_abs_le (by omega))
    rw [List.foldlM_cons, hterm x (by simp)]
    simp only [bind, Except.bind, hadd, List.map_cons, List.sum_cons]
    rw [← add_assoc]
    exact ih (acc + value x) (fun y hy => hterm y (by simp [hy])) (by omega)

/-- A checked sum of counted words has a value exactly when no partial sum leaves the range. -/
theorem foldlM_range_add_eq_ok_iff {value : Nat → Int} {n : Nat} {total : Int} :
    (List.range n).foldlM (fun sum i => w.add sum (value i)) 0 = .ok total ↔
      (∀ m ≤ n, w.Holds (∑ i ∈ Finset.range m, value i)) ∧
        total = ∑ i ∈ Finset.range n, value i := by
  induction n generalizing total with
  | zero =>
    have hzero : w.Holds 0 := by cases w <;> decide
    simp [hzero, pure, Except.pure, eq_comm]
  | succ n ih =>
    rw [List.range_succ, List.foldlM_append, bind_eq_ok_iff]
    simp only [ih, List.foldlM_cons, List.foldlM_nil, bind_pure, add_eq_ok_iff,
      Finset.sum_range_succ]
    constructor
    · rintro ⟨_, ⟨hpartial, rfl⟩, hlast, rfl⟩
      refine ⟨fun m hm => ?_, rfl⟩
      rcases Nat.le_succ_iff.1 hm with hle | rfl
      · exact hpartial m hle
      · rw [Finset.sum_range_succ]
        exact hlast
    · rintro ⟨hpartial, rfl⟩
      have hlast := hpartial (n + 1) le_rfl
      rw [Finset.sum_range_succ] at hlast
      exact ⟨_, ⟨fun m hm => hpartial m (by omega), rfl⟩, hlast, rfl⟩

end Width

/-- The remainder of a truncated quotient is smaller than the divisor, on either side of zero. -/
theorem tmod_mem {n d : Int} (hd : 0 < d) : -d < n.tmod d ∧ n.tmod d < d := by
  refine ⟨?_, Int.tmod_lt_of_pos n hd⟩
  have h := Int.tmod_lt_of_pos (-n) hd
  rw [Int.neg_tmod] at h
  omega

/-- The remainder of a dividend that is not below zero is between zero and the dividend. -/
theorem tmod_mem_of_nonneg {n : Int} (d : Int) (hn : 0 ≤ n) : 0 ≤ n.tmod d ∧ n.tmod d ≤ n := by
  have hnonneg := Int.tmod_nonneg d hn
  have habs := Int.natAbs_tmod n d
  have hle := Nat.mod_le n.natAbs d.natAbs
  omega

/-- A quotient that is not below zero, by the multiples of the divisor around the dividend. -/
theorem tdiv_mul_mem {a d : Int} (ha : 0 ≤ a) (hd : 0 < d) :
    a.tdiv d * d ≤ a ∧ a < a.tdiv d * d + d := by
  have hsplit := Int.mul_tdiv_add_tmod a d
  have hrest := tmod_mem_of_nonneg d ha
  have hless := Int.tmod_lt_of_pos a hd
  rw [mul_comm] at hsplit
  omega

/-- A product is bounded by the corners when the interval of its first factor reaches across zero. -/
theorem mul_mem_of_mem {a b low high bottom top : Int} (ha : low ≤ a ∧ a ≤ high)
    (hb : bottom ≤ b ∧ b ≤ top) (hlow : low ≤ 0) (hhigh : 0 ≤ high) :
    min (low * top) (high * bottom) ≤ a * b ∧ a * b ≤ max (low * bottom) (high * top) := by
  obtain ⟨halow, hahigh⟩ := ha
  obtain ⟨hblow, hbhigh⟩ := hb
  constructor
  · rcases le_total 0 b with hb0 | hb0
    · exact (min_le_left _ _).trans (by nlinarith)
    · exact (min_le_right _ _).trans (by nlinarith)
  · rcases le_total 0 b with hb0 | hb0
    · exact le_max_of_le_right (by nlinarith)
    · exact le_max_of_le_left (by nlinarith)

end Acutance
