import Acutance.Text.Bytes

namespace Acutance.Decimal

/-- The byte of the digit zero. -/
def zero : UInt8 := 48

/-- Whether a byte is an ASCII digit. -/
def isDigit (b : UInt8) : Bool := 48 ≤ b && b ≤ 57

/-- The byte of a digit below ten. -/
def digit (n : Nat) : UInt8 := UInt8.ofNat (48 + n)

/-- The digits of a number without leading zeros. -/
def digits (n : Nat) : Bytes :=
  if n < 10 then [digit n] else digits (n / 10) ++ [digit (n % 10)]
termination_by n
decreasing_by omega

/-- The number that digits stand for. Leading zeros do not count. -/
def toNat (ds : Bytes) : Nat := ds.foldl (fun n d => n * 10 + (d.toNat - zero.toNat)) 0

private theorem toNat_digit {n : Nat} (hn : n < 10) : (digit n).toNat = 48 + n := by
  rw [digit, UInt8.toNat_ofNat']
  exact Nat.mod_eq_of_lt (by omega)

private theorem isDigit_digit {n : Nat} (hn : n < 10) : isDigit (digit n) = true := by
  have h := toNat_digit hn
  simp only [isDigit, Bool.and_eq_true, decide_eq_true_eq, UInt8.le_iff_toNat_le, h]
  exact ⟨Nat.le_add_right 48 n, by change 48 + n ≤ 57; omega⟩

/-- A number is read back from its digits. -/
theorem toNat_digits (n : Nat) : toNat (digits n) = n := by
  fun_induction digits n with
  | case1 n hn =>
    simp only [toNat, List.foldl_cons, List.foldl_nil, toNat_digit hn]
    change 0 * 10 + (48 + n - 48) = n
    omega
  | case2 n hn ih =>
    have hlow := toNat_digit (Nat.mod_lt n (by decide : 0 < 10))
    rw [toNat, List.foldl_append]
    change toNat (digits (n / 10)) * 10 + ((digit (n % 10)).toNat - 48) = n
    rw [ih, hlow]
    omega

/-- Only digits are written. -/
theorem isDigit_of_mem_digits {n : Nat} {b : UInt8} (hb : b ∈ digits n) : isDigit b = true := by
  fun_induction digits n with
  | case1 n hn =>
    rw [List.mem_singleton] at hb
    exact hb ▸ isDigit_digit hn
  | case2 n hn ih =>
    rcases List.mem_append.1 hb with h | h
    · exact ih h
    · rw [List.mem_singleton] at h
      exact h ▸ isDigit_digit (Nat.mod_lt n (by decide))

/-- At least one digit is written. -/
theorem digits_ne_nil (n : Nat) : digits n ≠ [] := by
  unfold digits
  split
  · exact List.cons_ne_nil _ _
  · exact List.append_ne_nil_of_right_ne_nil _ (List.cons_ne_nil _ _)

end Acutance.Decimal
