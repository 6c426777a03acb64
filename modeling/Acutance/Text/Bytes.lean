namespace Acutance

/-- A string of bytes. -/
abbrev Bytes := List UInt8

namespace Bytes

/-- The bytes of an ASCII text. -/
def ofAscii (s : String) : Bytes := s.toList.map fun c => UInt8.ofNat c.toNat

/-- The lowest `count` bytes of a number, the highest of them first. -/
def bigEndian : (count n : Nat) → Bytes
  | 0, _ => []
  | count + 1, n => bigEndian count (n / 256) ++ [UInt8.ofNat (n % 256)]

/-- The number that bytes stand for when the first is the highest. -/
def toNat (bytes : Bytes) : Nat := bytes.foldl (fun n b => n * 256 + b.toNat) 0

@[simp] theorem length_bigEndian (count n : Nat) : (bigEndian count n).length = count := by
  induction count generalizing n with
  | zero => rfl
  | succ count ih => rw [bigEndian, List.length_append, ih, List.length_singleton]

/-- A number is read back from enough of its bytes. -/
theorem toNat_bigEndian (count n : Nat) (hn : n < Nat.pow 256 count) :
    toNat (bigEndian count n) = n := by
  induction count generalizing n with
  | zero =>
    obtain rfl : n = 0 := Nat.lt_one_iff.1 hn
    rfl
  | succ count ih =>
    have hhigh : n / 256 < Nat.pow 256 count := (Nat.div_lt_iff_lt_mul (by decide)).2 hn
    have hlow : n % 256 < 256 := Nat.mod_lt _ (by decide)
    have hdigit : (UInt8.ofNat (n % 256)).toNat = n % 256 := by
      rw [UInt8.toNat_ofNat']
      exact Nat.mod_eq_of_lt hlow
    have hsplit : toNat (bigEndian count (n / 256)) = n / 256 := ih _ hhigh
    rw [bigEndian, toNat, List.foldl_append]
    change toNat (bigEndian count (n / 256)) * 256 + (UInt8.ofNat (n % 256)).toNat = n
    rw [hsplit, hdigit]
    omega

end Bytes

end Acutance
