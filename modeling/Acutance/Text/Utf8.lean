import Acutance.Text.Bytes

namespace Acutance.Utf8

/-- The character that stands for bytes without a reading. -/
def replacement : Char := '\ufffd'

/-- What a byte that begins a longer character asks of the bytes after it: their number, the range
of the next one, and its own share of the code point. -/
structure Lead where
  count : Nat
  low : UInt8
  high : UInt8
  share : Nat

/-- How a byte begins a character of two to four bytes. The range of the next byte keeps out
overlong forms, surrogates and code points above the last one. -/
def lead? (b : UInt8) : Option Lead :=
  if 0xC2 ≤ b && b ≤ 0xDF then some ⟨1, 0x80, 0xBF, b.toNat - 0xC0⟩
  else if b = 0xE0 then some ⟨2, 0xA0, 0xBF, 0⟩
  else if b = 0xED then some ⟨2, 0x80, 0x9F, 13⟩
  else if 0xE1 ≤ b && b ≤ 0xEF then some ⟨2, 0x80, 0xBF, b.toNat - 0xE0⟩
  else if b = 0xF0 then some ⟨3, 0x90, 0xBF, 0⟩
  else if b = 0xF4 then some ⟨3, 0x80, 0x8F, 4⟩
  else if 0xF1 ≤ b && b ≤ 0xF3 then some ⟨3, 0x80, 0xBF, b.toNat - 0xF0⟩
  else none

/-- The bytes at the front that continue a character, at most as many as the lead asks for. -/
def continuation (l : Lead) (bytes : Bytes) : Bytes :=
  match bytes with
  | [] => []
  | b :: rest =>
    if l.low ≤ b && b ≤ l.high then
      b :: (rest.take (l.count - 1)).takeWhile fun c => 0x80 ≤ c && c ≤ 0xBF
    else []

/-- The character of a lead and all the bytes that it asks for. -/
def assemble (l : Lead) (tail : Bytes) : Char :=
  Char.ofNat (tail.foldl (fun n b => n * 64 + (b.toNat - 0x80)) l.share)

/-- The characters of a byte string. Every longest run of bytes that begins a character and cannot
be completed becomes one replacement character. -/
def decode (bytes : Bytes) : List Char :=
  match bytes with
  | [] => []
  | b :: rest =>
    if b < 0x80 then Char.ofNat b.toNat :: decode rest
    else
      match lead? b with
      | none => replacement :: decode rest
      | some l =>
        let tail := continuation l rest
        let c := if tail.length = l.count then assemble l tail else replacement
        c :: decode (rest.drop tail.length)
termination_by bytes.length
decreasing_by
  all_goals simp only [List.length_cons, List.length_drop]; omega

/-- The text of a byte string. -/
def text (bytes : Bytes) : String := String.ofList (decode bytes)

end Acutance.Utf8
