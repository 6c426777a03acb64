namespace Acutance.Codec.Flate

/-- How many code words there are of each length, and the symbols in the order of their words.
Shorter words come first, and words of one length follow the order of their symbols. -/
structure Huffman where
  counts : Array Nat
  symbols : Array Nat

/-- A symbol and the length of its code word. -/
structure CodeWord where
  symbol : Nat
  length : Nat
  deriving DecidableEq, Repr

namespace Huffman

/-- The longest code word, in bits. -/
def maxLength : Nat := 15

/-- The code with the given lengths. A symbol of length zero has no code word. -/
def ofLengths (lengths : List Nat) : Huffman where
  counts := (List.range (maxLength + 1)).toArray.map fun l => if l = 0 then 0 else lengths.count l
  symbols := ((List.range' 1 maxLength).flatMap fun l =>
    lengths.zipIdx.filterMap fun (length, symbol) =>
      if length = l then some symbol else none).toArray

/-- The number of words of the longest length that the code words are prefixes of. -/
def coverage (h : Huffman) : Nat :=
  (List.range' 1 maxLength).foldl (fun sum l => sum + h.counts.getD l 0 <<< (maxLength - l)) 0

/-- Whether every sufficiently long string of bits begins with exactly one code word. -/
def IsComplete (h : Huffman) : Prop := h.coverage = 1 <<< maxLength

instance (h : Huffman) : Decidable h.IsComplete := inferInstanceAs (Decidable (_ = _))

/-- Whether the code has no code words, or a single one of one bit. -/
def IsDegenerate (h : Huffman) : Prop :=
  h.coverage = 0 ∨ h.symbols.size = 1 ∧ h.counts.getD 1 0 = 1

instance (h : Huffman) : Decidable h.IsDegenerate := inferInstanceAs (Decidable (_ ∨ _ ∧ _))

/-- Looks for the rest of a code word in bits whose first is the lowest of `window`. `word` is what
is known of the code word, doubled, `first` the first code word of the length at hand and `index`
the number of shorter ones. -/
def walk (h : Huffman) : (left length window word first index : Nat) → Option CodeWord
  | 0, _, _, _, _, _ => none
  | left + 1, length, window, word, first, index =>
    let word := word + window % 2
    let count := h.counts.getD length 0
    if word < first + count then some ⟨h.symbols.getD (index + (word - first)) 0, length⟩
    else h.walk left (length + 1) (window / 2) (word * 2) ((first + count) * 2) (index + count)

/-- The code word of at most `longest` bits that bits begin with, if they begin with one. -/
def codeWord? (h : Huffman) (longest window : Nat) : Option CodeWord :=
  h.walk longest 1 window 0 0 0

end Huffman

end Acutance.Codec.Flate
