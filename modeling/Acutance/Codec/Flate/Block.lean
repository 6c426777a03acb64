import Acutance.Codec.Flate.Huffman

namespace Acutance.Codec.Flate.Block

/-- The symbol that ends a block. -/
def endSymbol : Nat := 256

/-- The number of symbols for literals, the end and lengths that a block may describe. -/
def maxLiterals : Nat := 286

/-- The number of symbols for distances that a block may describe. -/
def maxDistances : Nat := 30

/-- For each symbol of a length: the shortest length and the number of extra bits. -/
def lengthTable : Array (Nat × Nat) :=
  #[(3, 0), (4, 0), (5, 0), (6, 0), (7, 0), (8, 0), (9, 0), (10, 0), (11, 1), (13, 1), (15, 1),
    (17, 1), (19, 2), (23, 2), (27, 2), (31, 2), (35, 3), (43, 3), (51, 3), (59, 3), (67, 4),
    (83, 4), (99, 4), (115, 4), (131, 5), (163, 5), (195, 5), (227, 5), (258, 0)]

/-- Whether a symbol ends a block. The fixed code has words for two symbols behind those of the
lengths, and these end a block as well. -/
def IsEnd (symbol : Nat) : Prop := symbol = endSymbol ∨ endSymbol + lengthTable.size < symbol

instance (symbol : Nat) : Decidable (IsEnd symbol) := inferInstanceAs (Decidable (_ ∨ _))

/-- For each symbol of a distance: the shortest distance and the number of extra bits. -/
def distanceTable : Array (Nat × Nat) :=
  #[(1, 0), (2, 0), (3, 0), (4, 0), (5, 1), (7, 1), (9, 2), (13, 2), (17, 3), (25, 3), (33, 4),
    (49, 4), (65, 5), (97, 5), (129, 6), (193, 6), (257, 7), (385, 7), (513, 8), (769, 8),
    (1025, 9), (1537, 9), (2049, 10), (3073, 10), (4097, 11), (6145, 11), (8193, 12), (12289, 12),
    (16385, 13), (24577, 13)]

/-- The two codes of a block. -/
structure Codes where
  /-- The code for literals, the end of the block and lengths. -/
  literals : Huffman
  distances : Huffman

/-- The fixed codes. -/
def fixedCodes : Codes where
  literals := .ofLengths (List.replicate 144 8 ++ List.replicate 112 9 ++ List.replicate 24 7 ++
    List.replicate 8 8)
  distances := .ofLengths (List.replicate 32 5)

/-- How many lengths a block lists for each of its codes, and for the code that it lists them in. -/
structure Sizes where
  literals : Nat
  distances : Nat
  order : Nat
  deriving DecidableEq, Repr

namespace Sizes

/-- The sizes in the fourteen bits that give them, if a block may have them. -/
def ofBits? (bits : Nat) : Option Sizes :=
  let sizes : Sizes := ⟨257 + bits % 32, 1 + bits / 32 % 32, 4 + bits / 1024 % 16⟩
  if sizes.literals ≤ maxLiterals ∧ sizes.distances ≤ maxDistances then some sizes else none

/-- The number of lengths of both codes. -/
def total (s : Sizes) : Nat := s.literals + s.distances

end Sizes

/-- The order in which a block lists the lengths of the code for its own lengths. -/
def lengthOrder : List Nat := [16, 17, 18, 0, 8, 7, 9, 6, 10, 5, 11, 4, 12, 3, 13, 2, 14, 1, 15]

/-- The code for lengths whose own lengths are listed in their order. The code is complete. -/
def lengthCode? (listed : List Nat) : Option Huffman :=
  let pairs := lengthOrder.zip listed
  let code := Huffman.ofLengths
    ((List.range lengthOrder.length).map fun symbol => (pairs.lookup symbol).getD 0)
  if code.IsComplete then some code else none

/-- The codes with the given lengths. There is a code word for the end of the block, the code for
literals is complete, and that for distances is complete or degenerate. -/
def codes? (sizes : Sizes) (lengths : Array Nat) : Option Codes :=
  let literals := Huffman.ofLengths (lengths.toList.take sizes.literals)
  let distances := Huffman.ofLengths (lengths.toList.drop sizes.literals)
  if lengths.getD endSymbol 0 ≠ 0 ∧ literals.IsComplete ∧
      (distances.IsComplete ∨ distances.IsDegenerate) then
    some ⟨literals, distances⟩
  else none

/-- A run of lengths that one symbol stands for: the last length, or zeros. -/
structure LengthRun where
  repeatsLast : Bool
  shortest : Nat
  extraBits : Nat
  deriving DecidableEq, Repr

/-- The run that a symbol stands for. A smaller symbol is a length itself. -/
def lengthRun? (symbol : Nat) : Option LengthRun :=
  if symbol < 16 then none
  else if symbol = 16 then some ⟨true, 3, 2⟩
  else if symbol = 17 then some ⟨false, 3, 3⟩
  else some ⟨false, 11, 7⟩

end Acutance.Codec.Flate.Block
