import Acutance.Codec.Flate.Block
import Acutance.Codec.Flate.Stream

namespace Acutance.Codec.Flate

/-- What is taken next. -/
inductive Phase where
  /-- The two bytes that open the envelope. -/
  | opening
  /-- The header of a block. -/
  | header
  /-- Bytes that stand in the data as they are. -/
  | stored (left : Nat)
  /-- The lengths of the code that lengths are listed in. -/
  | order (sizes : Block.Sizes)
  /-- The lengths of a block's own codes. -/
  | lengths (sizes : Block.Sizes) (code : Huffman) (listed : Array Nat)
  /-- The symbols of a block. -/
  | symbols (codes : Block.Codes)
  /-- Nothing: a symbol stood for more bytes than may come out. -/
  | overrun
  /-- The checksum that closes the envelope. -/
  | closing
  /-- Nothing: the data is at its end. -/
  | finished (checksum : Nat)

/-- The state of decompression, and whether the block at hand is the last one. -/
structure Inflater where
  stream : Stream
  phase : Phase
  last : Bool

/-- What becomes of a step. -/
inductive Progress where
  | moved (i : Inflater)
  | waiting (i : Inflater)
  /-- The data breaks a rule of the format. -/
  | corrupt

namespace Inflater

/-- Decompression that puts out at most `limit` bytes. -/
def start (limit : Nat) : Inflater := ⟨.start limit, .opening, false⟩

/-- Whether the data was taken to its end. -/
def isFinished (i : Inflater) : Bool :=
  match i.phase with
  | .finished _ => true
  | _ => false

/-- The phase behind a block. -/
def afterBlock (last : Bool) : Phase := if last then .closing else .header

/-- Takes the two bytes that open the envelope. The method has to be the known one with a window
that it allows, without a preset dictionary, and the check bits have to be right. -/
def takeOpening (s : Stream) (last : Bool) : Progress :=
  if s.available < 16 then .waiting ⟨s, .opening, last⟩
  else
    let method := s.bits 0 8
    let flags := s.bits 8 8
    if method % 16 ≠ 8 ∨ 7 < method / 16 ∨ flags / 32 % 2 = 1 ∨
        (method * 256 + flags) % 31 ≠ 0 then .corrupt
    else .moved ⟨s.skip 16, .header, last⟩

/-- The fewest bits that the header of a block is looked for in: a block without bytes under the
fixed codes takes no more. -/
def headerBits : Nat := 10

/-- Takes the header of a stored block: its length, given twice, the second time with every bit
turned over. -/
def takeStoredHeader (s : Stream) (last old : Bool) : Progress :=
  let offset := 3 + s.padding 3
  if s.available < offset + 32 then .waiting ⟨s, .header, old⟩
  else
    let length := s.bits offset 16
    if length + s.bits (offset + 16) 16 ≠ 65535 then .corrupt
    else .moved ⟨s.skip (offset + 32), .stored length, last⟩

/-- Takes the header of a block under the fixed codes, and the whole block if it has no bytes. -/
def takeFixedHeader (s : Stream) (last : Bool) : Progress :=
  if s.bits 3 7 = 0 then .moved ⟨s.skip headerBits, afterBlock last, last⟩
  else .moved ⟨s.skip 3, .symbols Block.fixedCodes, last⟩

/-- Takes the header of a block that describes its codes. -/
def takeDescribedHeader (s : Stream) (last old : Bool) : Progress :=
  if s.available < 17 then .waiting ⟨s, .header, old⟩
  else match Block.Sizes.ofBits? (s.bits 3 14) with
    | none => .corrupt
    | some sizes => .moved ⟨s.skip 17, .order sizes, last⟩

/-- Takes the header of a block. -/
def takeHeader (s : Stream) (old : Bool) : Progress :=
  if s.available < headerBits then .waiting ⟨s, .header, old⟩
  else
    let last := s.bits 0 1 = 1
    match s.bits 1 2 with
    | 0 => takeStoredHeader s last old
    | 1 => takeFixedHeader s last
    | 2 => takeDescribedHeader s last old
    | _ => .corrupt

/-- Takes as many bytes of a stored block as are there and may come out. -/
def takeStored (s : Stream) (left : Nat) (last : Bool) : Progress :=
  let count := min left (min (s.available / 8) s.room)
  if count = left then .moved ⟨s.copyBytes count, afterBlock last, last⟩
  else .waiting ⟨s.copyBytes count, .stored (left - count), last⟩

/-- Takes the lengths of the code that lengths are listed in. -/
def takeOrder (s : Stream) (sizes : Block.Sizes) (last : Bool) : Progress :=
  if s.available < 3 * sizes.order then .waiting ⟨s, .order sizes, last⟩
  else match Block.lengthCode? ((List.range sizes.order).map fun n => s.bits (3 * n) 3) with
    | none => .corrupt
    | some code => .moved ⟨s.skip (3 * sizes.order), .lengths sizes code #[], last⟩

/-- The fewest bits that a length is looked for in: the longest code word of a length. -/
def lengthBits : Nat := 7

/-- Takes a symbol of the lengths of a block's own codes, or the codes when all lengths are
there. -/
def takeLength (s : Stream) (sizes : Block.Sizes) (code : Huffman) (listed : Array Nat)
    (last : Bool) : Progress :=
  if sizes.total ≤ listed.size then
    match Block.codes? sizes listed with
    | none => .corrupt
    | some codes => .moved ⟨s, .symbols codes, last⟩
  else if s.available < lengthBits then .waiting ⟨s, .lengths sizes code listed, last⟩
  else match code.codeWord? lengthBits (s.window 0) with
    | none => .corrupt
    | some word =>
      match Block.lengthRun? word.symbol with
      | none => .moved ⟨s.skip word.length, .lengths sizes code (listed.push word.symbol), last⟩
      | some run =>
        if s.available < word.length + run.extraBits then
          .waiting ⟨s, .lengths sizes code listed, last⟩
        else if run.repeatsLast && listed.isEmpty then .corrupt
        else
          let count := run.shortest + s.bits word.length run.extraBits
          let length := if run.repeatsLast then listed.back?.getD 0 else 0
          if sizes.total < listed.size + count then .corrupt
          else .moved ⟨s.skip (word.length + run.extraBits),
            .lengths sizes code (listed ++ Array.replicate count length), last⟩

/-- The most bits of two literals that are taken together. -/
def pairBits : Nat := 12

/-- The literal that is taken together with the one in front of it: their code words fit into
`pairBits` bits, and that of the second has more than one. -/
def pairedLiteral? (literals : Huffman) (first : CodeWord) (window : Nat) : Option CodeWord :=
  (literals.codeWord? (pairBits - first.length) (window >>> first.length)).filter fun second =>
    decide (second.symbol < Block.endSymbol ∧ 1 < second.length)

/-- Takes a literal, and the one that is taken together with it. -/
def takeLiteral (s : Stream) (codes : Block.Codes) (word : CodeWord) (window : Nat)
    (last : Bool) : Progress :=
  match pairedLiteral? codes.literals word window with
  | none =>
    if s.available < word.length then .waiting ⟨s, .symbols codes, last⟩
    else .moved ⟨(s.emit (UInt8.ofNat word.symbol)).skip word.length, .symbols codes, last⟩
  | some second =>
    if s.available < word.length + second.length then .waiting ⟨s, .symbols codes, last⟩
    else
      let phase := if s.room < 2 then .overrun else .symbols codes
      let s := (s.emit (UInt8.ofNat word.symbol)).emit (UInt8.ofNat second.symbol)
      .moved ⟨s.skip (word.length + second.length), phase, last⟩

/-- Takes a length with its distance, and puts out again what stands that far back. Whether the
distance has a code word is judged when that of the length is there. -/
def takeRepeat (s : Stream) (codes : Block.Codes) (word : CodeWord) (window : Nat)
    (last : Bool) : Progress :=
  if s.available < word.length then .waiting ⟨s, .symbols codes, last⟩
  else match Block.lengthTable[word.symbol - Block.endSymbol - 1]? with
    | none => .corrupt
    | some (shortest, extra) =>
      let length := shortest + window >>> word.length % 1 <<< extra
      let offset := word.length + extra
      match codes.distances.codeWord? Huffman.maxLength (window >>> offset) with
      | none => .corrupt
      | some far =>
        match Block.distanceTable[far.symbol]? with
        | none => .corrupt
        | some (nearest, extra) =>
          let distance := nearest + window >>> (offset + far.length) % 1 <<< extra
          let used := offset + far.length + extra
          if s.available < used then .waiting ⟨s, .symbols codes, last⟩
          else if s.output.size < distance then .corrupt
          else
            let phase := if s.room < length then .overrun else .symbols codes
            .moved ⟨(s.repeatBytes distance (min length s.room)).skip used, phase, last⟩

/-- The fewest bits that the end of a block is looked for in when no more bytes may come out. -/
def endBits : Nat := 15

/-- Takes a symbol of a block. When no more bytes may come out, only the symbol that is there for
the end of the block is taken. -/
def takeSymbol (s : Stream) (codes : Block.Codes) (last : Bool) : Progress :=
  let window := s.window 0
  match codes.literals.codeWord? Huffman.maxLength window with
  | none => .corrupt
  | some word =>
    if s.isFull then
      if s.available < endBits ∨ word.symbol ≠ Block.endSymbol then
        .waiting ⟨s, .symbols codes, last⟩
      else .moved ⟨s.skip word.length, afterBlock last, last⟩
    else if word.symbol < Block.endSymbol then takeLiteral s codes word window last
    else if Block.IsEnd word.symbol then
      if s.available < word.length then .waiting ⟨s, .symbols codes, last⟩
      else .moved ⟨s.skip word.length, afterBlock last, last⟩
    else takeRepeat s codes word window last

/-- The number of bits of the checksum. -/
def checksumBits : Nat := 32

/-- Takes the checksum, which begins with a whole byte and has its highest byte first. -/
def takeChecksum (s : Stream) (last : Bool) : Progress :=
  let padding := s.padding 0
  if s.available < padding + checksumBits then .waiting ⟨s, .closing, last⟩
  else
    let bytes := (List.range 4).map fun n => s.bits (padding + 8 * n) 8
    .moved ⟨s.skip (padding + checksumBits),
      .finished (bytes.foldl (fun sum b => sum * 256 + b) 0), last⟩

/-- Takes what is next. An item that may not be there in full is waited for, and so is room for its
bytes. Nothing is judged before it is taken. -/
def step : Inflater → Progress
  | ⟨s, .opening, last⟩ => takeOpening s last
  | ⟨s, .header, last⟩ => takeHeader s last
  | ⟨s, .stored left, last⟩ => takeStored s left last
  | ⟨s, .order sizes, last⟩ => takeOrder s sizes last
  | ⟨s, .lengths sizes code listed, last⟩ => takeLength s sizes code listed last
  | ⟨s, .symbols codes, last⟩ => takeSymbol s codes last
  | ⟨s, .overrun, last⟩ => .waiting ⟨s, .overrun, last⟩
  | ⟨s, .closing, last⟩ => takeChecksum s last
  | ⟨s, .finished checksum, last⟩ => .waiting ⟨s, .finished checksum, last⟩

/-- Takes steps until one waits. Without a result, the data is corrupt. -/
def advance : (fuel : Nat) → Inflater → Option Inflater
  | 0, i => some i
  | fuel + 1, i =>
    match i.step with
    | .moved i => advance fuel i
    | .waiting i => some i
    | .corrupt => none

/-- Decompresses one more part. Of two steps at least one takes a bit, so twice as many steps as
there are bits are enough. -/
def feed : Inflater → Bytes → Option Inflater
  | ⟨stream, phase, last⟩, part =>
    let stream := stream.append part
    advance (2 * stream.available + 4) ⟨stream, phase, last⟩

end Inflater

end Acutance.Codec.Flate
