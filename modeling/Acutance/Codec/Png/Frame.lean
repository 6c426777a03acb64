import Acutance.Codec.Png.Header

namespace Acutance.Codec.Png

/-- How the bytes of a row are predicted. A row is written as the differences of its bytes from the
predicted ones. -/
inductive Prediction where
  | none
  | left
  | above
  | average
  | nearest
  deriving DecidableEq, Repr

namespace Prediction

/-- The prediction of a code. -/
def ofCode? (code : UInt8) : Option Prediction :=
  if code = 0 then some none
  else if code = 1 then some left
  else if code = 2 then some above
  else if code = 3 then some average
  else if code = 4 then some nearest
  else Option.none

/-- Of the bytes to the left, above and above the left one: the nearest to `left + above -
corner`. Equally near ones are taken in this order. -/
def nearestByte (left above corner : UInt8) : UInt8 :=
  let a : Int := left.toNat
  let b : Int := above.toNat
  let c : Int := corner.toNat
  let target := a + b - c
  let near (n : Int) : Nat := (target - n).natAbs
  if near a ≤ near b ∧ near a ≤ near c then left
  else if near b ≤ near c then above
  else corner

/-- The predicted byte. -/
def predict (p : Prediction) (leftByte aboveByte corner : UInt8) : UInt8 :=
  match p with
  | none => 0
  | left => leftByte
  | above => aboveByte
  | average => UInt8.ofNat ((leftByte.toNat + aboveByte.toNat) / 2)
  | nearest => nearestByte leftByte aboveByte corner

/-- Adds the predictions back to the bytes of a row. `pixelBytes` is the distance to the byte on
the left, and bytes outside the image count as zero. -/
def restore (p : Prediction) (pixelBytes : Nat) (prior : Array UInt8) (row : Bytes) : Array UInt8 :=
  row.foldl (fun out b =>
    let i := out.size
    let before (a : Array UInt8) : UInt8 := if i < pixelBytes then 0 else a.getD (i - pixelBytes) 0
    out.push (b + p.predict (before out) (prior.getD i 0) (before prior))) #[]

end Prediction

/-- Restores the rows of a raster whose rows take `rowBytes` bytes each, from the top. Each row is
preceded by the code of its prediction. Gives the rows and what follows them. -/
def restoreRows (pixelBytes rowBytes : Nat) :
    (count : Nat) → (prior : Array UInt8) → Bytes → Option (List (Array UInt8) × Bytes)
  | 0, _, bytes => some ([], bytes)
  | _ + 1, _, [] => none
  | count + 1, prior, code :: bytes => do
    let prediction ← Prediction.ofCode? code
    let row := prediction.restore pixelBytes prior (bytes.take rowBytes)
    let (rows, rest) ← restoreRows pixelBytes rowBytes count row (bytes.drop rowBytes)
    return (row :: rows, rest)

/-- One pass of an interlaced image: its first place and the steps to the next ones. -/
structure Pass where
  left : Nat
  top : Nat
  stepX : Nat
  stepY : Nat
  deriving DecidableEq, Repr

namespace Pass

/-- The seven passes in their order. -/
def all : List Pass :=
  [⟨0, 0, 8, 8⟩, ⟨4, 0, 8, 8⟩, ⟨0, 4, 4, 8⟩, ⟨2, 0, 4, 4⟩, ⟨0, 2, 2, 4⟩, ⟨1, 0, 2, 2⟩, ⟨0, 1, 1, 2⟩]

/-- The extent of a pass over an image. It may be empty. -/
def extent (p : Pass) (e : Extent) : Extent :=
  ⟨(e.width + p.stepX - 1 - p.left) / p.stepX, (e.height + p.stepY - 1 - p.top) / p.stepY⟩

/-- Whether a place of the image belongs to a pass. -/
def holds (p : Pass) (x y : Nat) : Bool :=
  p.left ≤ x && p.top ≤ y && (x - p.left) % p.stepX = 0 && (y - p.top) % p.stepY = 0

end Pass

/-- The number of bytes that the rows of a raster take with their codes. An empty raster takes
none. -/
def filteredBytes (h : Header) (e : Extent) : Nat :=
  if e.Nonempty then e.height * (1 + h.rowBytes e.width) else 0

/-- The number of bytes that the image takes before compression. -/
def imageBytes (h : Header) : Nat :=
  if h.interlaced then Pass.all.foldl (fun sum p => sum + filteredBytes h (p.extent h.extent)) 0
  else filteredBytes h h.extent

/-- The most bytes that are decompressed. Passes whose rows are empty count with the codes of their
rows. -/
def decompressedLimit (h : Header) : Nat :=
  let rows (e : Extent) : Nat := e.height * (1 + h.rowBytes e.width)
  if h.interlaced then Pass.all.foldl (fun sum p => sum + rows (p.extent h.extent)) 0
  else rows h.extent

/-- The samples of an image as bytes, row by row. -/
structure Frame where
  extent : Extent
  pixelBytes : Nat
  bytes : Array UInt8
  deriving DecidableEq

/-- Restores the passes of an interlaced image, one after the other. -/
def restorePasses (h : Header) (pixelBytes : Nat) :
    List Pass → Bytes → Option (List (Pass × Array (Array UInt8)))
  | [], _ => some []
  | pass :: rest, bytes => do
    let e := pass.extent h.extent
    let count := if e.Nonempty then e.height else 0
    let (rows, bytes) ← restoreRows pixelBytes (h.rowBytes e.width) count #[] bytes
    let passes ← restorePasses h pixelBytes rest bytes
    return (pass, rows.toArray) :: passes

/-- The byte of a pixel of an interlaced image, looked up in the pass that the pixel belongs to. -/
def interlacedByte (pixelBytes : Nat) (passes : List (Pass × Array (Array UInt8))) (x y k : Nat) :
    UInt8 :=
  match passes.find? fun (pass, _) => pass.holds x y with
  | none => 0
  | some (pass, rows) =>
    (rows.getD ((y - pass.top) / pass.stepY) #[]).getD
      ((x - pass.left) / pass.stepX * pixelBytes + k) 0

/-- The frame of an image with whole bytes for samples, from its bytes before compression. -/
def Frame.restore? (h : Header) (bytes : Bytes) : Option Frame := do
  let pixelBytes := h.color.samples
  if h.interlaced then
    let passes ← restorePasses h pixelBytes Pass.all bytes
    let places := (List.range h.extent.height).flatMap fun y =>
      (List.range h.extent.width).flatMap fun x =>
        (List.range pixelBytes).map fun k => interlacedByte pixelBytes passes x y k
    return ⟨h.extent, pixelBytes, places.toArray⟩
  else
    let (rows, _) ← restoreRows pixelBytes (h.rowBytes h.extent.width) h.extent.height #[] bytes
    return ⟨h.extent, pixelBytes, rows.foldl (fun out row => out ++ row) #[]⟩

end Acutance.Codec.Png
