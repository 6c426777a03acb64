import Acutance.Raster.Image
import Acutance.Text.Bytes
import Acutance.Text.Shortest

namespace Acutance

/-- One comparison of what is expected with what is there. -/
inductive Check where
  /-- The values may differ by `delta`. -/
  | values (expected actual delta : Float)
  | images (expected actual : Image)
  | planes (expected actual : Plane)
  | bytes (expected actual : Bytes)

namespace Check

/-- Samples as they are written in messages. -/
def renderSamples (samples : List Sample) : String :=
  "[" ++ String.intercalate ", " (samples.map fun s => toString s.toInt) ++ "]"

/-- A pixel as it is written in messages. -/
def renderPixel : Option Pixel → String
  | some p => s!"Some({renderSamples p.samples})"
  | none => "None"

/-- The shape of an image as it is written in messages. -/
def renderShape (image : Image) : String := s!"{image.extent.render} {image.space.name}"

/-- What is wrong with a value, if it is too far from the expected one. -/
def valueDefect? (expected actual delta : Float) : Option String :=
  let difference := (expected - actual).abs
  if difference > delta then
    some (s!"\ndifference = {Shortest.text difference} but allowed delta = {Shortest.text delta}" ++
      s!"\nexpected = {Shortest.text expected}, actual = {Shortest.text actual}")
  else none

/-- The first place, row by row, where two images of one extent differ. -/
def firstDifference? (expected actual : Image) : Option (Nat × Nat) :=
  let width := expected.extent.width
  ((List.range expected.extent.area).find? fun i =>
    expected.get? (i % width) (i / width) ≠ actual.get? (i % width) (i / width)).map fun i =>
      (i % width, i / width)

/-- What is wrong with an image that has another extent or color space. -/
def shapeMismatch (expected actual : Image) : String :=
  s!" - shape mismatch ({renderShape expected} vs {renderShape actual})"

/-- What is wrong with an image that has another pixel at a place. -/
def pixelMismatch (expected actual : Image) (x y : Nat) : String :=
  s!" - pixel mismatch at ({x}, {y}): expected {renderPixel (expected.get? x y)}, " ++
    s!"got {renderPixel (actual.get? x y)}"

/-- What is wrong with an image, if it is not the expected one. -/
def imageDefect? (expected actual : Image) : Option String :=
  if expected.extent ≠ actual.extent ∨ expected.space ≠ actual.space then
    some (shapeMismatch expected actual)
  else
    (firstDifference? expected actual).map fun place =>
      pixelMismatch expected actual place.1 place.2

/-- The first row where two planes of one extent differ. -/
def firstRow? (expected actual : Plane) : Option Nat :=
  (List.range expected.extent.height).find? fun y => expected.rowSamples y ≠ actual.rowSamples y

/-- What is wrong with a plane that has another row. -/
def rowMismatch (expected actual : Plane) (y : Nat) : String :=
  s!" - row {y} differs\nexpected = {renderSamples (expected.rowSamples y)}" ++
    s!"\nactual   = {renderSamples (actual.rowSamples y)}"

/-- What is wrong with a plane, if it is not the expected one. -/
def planeDefect? (expected actual : Plane) : Option String :=
  if expected.extent ≠ actual.extent then some " - extent mismatch"
  else (firstRow? expected actual).map (rowMismatch expected actual)

/-- What is wrong with a byte string, if it is not the expected one. -/
def bytesDefect? (expected actual : Bytes) : Option String :=
  if expected ≠ actual then some s!"\nsizes: {expected.length} vs {actual.length}" else none

/-- What is compared, as it is written in messages. -/
def subject : Check → String
  | values .. => "value"
  | images .. => "store"
  | planes .. => "plane"
  | bytes .. => "string"

/-- What is wrong, if the check fails. -/
def defect? : Check → Option String
  | values expected actual delta => valueDefect? expected actual delta
  | images expected actual => imageDefect? expected actual
  | planes expected actual => planeDefect? expected actual
  | bytes expected actual => bytesDefect? expected actual

/-- The message of a failed check, which is the check of the given number in a test. -/
def message (c : Check) (name : String) (number : Nat) (defect : String) : String :=
  s!"Failure in {name}_reg: {c.subject} comparison for index {number}{defect}"

end Check

/-- The name of a test, the number of checks made, whether none of them has failed, and the messages
of those that have. The checks behind one that fails are made all the same. -/
structure Regression where
  name : String
  checks : Nat
  success : Bool
  failures : List String
  deriving DecidableEq, Repr

namespace Regression

/-- A test before its first check. -/
def start (name : String) : Regression := ⟨name, 0, true, []⟩

/-- Whether no check has failed so far. -/
def isSuccess (r : Regression) : Bool := r.success

/-- Ends a test, and tells whether it has passed. -/
def cleanup (r : Regression) : Bool := r.success

/-- Records a failure. -/
def fail (r : Regression) (message : String) : Regression :=
  { r with failures := r.failures ++ [message], success := false }

/-- Makes a check, and tells whether it passed. -/
def check (r : Regression) (c : Check) : Bool × Regression :=
  let r := { r with checks := r.checks + 1 }
  match c.defect? with
  | none => (true, r)
  | some defect => (false, r.fail (c.message r.name r.checks defect))

/-- Makes checks one after the other. Gives for each one whether it passed and the test after it. -/
def run (r : Regression) : List Check → List (Bool × Regression)
  | [] => []
  | c :: rest =>
    let (passed, r) := r.check c
    (passed, r) :: r.run rest

end Regression

end Acutance
