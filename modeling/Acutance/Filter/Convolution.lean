import Acutance.Filter.Kernel
import Acutance.Raster.Plane

namespace Acutance

namespace Kernel

/-- The sum of the samples, each weighted by the tap that stands over it. -/
def weigh (k : Kernel) (values : List Sample) : Checked Int :=
  (k.taps.zip values).foldlM (fun sum (tap, value) => do
    let product ← Width.bits64.mul tap.toInt value.toInt
    Width.bits64.add sum product) 0

/-- The weighted sum of the samples with `bias` added once per tap. -/
def weighBiased (k : Kernel) (bias : Int) (values : List Sample) : Checked Int :=
  (k.taps.zip values).foldlM (fun sum (tap, value) => do
    let product ← Width.bits64.mul tap.toInt value.toInt
    let term ← Width.bits64.add bias product
    Width.bits64.add sum term) 0

/-- A weighted sum on the scale of samples. -/
def scaleDown (k : Kernel) (sum : Int) : Checked Sample := do
  let quotient ← Width.bits64.div sum k.norm
  return narrow quotient

/-- The samples of a row under the taps when the middle tap stands over column `x`. -/
def rowWindow (k : Kernel) (p : Plane) (x y : Nat) : List Sample :=
  (List.range k.size).map fun i => p.sample (x - k.radius + i) y

/-- The smoothed sample of a place. Where a tap would stand outside the row, the sample stays. -/
def smooth (k : Kernel) (p : Plane) (x y : Nat) : Checked Sample :=
  if x < k.radius ∨ p.extent.width ≤ x + k.radius then .ok (p.sample x y)
  else do
    let sum ← k.weigh (k.rowWindow p x y)
    k.scaleDown sum

/-- Replaces the sample in row `y` of column `x`. The rows above have been replaced already, so
`window` holds what stood in the last of them; the rows from `y` down are untouched. The sample
that is replaced biases the sum once per tap, and then enters the window for the oldest one. -/
def sweepRow (k : Kernel) (x : Nat) (state : Plane × List Sample) (y : Nat) :
    Checked (Plane × List Sample) := do
  let (plane, window) := state
  let current := plane.sample x y
  let below := (List.range (k.radius + 1)).map fun i => plane.sample x (y + i)
  let sum ← k.weighBiased current.toInt (window ++ below)
  match window with
  | [] => .error .emptyWindow
  | _ :: kept =>
    let detail ← k.scaleDown sum
    return (plane.put x y detail, kept ++ [current])

/-- Clears the given rows of a column. -/
def clearRows (x : Nat) (plane : Plane) (rows : List Nat) : Plane :=
  rows.foldl (fun p y => p.put x y 0) plane

/-- Runs the kernel down one column in place. The rows that lie within the radius of the top or
bottom edge become zero, and a column without any other row becomes zero as a whole. -/
def sweepColumn (k : Kernel) (plane : Plane) (x : Nat) : Checked Plane :=
  let height := plane.extent.height
  let radius := k.radius
  if height ≤ 2 * radius then .ok (clearRows x plane (List.range height))
  else do
    let window := (List.range radius).map fun y => plane.sample x y
    let plane := clearRows x plane (List.range radius)
    let rows := List.range' radius (height - 2 * radius)
    let (plane, _) ← rows.foldlM (k.sweepRow x) (plane, window)
    return clearRows x plane (List.range' (height - radius) radius)

end Kernel

namespace Plane

/-- Smooths every row of `source` into `target`, which has to be of the same extent. Samples near
the left and right edge are copied. -/
def smoothRows (source : Plane) (k : Kernel) (target : Plane) : Run FilterError Plane := do
  Run.restate .raster (Run.ofExcept (target.expectExtent source.extent))
  Run.ofChecked (target.fillM (k.smooth source))

/-- Runs the kernel down every column in place, from left to right. -/
def detailColumns (plane : Plane) (k : Kernel) : Checked Plane :=
  (List.range plane.extent.width).foldlM k.sweepColumn plane

end Plane

end Acutance
