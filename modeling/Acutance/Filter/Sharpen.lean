import Acutance.Filter.Error
import Acutance.Raster.Plane

namespace Acutance

/-- How strongly detail is blended into a channel, and what counts as one on that channel. -/
structure Blend where
  amount : Sample
  scale : Sample
  deriving DecidableEq, Repr

namespace Blend

/-- The blend for a channel of hue, saturation or value. -/
def ofChannel : Channel → Blend
  | .first => ⟨-4, 360⟩
  | .second => ⟨-4, 1024⟩
  | .third => ⟨-4, 1024⟩

/-- One sample with its detail blended in: the sample times the share
`(scale + amount * detail) / scale`, truncated toward zero. What comes out at the scale or above is
brought below it; what falls below zero stays. -/
def apply (b : Blend) (s detail : Sample) : Checked Sample := do
  let scale := b.scale.toInt
  let strength ← Width.bits64.mul b.amount.toInt detail.toInt
  let share ← Width.bits64.add scale strength
  let scaled ← Width.bits64.mul s.toInt share
  let quotient ← Width.bits64.div scaled scale
  return narrow (if scale ≤ quotient then scale - 1 else quotient)

end Blend

/-- Blends a plane of detail into a plane of the same extent. The scale of the blend has to be
positive, which is checked first. -/
def Plane.sharpen (plane detail : Plane) (blend : Blend) : Run FilterError Plane := do
  if blend.scale.toInt ≤ 0 then throw (.error (.scale blend.scale))
  Run.restate .raster (Run.ofExcept (detail.expectExtent plane.extent))
  Run.ofChecked (plane.fillM fun x y => blend.apply (plane.sample x y) (detail.sample x y))

end Acutance
