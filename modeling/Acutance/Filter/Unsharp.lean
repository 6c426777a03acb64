import Acutance.Edit
import Acutance.Filter.Convolution
import Acutance.Filter.Sharpen
import Acutance.Raster.Image

namespace Acutance

/-- A smoothing kernel and the plane that it leaves detail in: what smoothing the rows and running
the high-pass kernel down the columns makes of the plane of a channel. -/
structure Engine where
  kernel : Kernel
  mask : Plane
  deriving DecidableEq

namespace Engine

/-- An engine for planes of the given extent. Its mask is zero at first. -/
def ofExtent (k : Kernel) (e : Extent) : Run FilterError Engine := do
  let mask ← Run.restate .raster (Plane.zeros e)
  return ⟨k, mask⟩

/-- Replaces the mask by the detail of `source`. The high-pass kernel is made for this call, and
the kernel of the engine stays. -/
def build (source : Plane) : Edit Engine FilterError Unit := do
  Edit.update fun engine => do
    let mask ← source.smoothRows engine.kernel engine.mask
    return { engine with mask }
  Edit.update fun engine => do
    let mask ← Run.ofChecked (engine.mask.detailColumns engine.kernel.highpass)
    return { engine with mask }

end Engine

/-- Sharpens one channel of an image in hue, saturation and value, with an engine of the same
extent. -/
def unsharpChannel (c : Channel) : Edit (Image × Engine) FilterError Unit := do
  let (image, _) ← get
  Edit.lift (Run.restate .raster (Run.ofExcept (image.expectSpace .hsv)))
  let plane := image.channel c
  Edit.on Prod.snd (fun engine (image, _) => (image, engine)) (Engine.build plane)
  let (_, engine) ← get
  let sharpened ← Edit.lift (plane.sharpen engine.mask (Blend.ofChannel c))
  Edit.update fun (image, engine) => do
    let image ← Run.restate .raster (Run.ofExcept (image.setChannel c sharpened))
    return (image, engine)

/-- Sharpens hue, saturation and value of an image, with one engine for all three. -/
def unsharp (k : Kernel) : Edit Image FilterError Unit := do
  let image ← get
  Edit.lift (Run.restate .raster (Run.ofExcept (image.expectSpace .hsv)))
  let engine ← Edit.lift (Engine.ofExtent k image.extent)
  Edit.lending engine (Channel.all.forM unsharpChannel)

end Acutance
