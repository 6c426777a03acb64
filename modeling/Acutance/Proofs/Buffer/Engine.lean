import Acutance.Enhance
import Acutance.Proofs.Buffer.Convolution
import Acutance.Proofs.Buffer.Image

namespace Acutance

/-- An engine as it lies in memory. -/
structure EngineBuffer where
  kernel : KernelBuffer
  scratch : PlaneBuffer
  deriving DecidableEq, Repr

structure EngineBuffer.WellFormed (e : EngineBuffer) : Prop where
  kernel : e.kernel.WellFormed
  scratch : e.scratch.WellFormed

/-- The engine in its buffers. -/
def Engine.buffer (engine : Engine) : EngineBuffer := ⟨engine.kernel.buffer, engine.mask.buffer⟩

namespace EngineBuffer

def ofExtent (k : KernelBuffer) (e : Extent) : Run (Flaw FilterError) EngineBuffer := do
  let scratch ← Run.restate (Flaw.map .raster) (PlaneBuffer.zeros e)
  return ⟨k, scratch⟩

/-- Replaces the scratch plane by the detail of `source`. -/
def build (source : PlaneBuffer) : Edit EngineBuffer (Flaw FilterError) Unit := do
  Edit.update fun engine => do
    let scratch ← source.smoothRows engine.kernel engine.scratch
    return { engine with scratch }
  Edit.update fun engine => do
    let highpass ← engine.kernel.highpass
    let scratch ← engine.scratch.detailColumns highpass
    return { engine with scratch }

end EngineBuffer

namespace ImageBuffer

def unsharpChannel (c : Channel) : Edit (ImageBuffer × EngineBuffer) (Flaw FilterError) Unit := do
  let (image, _) ← get
  Edit.lift (Run.restate (Flaw.map .raster) (image.expectSpace .hsv))
  let plane := image.channel c
  Edit.on Prod.snd (fun engine (image, _) => (image, engine)) (EngineBuffer.build plane)
  let (_, engine) ← get
  let sharpened ← Edit.lift (plane.sharpen engine.scratch (Blend.ofChannel c))
  Edit.update fun (image, engine) => do
    let image ← Run.restate (Flaw.map .raster) (image.setChannel c sharpened)
    return (image, engine)

def unsharp (k : KernelBuffer) : Edit ImageBuffer (Flaw FilterError) Unit := do
  let image ← get
  Edit.lift (Run.restate (Flaw.map .raster) (image.expectSpace .hsv))
  let engine ← Edit.lift (EngineBuffer.ofExtent k image.extent)
  Edit.lending engine (Channel.all.forM unsharpChannel)

def enhance : Edit ImageBuffer (Flaw EnhanceError) Unit := do
  Edit.restate (Flaw.map .filter) (Edit.update ImageBuffer.levels)
  Edit.restate (Flaw.map .color) (Edit.update ImageBuffer.toHsv)
  Edit.restate (Flaw.map .filter) (unsharp .gaussian)
  Edit.restate (Flaw.map .color) (Edit.update ImageBuffer.toRgb)

end ImageBuffer

namespace Engine

open Edit (Realizes)

theorem buffer_wellFormed (engine : Engine) : engine.buffer.WellFormed :=
  ⟨engine.kernel.buffer_wellFormed, engine.mask.buffer_wellFormed⟩

theorem exists_buffer_eq {b : EngineBuffer} (h : b.WellFormed) : ∃ e : Engine, e.buffer = b := by
  obtain ⟨k, hk⟩ := Kernel.exists_buffer_eq h.kernel
  obtain ⟨p, hp⟩ := Plane.exists_buffer_eq h.scratch
  exact ⟨⟨k, p⟩, by rw [buffer, hk, hp]⟩

theorem ofExtent_buffer (k : Kernel) (e : Extent) :
    EngineBuffer.ofExtent k.buffer e = (ofExtent k e).laidOut buffer := by
  refine Run.laidOut_bind Plane.buffer ?_ fun _ _ => rfl
  rw [Plane.zeros_buffer, Run.laidOut_restate]

theorem build_realizes (source : Plane) :
    Realizes buffer id (EngineBuffer.build source.buffer) (build source) := by
  refine .bind (.update fun engine => ?_) fun _ => .update fun engine => ?_
  · exact Run.laidOut_bind Plane.buffer (source.smoothRows_buffer engine.kernel engine.mask) fun _ _ => rfl
  · change (engine.kernel.buffer.highpass >>= fun highpass =>
      engine.mask.buffer.detailColumns highpass >>= _) = _
    rw [Kernel.highpass_buffer]
    exact Run.laidOut_bind Plane.buffer (engine.mask.detailColumns_buffer engine.kernel.highpass)
      fun _ _ => rfl

end Engine

open Edit (Realizes)

private theorem Image.lift_expectSpace_realizes {σ τ : Type} {layout : σ → τ} (image : Image)
    (space : ColorSpace) : Realizes layout id
      (Edit.lift (Run.restate (Flaw.map FilterError.raster) (image.buffer.expectSpace space)))
      (Edit.lift (Run.restate .raster (Run.ofExcept (image.expectSpace space)))) :=
  .lift (by rw [expectSpace_buffer, Run.laidOut_restate])

theorem unsharpChannel_realizes (c : Channel) : Realizes (Prod.map Image.buffer Engine.buffer) id
    (ImageBuffer.unsharpChannel c) (unsharpChannel c) := by
  refine .bind .get fun (image, _) => .bind (image.lift_expectSpace_realizes .hsv) fun _ => ?_
  dsimp only [Prod.map_apply]
  rw [Image.channel_buffer]
  refine .bind (.on (Engine.build_realizes _) (fun _ => rfl) fun _ _ => rfl) fun _ => ?_
  refine .bind .get fun (_, engine) => ?_
  refine .bind (.lift ((image.channel c).sharpen_buffer engine.mask (Blend.ofChannel c))) fun sharpened => ?_
  refine .update fun (image, engine) => ?_
  refine Run.laidOut_bind Image.buffer ?_ fun _ _ => rfl
  dsimp only [Prod.map_apply]
  rw [Image.setChannel_buffer, Run.laidOut_restate]

theorem unsharp_realizes (k : Kernel) :
    Realizes Image.buffer id (ImageBuffer.unsharp k.buffer) (unsharp k) :=
  .bind .get fun image => .bind (image.lift_expectSpace_realizes .hsv) fun _ =>
    .bind (.lift (Engine.ofExtent_buffer k image.extent)) fun _ =>
      .lending (.forM unsharpChannel_realizes _)

theorem enhance_realizes : Realizes Image.buffer id ImageBuffer.enhance enhance := by
  have hunsharp := unsharp_realizes .gaussian
  rw [← Kernel.gaussian_buffer] at hunsharp
  exact .bind (.restate (.update Image.levels_buffer) _) fun _ =>
    .bind (.restate (.update Image.toHsv_buffer) _) fun _ =>
      .bind (.restate hunsharp _) fun _ => .restate (.update Image.toRgb_buffer) _

end Acutance
