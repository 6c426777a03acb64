import Acutance.Proofs.Buffer.Codec
import Acutance.Proofs.Buffer.Engine
import Acutance.Proofs.Buffer.Slot

namespace Acutance

/-- One of the things that a session holds. -/
inductive Object (ι π κ η : Type) where
  | image (image : ι)
  | plane (plane : π)
  | kernel (kernel : κ)
  | engine (engine : η)
  deriving DecidableEq, Repr

namespace Object

variable {ι π κ η ι' π' κ' η' : Type}

def map (f : ι → ι') (g : π → π') (h : κ → κ') (k : η → η') : Object ι π κ η → Object ι' π' κ' η'
  | image i => image (f i)
  | plane p => plane (g p)
  | kernel t => kernel (h t)
  | engine e => engine (k e)

def images : Slot (Object ι π κ η) ι := ⟨image, fun | image i => some i | _ => none⟩

def planes : Slot (Object ι π κ η) π := ⟨plane, fun | plane p => some p | _ => none⟩

def kernels : Slot (Object ι π κ η) κ := ⟨kernel, fun | kernel k => some k | _ => none⟩

def engines : Slot (Object ι π κ η) η := ⟨engine, fun | engine e => some e | _ => none⟩

end Object

/-- Something that a session holds. -/
abbrev Held := Object Image Plane Kernel Engine

/-- Something that a session holds in buffers. -/
abbrev HeldBuffer := Object ImageBuffer PlaneBuffer KernelBuffer EngineBuffer

/-- What is held, in its buffers. -/
def Held.buffer : Held → HeldBuffer :=
  Object.map Image.buffer Plane.buffer Kernel.buffer Engine.buffer

/-- The kind of what is held, and its extent if it has one. -/
def Held.shape : Held → Object Extent Extent Unit Extent :=
  Object.map Image.extent Plane.extent (fun _ => ()) fun e => e.mask.extent

def HeldBuffer.shape : HeldBuffer → Object Extent Extent Unit Extent :=
  Object.map ImageBuffer.extent PlaneBuffer.extent (fun _ => ()) fun e => e.scratch.extent

def HeldBuffer.WellFormed : HeldBuffer → Prop
  | .image i => i.WellFormed
  | .plane p => p.WellFormed
  | .kernel k => k.WellFormed
  | .engine e => e.WellFormed

namespace Session

/-- Why an operation of a session was refused. -/
inductive Error where
  | raster (error : RasterError)
  | color (error : ColorError)
  | filter (error : FilterError)
  | codec (error : CodecError)
  | enhance (error : EnhanceError)
  /-- Nothing of the right kind is held at the place. -/
  | missing (place : Nat)
  deriving DecidableEq, Repr

/-- An operation. What it works with is named by its place in the session, and what it makes comes to stand
behind everything else. -/
inductive Operation where
  | makeImage (extent : Extent) (space : ColorSpace)
  | imageOfSamples (extent : Extent) (space : ColorSpace) (samples : Array Sample)
  | readImage (bytes : Bytes) (mode : ReadMode)
  | setPixel (image : Nat) (x y : Nat) (pixel : Pixel)
  | mapPixels (image : Nat) (space : ColorSpace) (f : Pixel → Checked Pixel)
  | recode (image : Nat) (source target : ColorSpace) (f : Pixel → Checked Pixel)
  | setChannel (image : Nat) (channel : Channel) (plane : Nat)
  | levels (image : Nat)
  | toHsv (image : Nat)
  | toRgb (image : Nat)
  | unsharp (image kernel : Nat)
  | enhance (image : Nat)
  | makePlane (extent : Extent)
  | planeOfSamples (extent : Extent) (samples : Array Sample)
  | copyChannel (image : Nat) (channel : Channel)
  | copyMask (engine : Nat)
  | setSample (plane : Nat) (x y : Nat) (sample : Sample)
  | editRow (plane : Nat) (y : Nat) (f : Nat → Sample → Sample)
  | editSamples (plane : Nat) (f : Nat → Sample → Sample)
  | clear (plane : Nat)
  | smoothRows (source kernel target : Nat)
  | detailColumns (plane kernel : Nat)
  | sharpen (plane detail : Nat) (blend : Blend)
  | gaussian
  | kernelOfTaps (taps : List Sample)
  | highpass (kernel : Nat)
  | makeEngine (kernel : Nat) (extent : Extent)
  | build (engine plane : Nat)
  | unsharpChannel (image : Nat) (channel : Channel) (engine : Nat)
  | copyKernel (engine : Nat)
  | copy (place : Nat)

/-- Carries out an operation on values. -/
def step : Operation → Edit (List Held) Error Unit
  | .makeImage e space =>
    Object.images.add (.restate .raster (.ofExcept (Image.blank e space)))
  | .imageOfSamples e space samples =>
    Object.images.add (.restate .raster (.ofExcept (Image.ofSamples e space samples)))
  | .readImage bytes mode => Object.images.add (.restate .codec (.ofExcept (mode.read bytes)))
  | .setPixel i x y p =>
    Object.images.edit .missing i (.restate .raster (.update fun image => .ofExcept (image.set x y p)))
  | .mapPixels i space f =>
    Object.images.edit .missing i (.restate .raster (.update (Image.mapPixels space f)))
  | .recode i source target f =>
    Object.images.edit .missing i (.restate .raster (.update (Image.recode source target f)))
  | .setChannel i c p => do
    let plane ← Object.planes.find .missing p
    Object.images.edit .missing i
      (.restate .raster (.update fun image => .ofExcept (image.setChannel c plane)))
  | .levels i => Object.images.edit .missing i (.restate .filter (.update Image.levels))
  | .toHsv i => Object.images.edit .missing i (.restate .color (.update Image.toHsv))
  | .toRgb i => Object.images.edit .missing i (.restate .color (.update Image.toRgb))
  | .unsharp i k => do
    let kernel ← Object.kernels.find .missing k
    Object.images.edit .missing i (.restate .filter (Acutance.unsharp kernel))
  | .enhance i => Object.images.edit .missing i (.restate .enhance Acutance.enhance)
  | .makePlane e => Object.planes.add (.restate .raster (Plane.zeros e))
  | .planeOfSamples e samples =>
    Object.planes.add (.restate .raster (.ofExcept (Plane.ofSamples e samples)))
  | .copyChannel i c => do
    let image ← Object.images.find .missing i
    Object.planes.add (.ok (image.channel c))
  | .copyMask e => do
    let engine ← Object.engines.find .missing e
    Object.planes.add (.ok engine.mask)
  | .setSample p x y s =>
    Object.planes.edit .missing p (.restate .raster (.update fun plane => .ofExcept (plane.set x y s)))
  | .editRow p y f => Object.planes.edit .missing p (.update fun plane => .ofChecked (plane.editRow y f))
  | .editSamples p f => Object.planes.edit .missing p (.update fun plane => .ok (plane.editSamples f))
  | .clear p => Object.planes.edit .missing p (.update fun plane => .ok plane.clear)
  | .smoothRows p k q => do
    let source ← Object.planes.find .missing p
    let kernel ← Object.kernels.find .missing k
    Object.planes.edit .missing q (.restate .filter (.update (source.smoothRows kernel)))
  | .detailColumns p k => do
    let kernel ← Object.kernels.find .missing k
    Object.planes.edit .missing p (.update fun plane => .ofChecked (plane.detailColumns kernel))
  | .sharpen p q blend => do
    let detail ← Object.planes.find .missing q
    Object.planes.edit .missing p (.restate .filter (.update fun plane => plane.sharpen detail blend))
  | .gaussian => Object.kernels.add (.ok .gaussian)
  | .kernelOfTaps taps => Object.kernels.add (.restate .filter (.ofExcept (Kernel.ofTaps taps)))
  | .highpass k => do
    let kernel ← Object.kernels.find .missing k
    Object.kernels.add (.ok kernel.highpass)
  | .makeEngine k e => do
    let kernel ← Object.kernels.find .missing k
    Object.engines.add (.restate .filter (Engine.ofExtent kernel e))
  | .build e p => do
    let source ← Object.planes.find .missing p
    Object.engines.edit .missing e (.restate .filter (Engine.build source))
  | .unsharpChannel i c e =>
    Object.images.editBoth Object.engines .missing i e (.restate .filter (Acutance.unsharpChannel c))
  | .copyKernel e => do
    let engine ← Object.engines.find .missing e
    Object.kernels.add (.ok engine.kernel)
  | .copy n => do
    let held ← (Slot.all Held).find .missing n
    (Slot.all Held).add (.ok held)

/-- The error of an operation on buffers that finds nothing at a place. -/
def absent (place : Nat) : Flaw Error := .refused (.missing place)

/-- Carries out an operation on buffers. -/
def stepBuffers : Operation → Edit (List HeldBuffer) (Flaw Error) Unit
  | .makeImage e space => Object.images.add (.restate (Flaw.map .raster) (ImageBuffer.blank e space))
  | .imageOfSamples e space samples =>
    Object.images.add (.restate (Flaw.map .raster) (ImageBuffer.ofSamples e space samples))
  | .readImage bytes mode =>
    Object.images.add (.restate (Flaw.map .codec) (ImageBuffer.decode bytes mode))
  | .setPixel i x y p =>
    Object.images.edit absent i (.restate (Flaw.map .raster) (.update fun image => image.set x y p))
  | .mapPixels i space f => Object.images.edit absent i
      (.restate (Flaw.map .raster) (.update fun image => image.recode space space f))
  | .recode i source target f => Object.images.edit absent i
      (.restate (Flaw.map .raster) (.update fun image => image.recode source target f))
  | .setChannel i c p => do
    let plane ← Object.planes.find absent p
    Object.images.edit absent i
      (.restate (Flaw.map .raster) (.update fun image => image.setChannel c plane))
  | .levels i => Object.images.edit absent i (.restate (Flaw.map .filter) (.update ImageBuffer.levels))
  | .toHsv i => Object.images.edit absent i (.restate (Flaw.map .color) (.update ImageBuffer.toHsv))
  | .toRgb i => Object.images.edit absent i (.restate (Flaw.map .color) (.update ImageBuffer.toRgb))
  | .unsharp i k => do
    let kernel ← Object.kernels.find absent k
    Object.images.edit absent i (.restate (Flaw.map .filter) (ImageBuffer.unsharp kernel))
  | .enhance i => Object.images.edit absent i (.restate (Flaw.map .enhance) ImageBuffer.enhance)
  | .makePlane e => Object.planes.add (.restate (Flaw.map .raster) (PlaneBuffer.zeros e))
  | .planeOfSamples e samples =>
    Object.planes.add (.restate (Flaw.map .raster) (PlaneBuffer.ofSamples e samples))
  | .copyChannel i c => do
    let image ← Object.images.find absent i
    Object.planes.add (.ok (image.channel c))
  | .copyMask e => do
    let engine ← Object.engines.find absent e
    Object.planes.add (.ok engine.scratch)
  | .setSample p x y s =>
    Object.planes.edit absent p (.restate (Flaw.map .raster) (.update fun plane => plane.set x y s))
  | .editRow p y f => Object.planes.edit absent p (.update fun plane => plane.editRow y f)
  | .editSamples p f => Object.planes.edit absent p (.update fun plane => .ok (plane.editSamples f))
  | .clear p => Object.planes.edit absent p (.update fun plane => .ok plane.clear)
  | .smoothRows p k q => do
    let source ← Object.planes.find absent p
    let kernel ← Object.kernels.find absent k
    Object.planes.edit absent q (.restate (Flaw.map .filter) (.update (source.smoothRows kernel)))
  | .detailColumns p k => do
    let kernel ← Object.kernels.find absent k
    Object.planes.edit absent p (.update fun plane => plane.detailColumns kernel)
  | .sharpen p q blend => do
    let detail ← Object.planes.find absent q
    Object.planes.edit absent p
      (.restate (Flaw.map .filter) (.update fun plane => plane.sharpen detail blend))
  | .gaussian => Object.kernels.add (.ok .gaussian)
  | .kernelOfTaps taps =>
    Object.kernels.add (.restate (Flaw.map .filter) (KernelBuffer.ofTaps taps.toArray))
  | .highpass k => do
    let kernel ← Object.kernels.find absent k
    Object.kernels.add kernel.highpass
  | .makeEngine k e => do
    let kernel ← Object.kernels.find absent k
    Object.engines.add (.restate (Flaw.map .filter) (EngineBuffer.ofExtent kernel e))
  | .build e p => do
    let source ← Object.planes.find absent p
    Object.engines.edit absent e (.restate (Flaw.map .filter) (EngineBuffer.build source))
  | .unsharpChannel i c e => Object.images.editBoth Object.engines absent i e
      (.restate (Flaw.map .filter) (ImageBuffer.unsharpChannel c))
  | .copyKernel e => do
    let engine ← Object.engines.find absent e
    Object.kernels.add (.ok engine.kernel)
  | .copy n => do
    let held ← (Slot.all HeldBuffer).find absent n
    (Slot.all HeldBuffer).add (.ok held)

section Realization

open Edit (Realizes)

private theorem images_laysOut : Slot.LaysOut Held.buffer Image.buffer Object.images Object.images :=
  ⟨fun _ => rfl, fun held => by cases held <;> rfl⟩

private theorem planes_laysOut : Slot.LaysOut Held.buffer Plane.buffer Object.planes Object.planes :=
  ⟨fun _ => rfl, fun held => by cases held <;> rfl⟩

private theorem kernels_laysOut : Slot.LaysOut Held.buffer Kernel.buffer Object.kernels Object.kernels :=
  ⟨fun _ => rfl, fun held => by cases held <;> rfl⟩

private theorem engines_laysOut : Slot.LaysOut Held.buffer Engine.buffer Object.engines Object.engines :=
  ⟨fun _ => rfl, fun held => by cases held <;> rfl⟩

private theorem all_laysOut : Slot.LaysOut Held.buffer Held.buffer (Slot.all HeldBuffer) (Slot.all Held) :=
  ⟨fun _ => rfl, fun _ => rfl⟩

/-- Every operation on buffers goes as the operation on values. -/
theorem step_realizes (operation : Operation) :
    Realizes (List.map Held.buffer) id (stepBuffers operation) (step operation) := by
  cases operation with
  | makeImage e space =>
    exact images_laysOut.add (by rw [Image.blank_buffer, Run.laidOut_restate])
  | imageOfSamples e space samples =>
    exact images_laysOut.add (by rw [Image.ofSamples_buffer, Run.laidOut_restate])
  | readImage bytes mode =>
    exact images_laysOut.add (by rw [Image.decode_buffer, Run.laidOut_restate])
  | setPixel i x y p =>
    exact images_laysOut.edit (.restate (.update fun image => image.set_buffer x y p) _) _ _
  | mapPixels i space f =>
    exact images_laysOut.edit (.restate (.update (Image.recode_buffer space space f)) _) _ _
  | recode i source target f =>
    exact images_laysOut.edit (.restate (.update (Image.recode_buffer source target f)) _) _ _
  | setChannel i c p =>
    exact .bind (planes_laysOut.find _ _) fun plane =>
      images_laysOut.edit (.restate (.update fun image => image.setChannel_buffer c plane) _) _ _
  | levels i => exact images_laysOut.edit (.restate (.update Image.levels_buffer) _) _ _
  | toHsv i => exact images_laysOut.edit (.restate (.update Image.toHsv_buffer) _) _ _
  | toRgb i => exact images_laysOut.edit (.restate (.update Image.toRgb_buffer) _) _ _
  | unsharp i k =>
    exact .bind (kernels_laysOut.find _ _) fun kernel =>
      images_laysOut.edit (.restate (unsharp_realizes kernel) _) _ _
  | enhance i => exact images_laysOut.edit (.restate enhance_realizes _) _ _
  | makePlane e => exact planes_laysOut.add (by rw [Plane.zeros_buffer, Run.laidOut_restate])
  | planeOfSamples e samples =>
    exact planes_laysOut.add (by rw [Plane.ofSamples_buffer, Run.laidOut_restate])
  | copyChannel i c =>
    exact .bind (images_laysOut.find _ _) fun image =>
      planes_laysOut.add (by rw [Image.channel_buffer]; rfl)
  | copyMask e =>
    exact .bind (engines_laysOut.find _ _) fun engine => planes_laysOut.add rfl
  | setSample p x y s =>
    exact planes_laysOut.edit (.restate (.update fun plane => plane.set_buffer x y s) _) _ _
  | editRow p y f => exact planes_laysOut.edit (.update fun plane => plane.editRow_buffer y f) _ _
  | editSamples p f =>
    exact planes_laysOut.edit (.update fun plane => congrArg Except.ok (plane.editSamples_buffer f)) _ _
  | clear p =>
    exact planes_laysOut.edit (.update fun plane => congrArg Except.ok plane.clear_buffer) _ _
  | smoothRows p k q =>
    exact .bind (planes_laysOut.find _ _) fun source => .bind (kernels_laysOut.find _ _) fun kernel =>
      planes_laysOut.edit (.restate (.update (source.smoothRows_buffer kernel)) _) _ _
  | detailColumns p k =>
    exact .bind (kernels_laysOut.find _ _) fun kernel =>
      planes_laysOut.edit (.update fun plane => plane.detailColumns_buffer kernel) _ _
  | sharpen p q blend =>
    exact .bind (planes_laysOut.find _ _) fun detail =>
      planes_laysOut.edit (.restate (.update fun plane => plane.sharpen_buffer detail blend) _) _ _
  | gaussian => exact kernels_laysOut.add (congrArg Except.ok Kernel.gaussian_buffer)
  | kernelOfTaps taps =>
    exact kernels_laysOut.add (by rw [Kernel.ofTaps_buffer, Run.laidOut_restate])
  | highpass k =>
    exact .bind (kernels_laysOut.find _ _) fun kernel => kernels_laysOut.add kernel.highpass_buffer
  | makeEngine k e =>
    exact .bind (kernels_laysOut.find _ _) fun kernel =>
      engines_laysOut.add (by rw [Engine.ofExtent_buffer, Run.laidOut_restate])
  | build e p =>
    exact .bind (planes_laysOut.find _ _) fun source =>
      engines_laysOut.edit (.restate (Engine.build_realizes source) _) _ _
  | unsharpChannel i c e =>
    exact images_laysOut.editBoth engines_laysOut (.restate (unsharpChannel_realizes c) _) _ _ _
  | copyKernel e =>
    exact .bind (engines_laysOut.find _ _) fun engine => kernels_laysOut.add rfl
  | copy n => exact .bind (all_laysOut.find _ _) fun held => all_laysOut.add rfl

end Realization

/-- Carries out operations one after the other, also behind one that is refused. Gives their errors. -/
def run (operations : List Operation) : Edit (List Held) Empty (List (Option Error)) :=
  operations.mapM fun operation => (step operation).answer

/-- Carries out operations on buffers. -/
def runBuffers (operations : List Operation) : Edit (List HeldBuffer) (Flaw Empty) (List (Option Error)) :=
  operations.mapM fun operation => (stepBuffers operation).answerGuarded

/-- Operations on buffers go as the operations on values, as many as there are. -/
theorem run_realizes (operations : List Operation) :
    Edit.Realizes (List.map Held.buffer) id (runBuffers operations) (run operations) :=
  .mapM (fun operation => (step_realizes operation).answer) operations

end Session

end Acutance
