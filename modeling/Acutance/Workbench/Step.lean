import Acutance.Workbench.State

namespace Acutance.Workbench

/-- A command to a workbench. -/
inductive Command where
  | makeImage (source : ImageSource)
  | readImage (bytes : Bytes) (mode : ReadMode)
  | writeImage (mode : WriteMode)
  | pixel (x y : Nat)
  | setPixel (x y : Nat) (pixel : Pixel)
  | pixels
  | expectSpace (space : ColorSpace)
  /-- Adds a pixel to every pixel, sample by sample, and keeps the low 32 bits. -/
  | shiftPixels (space : ColorSpace) (offset : Pixel)
  /-- Moves the samples of every pixel one channel on, and reads the image in another space. -/
  | rotateChannels (source target : ColorSpace)
  | copyChannel (channel : Channel) (plane : String)
  | setChannel (channel : Channel) (plane : String)
  | makePlane (plane : String) (source : PlaneSource)
  | sample (plane : String) (x y : Nat)
  | setSample (plane : String) (x y : Nat) (sample : Sample)
  | row (plane : String) (y : Nat)
  | fillRow (plane : String) (y : Nat) (sample : Sample)
  | clearPlane (plane : String)
  | copyPlane (source plane : String)
  | compare (first second : String)
  | makeKernel (source : KernelSource)
  | highpass
  | smoothRows (source target : String)
  | detailColumns (plane : String)
  | sharpen (plane detail : String) (blend : Blend)
  | makeEngine (extent : Extent)
  | build (plane : String)
  | unsharpChannel (channel : Channel)
  | unsharp
  | levels
  | toHsv
  | toRgb
  | enhance

/-- The answer to a command. -/
inductive Reply where
  | done
  | image (image : Image)
  | bytes (bytes : Bytes)
  | pixel (pixel : Option Pixel)
  | pixels (pixels : List Pixel)
  | plane (plane : Plane)
  | sample (sample : Option Sample)
  | samples (samples : List Sample)
  | comparison (sameExtent equal : Bool)
  | kernel (kernel : Kernel)
  | engine (engine : Engine)
  | mask (mask : Plane)
  | sharpened (image : Image) (mask : Plane)
  deriving DecidableEq

variable {ε : Type}

/-- Edits the image and shows it. -/
def showImage (wrap : ε → Error) (act : Edit Image ε Unit) : Edit Workbench Error Reply := do
  editImage wrap act
  return .image (← theImage)

/-- Edits a plane and shows it. -/
def showPlane (name : String) (wrap : ε → Error) (act : Edit Plane ε Unit) :
    Edit Workbench Error Reply := do
  editPlane name wrap act
  return .plane (← thePlane name)

/-- Puts an image on the workbench and shows it. -/
def placeImage (image : Image) : Edit Workbench Error Reply := do
  modify fun w => { w with image := some image }
  return .image image

/-- Puts a plane on the workbench and shows it. -/
def placePlane (name : String) (p : Plane) : Edit Workbench Error Reply := do
  modify fun w => w.setPlane name p
  return .plane p

/-- Puts a kernel on the workbench and shows it. -/
def placeKernel (k : Kernel) : Edit Workbench Error Reply := do
  modify fun w => { w with kernel := k }
  return .kernel k

/-- Adds two pixels sample by sample and keeps the low 32 bits. -/
def addPixels (p q : Pixel) : Pixel := ⟨p.first + q.first, p.second + q.second, p.third + q.third⟩

/-- Moves the samples of a pixel one channel on. -/
def rotatePixel (p : Pixel) : Pixel := ⟨p.second, p.third, p.first⟩

/-- Carries out a command. A command that is refused leaves the workbench as its operation left
it. -/
def step : Command → Edit Workbench Error Reply
  | .makeImage source => do placeImage (← Edit.lift (source.make.restate .source))
  | .readImage bytes mode => do
    placeImage (← Edit.lift (Run.ofExcept ((mode.read bytes).mapError .codec)))
  | .writeImage mode => do
    let image ← theImage
    return .bytes (← Edit.lift ((mode.write image).collect.restate .codec))
  | .pixel x y => return .pixel ((← theImage).get? x y)
  | .setPixel x y p => showImage .raster (Edit.update fun image => Run.ofExcept (image.set x y p))
  | .pixels => return .pixels (← theImage).pixels.toList
  | .expectSpace space => do
    let image ← theImage
    Edit.lift (Run.ofExcept ((image.expectSpace space).mapError .raster))
    return .done
  | .shiftPixels space q =>
    showImage .raster (Edit.update (Image.mapPixels space fun p => .ok (addPixels p q)))
  | .rotateChannels source target =>
    showImage .raster (Edit.update (Image.recode source target fun p => .ok (rotatePixel p)))
  | .copyChannel c name => do placePlane name ((← theImage).channel c)
  | .setChannel c name => do
    let p ← thePlane name
    showImage .raster (Edit.update fun image => Run.ofExcept (image.setChannel c p))
  | .makePlane name source => do
    placePlane name (← Edit.lift (source.make.restate .raster))
  | .sample name x y => return .sample ((← thePlane name).get? x y)
  | .setSample name x y s =>
    showPlane name .raster (Edit.update fun p => Run.ofExcept (p.set x y s))
  | .row name y => do
    let p ← thePlane name
    return .samples (← Edit.lift (Run.ofChecked (p.row y)))
  | .fillRow name y s =>
    showPlane name .raster (Edit.update fun p => Run.ofChecked (p.fillRow y s))
  | .clearPlane name => showPlane name .raster (modify Plane.clear)
  | .copyPlane source name => do placePlane name (← thePlane source)
  | .compare first second => do
    let p ← thePlane first
    let q ← thePlane second
    return .comparison (p.extent = q.extent) (p = q)
  | .makeKernel source => do
    placeKernel (← Edit.lift (Run.ofExcept (source.make.mapError .filter)))
  | .highpass => do placeKernel (← get).kernel.highpass
  | .smoothRows source target => do
    let p ← thePlane source
    let k := (← get).kernel
    showPlane target .filter (Edit.update fun q => p.smoothRows k q)
  | .detailColumns name => do
    let k := (← get).kernel
    showPlane name .filter (Edit.update fun p => Run.ofChecked (p.detailColumns k))
  | .sharpen name detail blend => do
    let q ← thePlane detail
    showPlane name .filter (Edit.update fun p => p.sharpen q blend)
  | .makeEngine e => do
    let engine ← Edit.lift ((Engine.ofExtent (← get).kernel e).restate .filter)
    modify fun w => { w with engine := some engine }
    return .engine engine
  | .build name => do
    let p ← thePlane name
    editEngine .filter (Engine.build p)
    return .mask (← theEngine).mask
  | .unsharpChannel c => do
    editBoth .filter (Acutance.unsharpChannel c)
    return .sharpened (← theImage) (← theEngine).mask
  | .unsharp => do showImage .filter (Acutance.unsharp (← get).kernel)
  | .levels => showImage .filter (Edit.update Image.levels)
  | .toHsv => showImage .color (Edit.update Image.toHsv)
  | .toRgb => showImage .color (Edit.update Image.toRgb)
  | .enhance => showImage .enhance Acutance.enhance

/-- Carries out commands one after the other. Gives the answers, of which a fault is the last, and
the workbench in the end, if there was no fault. -/
def run (w : Workbench) : List Command → List (Run Error Reply) × Option Workbench
  | [] => ([], some w)
  | command :: rest =>
    match step command w with
    | .ok reply w =>
      let (replies, final) := run w rest
      (.ok reply :: replies, final)
    | .error (.error e) w =>
      let (replies, final) := run w rest
      (.error (.error e) :: replies, final)
    | .error (.fault f) _ => ([.error (.fault f)], none)

end Acutance.Workbench
