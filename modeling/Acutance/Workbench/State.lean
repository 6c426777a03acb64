import Acutance.Enhance
import Acutance.Workbench.Source

namespace Acutance

/-- What lies on a workbench. -/
structure Workbench where
  image : Option Image
  planes : List (String × Plane)
  kernel : Kernel
  engine : Option Engine
  deriving DecidableEq

namespace Workbench

/-- A workbench before its first command. -/
def initial : Workbench := ⟨none, [], .gaussian, none⟩

/-- Why a command was refused. -/
inductive Error where
  | source (error : SourceError)
  | raster (error : RasterError)
  | color (error : ColorError)
  | filter (error : FilterError)
  | codec (error : CodecError)
  | enhance (error : EnhanceError)
  | noImage
  | noPlane (name : String)
  | noEngine
  deriving DecidableEq, Repr

/-- The plane of a name. -/
def plane? (w : Workbench) (name : String) : Option Plane := w.planes.lookup name

/-- Gives a name to a plane. A plane that had the name loses it. -/
def setPlane (w : Workbench) (name : String) (p : Plane) : Workbench :=
  { w with planes := (name, p) :: w.planes.filter fun (other, _) => other ≠ name }

variable {ε α : Type}

/-- The image on the workbench. -/
def theImage : Edit Workbench Error Image := do
  match (← get).image with
  | some image => return image
  | none => throw (.error .noImage)

/-- The plane of a name. -/
def thePlane (name : String) : Edit Workbench Error Plane := do
  match (← get).plane? name with
  | some p => return p
  | none => throw (.error (.noPlane name))

/-- The engine on the workbench. -/
def theEngine : Edit Workbench Error Engine := do
  match (← get).engine with
  | some engine => return engine
  | none => throw (.error .noEngine)

/-- Edits the image in place. -/
def editImage (wrap : ε → Error) (act : Edit Image ε α) : Edit Workbench Error α := do
  let image ← theImage
  Edit.on (fun _ => image) (fun image w => { w with image := some image }) (act.restate wrap)

/-- Edits a plane in place. -/
def editPlane (name : String) (wrap : ε → Error) (act : Edit Plane ε α) :
    Edit Workbench Error α := do
  let p ← thePlane name
  Edit.on (fun _ => p) (fun p w => w.setPlane name p) (act.restate wrap)

/-- Edits the engine in place. -/
def editEngine (wrap : ε → Error) (act : Edit Engine ε α) : Edit Workbench Error α := do
  let engine ← theEngine
  Edit.on (fun _ => engine) (fun engine w => { w with engine := some engine }) (act.restate wrap)

/-- Edits the image and the engine in place. -/
def editBoth (wrap : ε → Error) (act : Edit (Image × Engine) ε α) : Edit Workbench Error α := do
  let image ← theImage
  let engine ← theEngine
  Edit.on (fun _ => (image, engine))
    (fun (image, engine) w => { w with image := some image, engine := some engine })
    (act.restate wrap)

end Workbench

end Acutance
