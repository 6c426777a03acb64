import Acutance.Codec.FileFormat
import Acutance.Filter.Kernel
import Acutance.Synthetic.Pattern

namespace Acutance

/-- Why an image could not be made. -/
inductive SourceError where
  | raster (error : RasterError)
  | synthesis (error : SynthesisError)
  deriving DecidableEq, Repr

/-- What an image is made from. -/
inductive ImageSource where
  | blank (extent : Extent) (space : ColorSpace)
  | samples (extent : Extent) (space : ColorSpace) (samples : Array Sample)
  | pattern (extent : Extent) (pattern : Pattern)
  deriving DecidableEq

/-- Makes an image. -/
def ImageSource.make : ImageSource → Run SourceError Image
  | blank e space => Run.ofExcept ((Image.blank e space).mapError .raster)
  | samples e space values => Run.ofExcept ((Image.ofSamples e space values).mapError .raster)
  | pattern e p => (p.image e).restate .synthesis

/-- What a plane is made from. -/
inductive PlaneSource where
  | zeros (extent : Extent)
  | samples (extent : Extent) (samples : Array Sample)
  deriving DecidableEq

/-- Makes a plane. -/
def PlaneSource.make : PlaneSource → Run RasterError Plane
  | zeros e => Plane.zeros e
  | samples e values => Run.ofExcept (Plane.ofSamples e values)

/-- What a kernel is made from: its taps, or those of the bell curve, and whether its high-pass
companion is meant. -/
structure KernelSource where
  taps : Option (List Sample)
  highpass : Bool
  deriving DecidableEq

/-- Makes a kernel. -/
def KernelSource.make (source : KernelSource) : Except FilterError Kernel := do
  let k ← match source.taps with
    | none => pure Kernel.gaussian
    | some taps => Kernel.ofTaps taps
  return if source.highpass then k.highpass else k

/-- What a file is read as: a given format, or the one that its first bytes tell. -/
inductive ReadMode where
  | detected
  | format (format : FileFormat)
  deriving DecidableEq, Repr

/-- Reads an image. -/
def ReadMode.read (bytes : Bytes) : ReadMode → Except CodecError Image
  | detected => Codec.read bytes
  | format .pnm => Codec.Pnm.read bytes
  | format .png => Codec.Png.read bytes

/-- What an image is written as: a given variant of PNM, or a given format. -/
inductive WriteMode where
  | pnm (encoding : Codec.Pnm.Encoding)
  | format (format : FileFormat)
  deriving DecidableEq, Repr

/-- Writes an image. -/
def WriteMode.write (image : Image) : WriteMode → Edit Sink CodecError Unit
  | pnm encoding => Codec.Pnm.write image encoding
  | format f => Codec.write image f

end Acutance
