import Acutance.Enhance

namespace Acutance

/-- The error inside a codec's error, if it only passes one on. -/
def CodecError.cause? : CodecError → Option String
  | .system e => some e.message
  | .raster e => some e.message
  | .unsupported _ | .invalid _ | .decode _ | .encode _ => none

/-- The error inside an error of the enhancement, if it only passes one on. -/
def EnhanceError.cause? : EnhanceError → Option String
  | .raster _ => none
  | .color (.raster e) => some e.message
  | .filter (.raster e) => some e.message
  | .filter _ => none
  | .codec e => e.cause?

namespace CommandLine

/-- The file that the command line reads. -/
def input : String := "input.ppm"

/-- The file that the command line writes. -/
def output : String := "output.ppm"

/-- The lines of a chain of causes. A single cause is not numbered. -/
def causeLines : List String → List String
  | [cause] => ["    " ++ cause]
  | causes => causes.zipIdx.map fun (cause, i) => s!"    {i}: {cause}"

/-- The report on an error. -/
def report (e : EnhanceError) : String :=
  let causes := e.message :: e.cause?.toList
  let lines := [s!"Error: failed to enhance {input} into {output}", "", "Caused by:"]
  String.join ((lines ++ causeLines causes).map fun line => line ++ "\n")

end CommandLine

end Acutance
