import Acutance.Main
import Acutance.Files.Disk
import Acutance.Proofs.Enhance.ClosedForm
import Acutance.Proofs.Enhance.Flat
import Acutance.Proofs.Enhance.Gray
import Acutance.Proofs.Enhance.Safety
import Acutance.Proofs.Enhance.Symmetry
import Acutance.Proofs.Enhance.Tiling
import Acutance.Proofs.Buffer.WellFormed
import Acutance.Proofs.Codec.Formats
import Acutance.Proofs.Codec.Samples
import Acutance.Proofs.Color.RoundTrip
import Acutance.Proofs.Files.Rejected
import Acutance.Proofs.Filter.Averaging
import Acutance.Proofs.Filter.Highpass
import Acutance.Proofs.Filter.History
import Acutance.Proofs.Filter.Independence
import Acutance.Proofs.Pnm.Answers
import Acutance.Proofs.Pnm.Defects
import Acutance.Proofs.Pnm.Refused
import Acutance.Proofs.Pnm.Tokens
import Acutance.Proofs.Pnm.Truncated
import Acutance.Proofs.Filter.Ramp
import Acutance.Proofs.Atomicity
import Acutance.Regression
import Acutance.Workbench.Step
import Acutance.Proofs.Color.Gamut
import Acutance.Proofs.Color.Symmetry
import Acutance.Proofs.Codec.Device
import Acutance.Proofs.Pnm.Device
import Acutance.Proofs.Codec.Detection
import Acutance.Proofs.Png.Pixels
import Acutance.Proofs.Raster.Access
import Acutance.Proofs.Raster.Outside
import Acutance.Proofs.Regression.Verdict
