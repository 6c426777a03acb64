import Acutance.Files.Enhance
import Acutance.Files.CommandLine

namespace Acutance

/-- What the system refused, in the terms of the library. -/
def SystemError.ofSystem : IO.Error → SystemError
  | .noFileOrDirectory .. => .notFound
  | .inappropriateType _ 21 _ => .isDirectory
  | .inappropriateType _ 20 _ => .notDirectory
  | e => .other (toString e)

/-- Catches what the system refused. -/
def caught {α : Type} (act : IO α) : IO (Except SystemError α) := do
  try
    return .ok (← act)
  catch e =>
    return .error (.ofSystem e)

/-- The file system of the machine. -/
instance : FileSystem IO where
  readFile path := caught do
    let content ← IO.FS.readBinFile path
    return content.toList
  createFile path := caught (IO.FS.writeBinFile path ByteArray.empty)
  writeFile path bytes := caught (IO.FS.writeBinFile path ⟨bytes.toArray⟩)

end Acutance

/-- Enhances `input.ppm` into `output.ppm` in the current directory, and reports a failure on
standard error. A fault ends it like an error, with the text of the fault. -/
def main : IO UInt32 := do
  match ← Acutance.Files.enhance Acutance.CommandLine.input Acutance.CommandLine.output with
  | .ok () => return 0
  | .error (.error e) =>
    IO.eprint (Acutance.CommandLine.report e)
    return 1
  | .error (.fault fault) =>
    IO.eprintln (fault.message?.getD "out of range")
    return 101
