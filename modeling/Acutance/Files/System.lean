import Acutance.SystemError
import Acutance.Text.Bytes

namespace Acutance

/-- A file system: whole files are read, and a file is created before bytes are written to it. -/
class FileSystem (m : Type → Type) where
  /-- The content of a file. -/
  readFile : String → m (Except SystemError Bytes)
  /-- Makes a file without content. A file that is there loses what it held. -/
  createFile : String → m (Except SystemError Unit)
  /-- Writes the content of a file that was created before. -/
  writeFile : String → Bytes → m (Except SystemError Unit)

end Acutance
