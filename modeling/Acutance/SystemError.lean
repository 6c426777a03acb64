namespace Acutance

/-- Why the system refused to read or write. -/
inductive SystemError where
  | notFound
  | isDirectory
  | notDirectory
  | nameTooLong
  /-- A path held the character that ends paths. -/
  | nulInPath
  /-- A sink had no room left. -/
  | writerFull
  | other (text : String)
  deriving DecidableEq, Repr

/-- The text of the error. -/
def SystemError.message : SystemError → String
  | notFound => "No such file or directory (os error 2)"
  | isDirectory => "Is a directory (os error 21)"
  | notDirectory => "Not a directory (os error 20)"
  | nameTooLong => "File name too long (os error 36)"
  | nulInPath => "file name contained an unexpected NUL byte"
  | writerFull => "writer full"
  | other text => text

end Acutance
