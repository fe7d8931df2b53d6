/-!
# Access to files

Files are read through a function from paths to bytes, which may fail with a `FileFault`. So
everything that reads files is a function of their contents.
-/

namespace BuildVocabulary

/-- Why a file cannot be read. -/
inductive FileFault where
  | notFound
  | notDirectory
  /-- The path can be opened but names a directory. -/
  | isDirectory
  /-- Another reason, in the words of the system. -/
  | other (reason : String)
  deriving DecidableEq, Repr

def FileFault.message : FileFault → String
  | .notFound => "No such file or directory (os error 2)"
  | .notDirectory => "Not a directory (os error 20)"
  | .isDirectory => "Is a directory (os error 21)"
  | .other reason => reason

/-- Gives the bytes of the file at a path. -/
abbrev Files := String → Except FileFault (List UInt8)

/-- The files after bytes have been written to one of them. -/
def Files.write (files : Files) (path : String) (bytes : List UInt8) : Files := fun p =>
  if p = path then .ok bytes else files p

end BuildVocabulary
