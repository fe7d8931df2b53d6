import BuildVocabulary.CommandLine.Run

/-!
# The command line

Reads the files that the arguments name and prints what the command makes of them.
-/

namespace BuildVocabulary

/-- The fault behind an error of the system, which tells a directory by the code 21. -/
def FileFault.ofError (e : IO.Error) : FileFault :=
  match e with
  | .noFileOrDirectory .. => .notFound
  | .inappropriateType _ code _ => if code = 21 then .isDirectory else .notDirectory
  | e => .other (toString e)

def readFile (path : String) : IO (Except FileFault (List UInt8)) :=
  try
    let bytes ← IO.FS.readBinFile path
    pure (.ok bytes.toList)
  catch e => pure (.error (.ofError e))

/-- The contents of files by path. -/
def readFiles (paths : List String) : IO (List (String × Except FileFault (List UInt8))) :=
  paths.mapM fun path => do pure (path, ← readFile path)

/-- Access to files that have been read. -/
def Files.ofRead (contents : List (String × Except FileFault (List UInt8))) : Files :=
  fun path => (contents.lookup path).getD (.error .notFound)

/-- The files that a command reads: those that it names, then those that they list. -/
def Command.readFiles (c : Command) : IO Files := do
  let named ← BuildVocabulary.readFiles c.paths
  let listed ← BuildVocabulary.readFiles (c.listedPaths (.ofRead named))
  pure (.ofRead (named ++ listed))

def Ending.print (e : Ending) : IO Unit := do
  IO.print e.output
  IO.eprint e.errors

end BuildVocabulary

open BuildVocabulary

/-- Runs the command that the arguments make up. -/
def main (arguments : List String) : IO UInt32 := do
  let files ← match Command.ofArguments arguments with
    | .ok c => c.readFiles
    | .error _ => pure (Files.ofRead [])
  let ending := runArguments files arguments
  ending.print
  pure ending.exit.toUInt32
