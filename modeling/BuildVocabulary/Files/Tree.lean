import BuildVocabulary.Files.Access
import BuildVocabulary.Files.Path

/-!
# File trees

A `FileTree` holds files in memory under the names that lead to them from the root. A directory
exists where a file is below it, and so does the working directory. `FileTree.read` follows a path
name by name: a dot or an empty name stays in a directory, and two dots go back.
-/

namespace BuildVocabulary

structure FileTree where
  /-- The names that lead from the root to the directory where relative paths start. -/
  workingDirectory : List String := []
  files : List (List String × List UInt8) := []

namespace FileTree

/-- Whether there is a directory at a place. -/
def isDirectory (t : FileTree) (place : List String) : Bool :=
  place.isPrefixOf t.workingDirectory ||
    t.files.any fun e => place.isPrefixOf e.1 && place.length < e.1.length

/-- Follows names from a directory. -/
def follow (t : FileTree) (place : List String) : List String → Except FileFault (List UInt8)
  | [] => .error .isDirectory
  | name :: names =>
    if Path.isIdle name then t.follow place names
    else if name == ".." then t.follow place.dropLast names
    else
      let next := place ++ [name]
      match t.files.lookup next with
      | some bytes => if names.isEmpty then .ok bytes else .error .notDirectory
      | none => if t.isDirectory next then t.follow next names else .error .notFound

def read (t : FileTree) : Files := fun path =>
  if path.isEmpty then .error .notFound
  else t.follow (if Path.isAbsolute path then [] else t.workingDirectory) (Path.names path)

/-- The place that a path names, where no name before two dots is looked at. -/
def placeOf (t : FileTree) (path : String) : List String :=
  (Path.names path).foldl
    (fun place name =>
      if Path.isIdle name then place else if name == ".." then place.dropLast else place ++ [name])
    (if Path.isAbsolute path then [] else t.workingDirectory)

/-- Puts a file at a path, in front of what is there. -/
def write (t : FileTree) (path : String) (bytes : List UInt8) : FileTree :=
  { t with files := (t.placeOf path, bytes) :: t.files }

end FileTree

end BuildVocabulary
