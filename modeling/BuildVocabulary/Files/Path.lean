import BuildVocabulary.Text.Segments

/-!
# Paths

A path is a text of names separated by slashes. Paths are joined and shortened as texts: what they
name is left to whoever opens them.

* `join`: a path relative to a directory;
* `parent`: the directory part of a path.
-/

namespace BuildVocabulary.Path

def isAbsolute (path : String) : Bool := path.toList.head? == some '/'

/-- A path relative to a directory, where an absolute path stands for itself. -/
def join (directory path : String) : String :=
  if isAbsolute path then path
  else if directory.isEmpty || directory.toList.getLast? == some '/' then directory ++ path
  else directory ++ "/" ++ path

/-- The names of a path. Names that are empty or a dot stand for the directory before them. -/
def names (path : String) : List String := (pieces '/' path.toList).map String.ofList

/-- Whether a name stands for the directory before it. -/
def isIdle (name : String) : Bool := name == "" || name == "."

/-- Drops names at the end that stand for the directory before them; names are given in reverse
order. A dot that begins a relative path is kept. -/
def dropIdle (absolute : Bool) : List String → List String
  | [] => []
  | [name] => if name == "" || (absolute && name == ".") then [] else [name]
  | name :: names => if isIdle name then dropIdle absolute names else name :: names

/-- A path without its last name, and empty when it has no other. -/
def parent (path : String) : String :=
  let absolute := isAbsolute path
  let all := (if absolute then (names path).drop 1 else names path).reverse
  let left := dropIdle absolute ((dropIdle absolute all).drop 1)
  (if absolute && !(dropIdle absolute all).isEmpty then "/" else "") ++ "/".intercalate left.reverse

end BuildVocabulary.Path
