import ScriptGraph.Path
import ScriptGraph.Table

/-!
# Disks

A disk holds files by their normal absolute paths. A directory exists when a file lies below it.
-/

namespace ScriptGraph

/-- Texts by normal absolute path. -/
structure Disk where
  files : Table String String := .empty
deriving Inhabited

namespace Disk

/-- The disk with the given files, whose paths may be relative. -/
def ofFiles (files : List (String × String)) : Disk :=
  ⟨Table.ofList (files.map fun f => (Path.absolute f.1, f.2))⟩

/-- The text of a file. -/
def read? (d : Disk) (path : String) : Option String :=
  d.files.find? (Path.absolute path)

/-- Whether a path names a file. -/
def isFile (d : Disk) (path : String) : Bool :=
  d.files.contains (Path.absolute path)

/-- Whether a path lies below a directory; both are normal. -/
def isBelow (directory path : String) : Bool :=
  let lead := if directory == "/" then directory else directory ++ "/"
  path.startsWith lead

/-- Whether a path names a directory. -/
def isDirectory (d : Disk) (path : String) : Bool :=
  d.files.keys.any (isBelow (Path.absolute path))

end Disk

end ScriptGraph
