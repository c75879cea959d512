import ScriptGraph.Ambient.Text
import ScriptGraph.Binding.Walk
import ScriptGraph.Syntax.Reader

/-!
# The ambient library

The bound form of the ambient library: its binding, and the store that every analysis starts from.
-/

namespace ScriptGraph

/-- A bound file that every analysed file sees, with the store it was bound into. -/
structure Library where
  binding : Binding.FileBinding
  store : Binding.Store
deriving Inhabited

/-- A file bound on its own. -/
def Library.ofSource (s : Source) : Library :=
  ⟨(Binding.bind s {}).1, (Binding.bind s {}).2⟩

namespace Ambient

/-- The directory of the ambient library, in which every file is external. -/
def directory : String := "<ambient>"

/-- The file name of the ambient library. -/
def fileName : String := directory ++ "/lib.ambient.d.ts"

/-- The ambient library as a source file. -/
def source : Source :=
  { Source.ofText fileName text .ts with isBundled := true }

/-- The ambient library, bound. -/
def library : Library :=
  .ofSource source

end Ambient

end ScriptGraph
