import ScriptGraph.Graph.Builder
import ScriptGraph.Interface.Exports
import ScriptGraph.Interface.Imports

/-!
# Analyses

The analysis of a file gathers its imports, its exports, the ranked targets of its calls and its
declaration graph. All parts are found over the same knowledge, the calls before the graph. A part
that cannot be worked out is left empty without harm to the others.
-/

namespace ScriptGraph

open Inference

/-- What an analysis finds out about a file. -/
structure Analysis where
  imports : List ImportRecord := []
  exports : List ExportRecord := []
  calls : List CallRecord := []
  graph : Graph := {}

namespace Analysis

/-- The calls and the graph of a file. -/
def sitesOf (settings : Settings) (s : Source) : Inquiry (List CallRecord × Graph) := do
  let calls ← Sites.rankedCalls settings s
  let graph ← Graph.ofSource settings s
  -- The graph is built all the same when the calls cannot be ranked.
  return (calls.getD [], graph)

/-- The analysis of a file next to the files of a disk. -/
def ofSource (settings : Settings) (disk : Disk) (library : Library) (s : Source) : Analysis :=
  let start := Knowledge.ofWorkspace (Workspace.ofSource settings disk library s)
  let ((calls, graph), _) := (sitesOf settings s).conduct.run start
  { imports := s.imports, exports := s.exports, calls, graph }

/-- The parts of an analysis, by name. -/
def members (a : Analysis) : List (String × Json) :=
  [("imports", .array (a.imports.map ImportRecord.toJson)),
   ("exports", .array (a.exports.map ExportRecord.toJson)),
   ("calls", .array (a.calls.map CallRecord.toJson)), ("graph", a.graph.toJson)]

/-- The message that carries an analysis to a front end. -/
def envelope (a : Analysis) (fileName languageId : String) (stats : TextStats) : Json :=
  .object [("type", .string "analysisResult"),
    ("payload", .object ([("fileName", .string (Path.displayName fileName)),
      ("languageId", .string languageId), ("stats", stats.toJson)] ++ a.members))]

end Analysis

end ScriptGraph
