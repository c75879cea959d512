import ScriptGraph.Graph.Basic

/-!
# Graphs in the DOT language

One line for every node and for every edge between nodes of the graph. Backslashes, quotation
marks and line feeds inside a quoted text are escaped, so a statement never breaks a line.
-/

namespace ScriptGraph.Graph

/-- How a character is written between quotation marks. -/
def escapedChar (c : Char) : List Char :=
  if c == '\\' then ['\\', '\\']
  else if c == '"' then ['\\', '"']
  else if c == '\n' then ['\\', 'n']
  else [c]

/-- A text as it is written between quotation marks. -/
def escaped (text : String) : String :=
  String.ofList (text.toList.flatMap escapedChar)

/-- The shape that nodes of a kind are drawn in. -/
def NodeKind.shape : NodeKind → String
  | .file => "folder"
  | .class => "box"
  | _ => "ellipse"

/-- The line style that edges of a kind are drawn in. -/
def EdgeKind.style : EdgeKind → String
  | .constructs => "bold"
  | .dataflow => "dashed"
  | _ => "solid"

/-- The line of a node. -/
def Vertex.dotLine (v : Vertex) : String :=
  "  \"" ++ escaped v.id ++ "\" [label=\"" ++ escaped v.kind.name ++ "\\n" ++ escaped v.name ++
    "\", shape=" ++ v.kind.shape ++ "];"

/-- The line of an edge. -/
def Edge.dotLine (e : Edge) : String :=
  "  \"" ++ escaped e.source ++ "\" -> \"" ++ escaped e.target ++ "\" [label=\"" ++
    escaped (e.label.getD e.kind.name) ++ "\", style=" ++ e.kind.style ++ "];"

/-- The edges whose ends are nodes of the graph. -/
def innerEdges (g : Graph) : List Edge :=
  let known := g.nodes.map (·.id)
  g.edges.filter fun e => known.contains e.source && known.contains e.target

/-- The graph as a DOT text. -/
def toDot (g : Graph) : String :=
  "\n".intercalate (["digraph CodeGraph \x7b", "  rankdir=LR;"] ++ g.nodes.map Vertex.dotLine ++
    -- The language would draw a node for every other end of an edge.
    (innerEdges g).map Edge.dotLine ++ ["\x7d"])

end ScriptGraph.Graph
