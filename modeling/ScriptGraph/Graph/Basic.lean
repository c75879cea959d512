import ScriptGraph.Json.Printer
import ScriptGraph.Path
import ScriptGraph.Source

/-!
# Declaration graphs

The nodes of a graph are the file and its named functions, classes and methods; the edges tell
what calls, constructs or hands data to what. A node is identified by its kind, name and offset,
an edge by everything it shows.
-/

namespace ScriptGraph

namespace Position

/-- The position as an object. -/
def toJson (p : Position) : Json :=
  .object [("line", .nat p.line), ("character", .nat p.character)]

end Position

namespace Range

/-- The range as an object. -/
def toJson (r : Range) : Json :=
  .object [("start", r.start.toJson), ("end", r.stop.toJson)]

end Range

namespace Graph

/-- What a node stands for. -/
inductive NodeKind
  | file | function | method | «class» | external
  | other (name : String)
deriving DecidableEq, Repr

namespace NodeKind

/-- The name under which results show a kind of node. -/
def name : NodeKind → String
  | file => "file"
  | function => "function"
  | method => "method"
  | «class» => "class"
  | external => "external"
  | other name => name

/-- The kind of a name. -/
def ofName (text : String) : NodeKind :=
  match text with
  | "file" => file
  | "function" => function
  | "method" => method
  | "class" => .class
  | "external" => external
  | _ => other text

end NodeKind

/-- What an edge tells. -/
inductive EdgeKind
  | calls | constructs | dataflow
  | other (name : String)
deriving DecidableEq, Repr

namespace EdgeKind

/-- The kinds of edges that analyses produce. -/
def produced : List EdgeKind :=
  [calls, constructs, dataflow]

/-- The name under which results show a kind of edge. -/
def name : EdgeKind → String
  | calls => "calls"
  | constructs => "constructs"
  | dataflow => "dataflow"
  | other name => name

/-- The kind of a name. -/
def ofName (text : String) : EdgeKind :=
  match text with
  | "calls" => calls
  | "constructs" => constructs
  | "dataflow" => dataflow
  | _ => other text

end EdgeKind

/-- A node of a graph. -/
structure Vertex where
  id : String
  kind : NodeKind
  name : String
  file : String
  range : Range
  signature : Option String := none
deriving DecidableEq, Repr

/-- An edge of a graph. -/
structure Edge where
  id : String
  kind : EdgeKind
  source : String
  target : String
  label : Option String := none
deriving DecidableEq, Repr

end Graph

/-- A declaration graph. -/
structure Graph where
  nodes : List Graph.Vertex := []
  edges : List Graph.Edge := []
deriving DecidableEq, Repr

namespace Graph

/-- The identifier of a node. -/
def nodeId (kind name : String) (offset : Int) : String :=
  kind ++ ":" ++ name ++ "@" ++ toString offset

/-- The identifier of an edge. -/
def edgeKey (kind source target : String) (label hint : Option String) : String :=
  kind ++ ":" ++ source ++ "->" ++ target ++ "@@" ++ label.getD "" ++ "@@" ++ hint.getD ""

/-- The node of a file. -/
def fileVertex (s : Source) : Vertex :=
  let name := Path.displayName s.fileName
  ⟨nodeId "file" name 0, .file, name, s.fileName, s.fullRange, none⟩

/-- The node as an object; a missing signature is left out. -/
def Vertex.toJson (v : Vertex) : Json :=
  .object ([("id", .string v.id), ("kind", .string v.kind.name), ("name", .string v.name),
    ("file", .string v.file), ("range", v.range.toJson)] ++
    (v.signature.map fun s => ("signature", Json.string s)).toList)

/-- The edge as an object; a missing label is left out. -/
def Edge.toJson (e : Edge) : Json :=
  .object ([("id", .string e.id), ("kind", .string e.kind.name), ("source", .string e.source),
    ("target", .string e.target)] ++ (e.label.map fun l => ("label", Json.string l)).toList)

/-- The graph as an object. -/
def toJson (g : Graph) : Json :=
  .object [("nodes", .array (g.nodes.map Vertex.toJson)),
    ("edges", .array (g.edges.map Edge.toJson))]

end Graph

end ScriptGraph
