import ScriptGraph.Graph.Basic
import ScriptGraph.Table

/-!
# Parts of a graph

`Graph.select` keeps the edges of some kinds and, around the nodes that a text names, the edges
that touch them with their ends.
-/

namespace ScriptGraph

namespace Text

/-- Whether a text occurs in another one. -/
def occursIn (part : List Char) : List Char → Bool
  | [] => part.isEmpty
  | c :: rest => part.isPrefixOf (c :: rest) || occursIn part rest

/-- Whether a text contains another one. -/
def contains (text part : String) : Bool :=
  occursIn part.toList text.toList

end Text

namespace Graph

/-- The edges of some kinds. No kinds at all mean every kind that analyses produce. -/
def edgesOfKinds (edges : List Edge) (kinds : List EdgeKind) : List Edge :=
  let wanted := if kinds.isEmpty then EdgeKind.produced else kinds
  edges.filter fun e => wanted.contains e.kind

/-- The identifiers of the nodes whose identifier or name contains a text. -/
def matching (nodes : List Vertex) (focus : String) : List String :=
  (nodes.filter fun n => Text.contains n.id focus || Text.contains n.name focus).map (·.id)

/-- The nodes by identifier: of two with the same one, the later, in the place of the earlier. -/
def distinctNodes (nodes : List Vertex) : List Vertex :=
  (Table.ofList (nodes.map fun n => (n.id, n))).values

/-- The part of a graph around the nodes that a text names; all of it if there are none. -/
def around (nodes : List Vertex) (edges : List Edge) (focus : String) : Graph :=
  if focus.isEmpty then ⟨nodes, edges⟩
  else
    let named := matching nodes focus
    -- A text that names nothing selects nothing in particular.
    if named.isEmpty then ⟨nodes, edges⟩
    else
      let touching := edges.filter fun e => named.contains e.source || named.contains e.target
      let kept := named ++ touching.flatMap fun e => [e.source, e.target]
      ⟨(distinctNodes nodes).filter fun n => kept.contains n.id, touching⟩

/-- The edges of some kinds, and of those the ones around the nodes that a text names. -/
def select (g : Graph) (kinds : List EdgeKind) (focus : String) : Graph :=
  around g.nodes (edgesOfKinds g.edges kinds) focus

end Graph

end ScriptGraph
