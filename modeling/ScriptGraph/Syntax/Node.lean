import ScriptGraph.Source

/-!
# Places in a syntax tree

A `Node` is a tree seen from inside a source file: the tree itself together with the way back to
the root. It gives access to parents, siblings and text. `NodeKey` identifies a node within all
files: no two nodes of one tree share span and label.
-/

namespace ScriptGraph.Syntax

/-- One step of the way from a node up to the root: the parent and the node's place among the
parent's children. -/
structure Crumb where
  parent : Tree
  index : Nat
deriving Inhabited

/-- A tree at its place in a source file; `trail` leads from the parent to the root. -/
structure Node where
  source : Source
  tree : Tree
  trail : List Crumb
deriving Inhabited

/-- What identifies a node: its file, its span and its label. -/
structure NodeKey where
  fileName : String
  start : Nat
  stop : Nat
  label : Label
deriving DecidableEq, Hashable, Repr, Inhabited

namespace Node

/-- The node's label. -/
def label (n : Node) : Label :=
  n.tree.label

/-- The node's first byte. -/
def start (n : Node) : Nat :=
  n.tree.start

/-- The byte after the node. -/
def stop (n : Node) : Nat :=
  n.tree.stop

/-- What identifies the node. -/
def key (n : Node) : NodeKey :=
  ⟨n.source.fileName, n.start, n.stop, n.label⟩

/-- Whether the node is a construct. -/
def isNamed (n : Node) : Bool :=
  n.tree.isNamed

/-- Whether the node is a construct of the given kind. -/
def is (n : Node) (k : Kind) : Bool :=
  n.tree.isKind k

/-- The kind of a construct. -/
def kind? (n : Node) : Option Kind :=
  match n.label with
  | .construct k => some k
  | .token _ => none

/-- Whether the node is a construct of one of the given kinds. -/
def isOneOf (n : Node) (ks : List Kind) : Bool :=
  ks.any n.is

/-- The text the node covers. -/
def text (n : Node) : String :=
  n.source.slice n.start n.stop

/-- The node around this one. -/
def parent (n : Node) : Option Node :=
  match n.trail with
  | [] => none
  | c :: up => some ⟨n.source, c.parent, up⟩

/-- All children in source order. -/
def children (n : Node) : List Node :=
  n.tree.children.zipIdx.map fun (t, i) => ⟨n.source, t, ⟨n.tree, i⟩ :: n.trail⟩

/-- The children that are constructs, comments among them. -/
def namedChildren (n : Node) : List Node :=
  n.children.filter isNamed

/-- The children that are constructs other than comments. -/
def constructs (n : Node) : List Node :=
  n.children.filter fun c => c.isNamed && !c.is .comment

/-- The first child in a role. -/
def child? (n : Node) (f : Field) : Option Node :=
  n.children.find? fun c => c.tree.role == some f

/-- The constructs within the first child in a role. -/
def constructsIn (n : Node) (f : Field) : List Node :=
  match n.child? f with
  | some c => c.constructs
  | none => []

/-- Whether one of the children is a token with the given spelling. -/
def hasToken (n : Node) (spelling : String) : Bool :=
  n.tree.children.any fun c => c.label == .token spelling

/-- Whether two nodes are the same place of the same file. -/
def same (a b : Node) : Bool :=
  a.key == b.key

/-- A child is in the file of its parent. -/
theorem source_of_mem_children {n c : Node} (h : c ∈ n.children) : c.source = n.source := by
  obtain ⟨e, -, rfl⟩ := List.mem_map.mp h
  rfl

/-- A construct inside a node is in its file. -/
theorem source_of_mem_constructs {n c : Node} (h : c ∈ n.constructs) : c.source = n.source :=
  source_of_mem_children (List.mem_filter.mp h).1

/-- A named child is in the file of its parent. -/
theorem source_of_mem_namedChildren {n c : Node} (h : c ∈ n.namedChildren) :
    c.source = n.source :=
  source_of_mem_children (List.mem_filter.mp h).1

/-- The part in a role is in the file of the node. -/
theorem source_of_child? {n c : Node} {f : Field} (h : n.child? f = some c) :
    c.source = n.source :=
  source_of_mem_children (List.mem_of_find?_eq_some h)

/-- A construct in a role is in the file of the node. -/
theorem source_of_mem_constructsIn {n c : Node} {f : Field} (h : c ∈ n.constructsIn f) :
    c.source = n.source := by
  unfold constructsIn at h
  split at h
  · rename_i part hpart
    exact (source_of_mem_constructs h).trans (source_of_child? hpart)
  · exact absurd h List.not_mem_nil

end Node

mutual

/-- All nodes below and including a tree, each before its children. -/
def preorderFrom (source : Source) (trail : List Crumb) : Tree → List Node
  | .node l r s e cs =>
    ⟨source, .node l r s e cs, trail⟩ :: preorderAll source (.node l r s e cs) trail 0 cs

/-- All nodes below a list of siblings. -/
def preorderAll (source : Source) (parent : Tree) (trail : List Crumb) (index : Nat) :
    List Tree → List Node
  | [] => []
  | t :: ts =>
    preorderFrom source (⟨parent, index⟩ :: trail) t ++
      preorderAll source parent trail (index + 1) ts

end

/-- The node and all nodes below it, each before its children. -/
def Node.preorder (n : Node) : List Node :=
  preorderFrom n.source n.trail n.tree

end ScriptGraph.Syntax

namespace ScriptGraph

/-- The root of a file's tree. -/
def Source.root (s : Source) : Syntax.Node :=
  ⟨s, s.tree, []⟩

end ScriptGraph
