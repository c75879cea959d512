import ScriptGraph.Syntax.Kind

/-!
# Syntax trees

A tree node has a label, the role it plays in its parent, the span of bytes it covers and its
children in source order: constructs, plain tokens and comments alike. White space belongs to no
node. `Tree.branch` builds a construct whose span is that of its children.
-/

namespace ScriptGraph.Syntax

/-- A syntax tree over a text; `start` and `stop` count bytes. -/
inductive Tree
  | node (label : Label) (role : Option Field) (start stop : Nat) (children : List Tree)
deriving Repr, Inhabited

namespace Tree

/-- What the node is. -/
def label : Tree → Label
  | node l _ _ _ _ => l

/-- The node's role in its parent. -/
def role : Tree → Option Field
  | node _ r _ _ _ => r

/-- The offset of the first byte. -/
def start : Tree → Nat
  | node _ _ s _ _ => s

/-- The offset after the last byte. -/
def stop : Tree → Nat
  | node _ _ _ e _ => e

/-- All children in source order. -/
def children : Tree → List Tree
  | node _ _ _ _ cs => cs

/-- Whether the node is a construct. -/
def isNamed (t : Tree) : Bool :=
  t.label.isNamed

/-- Whether the node is a construct of the given kind. -/
def isKind (t : Tree) (k : Kind) : Bool :=
  t.label == .construct k

/-- Whether the node is a comment. -/
def isComment (t : Tree) : Bool :=
  t.isKind .comment

/-- The same tree in another role. -/
def withRole (r : Field) : Tree → Tree
  | node l _ s e cs => node l (some r) s e cs

/-- The same tree as another kind of construct. -/
def withKind (k : Kind) : Tree → Tree
  | node _ r s e cs => node (.construct k) r s e cs

/-- A tree without children. -/
def leaf (label : Label) (start stop : Nat) : Tree :=
  node label none start stop []

/-- A construct that spans its children. -/
def branch (k : Kind) (children : List Tree) : Tree :=
  match children with
  | [] => node (.construct k) none 0 0 []
  | first :: rest => node (.construct k) none first.start (rest.getLastD first).stop (first :: rest)

mutual

/-- The number of nodes of a tree. -/
def size : Tree → Nat
  | node _ _ _ _ cs => sizeAll cs + 1

/-- The number of nodes of a list of trees. -/
def sizeAll : List Tree → Nat
  | [] => 0
  | t :: ts => size t + sizeAll ts

end

end Tree

end ScriptGraph.Syntax
