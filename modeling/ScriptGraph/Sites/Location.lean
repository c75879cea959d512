import ScriptGraph.Ambient.Library
import ScriptGraph.Binding.Declaration
import ScriptGraph.Graph.Selection

/-!
# Where declarations stand

A declaration starts at the first of the keywords and decorators that belong to it and ends where
its construct ends. A file is external when its path contains one of some markers, or when it
belongs to the ambient library.
-/

namespace ScriptGraph

open Binding Syntax

/-- The place of a declaration. -/
structure Location where
  fileName : String
  offset : Nat
  range : Range
deriving DecidableEq, Repr, Inhabited

namespace Location

/-- Whether the keywords in front of a declared construct belong to its declaration. -/
def takesKeywords : DeclarationKind → Bool
  | .function | .functionSignature | .class | .interface | .typeAlias | .enum | .namespace => true
  | _ => false

/-- The outermost of the export statements and ambient declarations directly around a place, or
the place itself. -/
def wrapperFrom (source : Source) (tree : Tree) : List Crumb → Node
  | [] => ⟨source, tree, []⟩
  | c :: up =>
    -- `export` and `declare` belong to the declaration they stand in front of.
    if c.parent.isKind .exportStatement || c.parent.isKind .ambientDeclaration then
      wrapperFrom source c.parent up
    else ⟨source, tree, c :: up⟩

/-- The outermost of the export statements and ambient declarations directly around a node, or
the node itself. -/
def wrapper (n : Node) : Node :=
  wrapperFrom n.source n.tree n.trail

/-- The start of the earliest of the decorators that end a list of siblings, given last one
first; a token between them does not matter. -/
def decoratedStart (start : Nat) : List Tree → Nat
  | [] => start
  | t :: before =>
    if t.isKind .decorator then decoratedStart t.start before
    -- Any other construct separates the decorators before it.
    else if t.isNamed then start
    else decoratedStart start before

/-- The siblings in front of a node, the closest one first. -/
def siblingsBefore (n : Node) : List Tree :=
  match n.trail with
  | [] => []
  | c :: _ => (c.parent.children.take c.index).reverse

/-- The place of a construct with the decorators in front of it. -/
def ofNode (n : Node) : Location :=
  let start := decoratedStart n.start (siblingsBefore n)
  ⟨n.source.fileName, n.source.offset start, n.source.range start n.stop⟩

/-- Whether a path belongs to the ambient library. -/
def isAmbient (fileName : String) : Bool :=
  fileName == Ambient.directory || fileName.startsWith (Ambient.directory ++ "/")

/-- Whether a path contains one of some markers. A marker that is not a text has no answer, unless
an earlier marker has decided. -/
def isMarked (path : String) : List Json → Option Bool
  | [] => some false
  | .string marker :: rest => if Text.contains path marker then some true else isMarked path rest
  | _ :: _ => none

/-- Whether a file is external: dependency code or the ambient library. -/
def isExternal (markers : List Json) (fileName : String) : Option Bool :=
  -- Markers are written with slashes.
  let path := fileName.map fun c => if c == '\\' then '/' else c
  (isMarked path markers).map fun marked => marked || isAmbient fileName

end Location

namespace Binding.Declaration

/-- The place of a declaration. -/
def location (d : Declaration) : Location :=
  Location.ofNode (if Location.takesKeywords d.kind then Location.wrapper d.node else d.node)

end Binding.Declaration

end ScriptGraph
