import ScriptGraph.Sites.Ranking

/-!
# Building the graph of a file

The nodes come first: the file, its named functions with a body, its named classes and their plain
methods. Then every call and construction, in source order, adds an edge from the function or
method around it to its target, if the target is a node, and one edge for every argument that is
handed to a parameter. An edge is added once.
-/

namespace ScriptGraph.Graph

open Binding Syntax Inference Sites

/-- Whether a construct declares a function. -/
def isFunctionDeclaration (n : Node) : Bool :=
  n.isOneOf [.functionDeclaration, .generatorFunctionDeclaration]

/-- Whether a construct is a method with a plain name and a body: no accessor, no constructor. -/
def isPlainMethod (n : Node) : Bool :=
  n.is .methodDefinition && (n.child? .body).isSome && !n.hasToken "get" && !n.hasToken "set" &&
    match n.child? .name with
    | some name => name.is .propertyIdentifier && name.text != "constructor"
    | none => false

/-- A construct that may become a node. -/
structure Candidate where
  node : Node
  kind : NodeKind
  name : String

/-- What a construct contributes to the nodes. The methods of a class come with the class. -/
def candidates (n : Node) : List Candidate :=
  match n.child? .name with
  | none => []
  | some name =>
    if isFunctionDeclaration n && (n.child? .body).isSome then [⟨n, .function, name.text⟩]
    else if isClassDeclaration n then
      -- Methods are named after their class, so they come from it and not from the walk.
      let members := ((n.child? .body).map Node.constructs).getD []
      ⟨n, .class, name.text⟩ :: (members.filter isPlainMethod).map fun m =>
        ⟨m, .method, name.text ++ "." ++ ((m.child? .name).map Node.text).getD ""⟩
    else []

/-- A graph in the making. `idAt` finds the nodes by the offset at which they start. -/
structure Draft where
  graph : Graph
  idAt : Table Nat String := .empty

/-- The signature that is shown with a node. -/
def signatureText (id : DeclarationId) : Inquiry (Option String) := do
  match (← declarationOf id).kind with
  | .function | .method => return some (← (← signatureOf id).display demand)
  | _ => return none

/-- Adds a node, unless there is one at the same offset. -/
def addVertex (b : FileBinding) (draft : Draft) (c : Candidate) : Inquiry Draft := do
  match b.declarationAt? c.node with
  | none => return draft
  | some id =>
    let location := (← declarationOf id).location
    -- Offsets find the nodes that edges join, so one offset has one node.
    if draft.idAt.contains location.offset then return draft
    let vertexId := nodeId c.kind.name c.name location.offset
    let signature ← signatureText id
    let vertex : Vertex :=
      ⟨vertexId, c.kind, c.name, b.source.fileName, location.range, signature⟩
    return { graph := { draft.graph with nodes := draft.graph.nodes ++ [vertex] }
             idAt := draft.idAt.put location.offset vertexId }

/-- The graph of a file with its nodes only. -/
def vertices (s : Source) (b : FileBinding) : Inquiry Draft :=
  ((s.root.preorder.filter Node.isNamed).flatMap candidates).foldlM (addVertex b)
    { graph := { nodes := [fileVertex s] } }

/-- A call or construction and the node that it belongs to. -/
structure Site where
  node : Node
  owner : String

/-- Whether the sites in a construct belong to the construct: it is a function declaration with a
name, or a plain method, and it has a body. -/
def ownsBody (n : Node) : Bool :=
  (n.child? .body).isSome &&
    ((isFunctionDeclaration n && (n.child? .name).isSome) || isPlainMethod n)

/-- The node that owns the sites in the body of a construct, if the construct is a function or
method of its own. -/
def bodyOwner (b : FileBinding) (st : Store) (idAt : Table Nat String) (n : Node)
    (owner : String) : Option String :=
  if ownsBody n then
    match b.declarationAt? n with
    -- A method of an object literal has no node: its sites belong to the owner around it.
    | some id => some ((idAt.find? (st.declaration id).location.offset).getD owner)
    | none => some owner
  else none

/-- Whether a tree is a call or construction. -/
def isSite (l : Label) : Bool :=
  l == .construct .callExpression || l == .construct .newExpression

mutual

/-- The calls and constructions in a tree, each before those inside it. Of a function or method
only the body counts. -/
def sitesIn (inside : Node → String → Option String) (source : Source) (trail : List Crumb)
    (owner : String) : Tree → List Site
  | .node l r s e cs =>
    let n : Node := ⟨source, .node l r s e cs, trail⟩
    match inside n owner with
    | some next => sitesInBody inside source n.tree trail 0 next cs
    | none =>
      (if isSite l then [⟨n, owner⟩] else []) ++ sitesAmong inside source n.tree trail 0 owner cs

/-- The calls and constructions in the first body among siblings. -/
def sitesInBody (inside : Node → String → Option String) (source : Source) (parent : Tree)
    (trail : List Crumb) (index : Nat) (owner : String) : List Tree → List Site
  | [] => []
  | t :: ts =>
    if t.role = some .body then sitesIn inside source (⟨parent, index⟩ :: trail) owner t
    else sitesInBody inside source parent trail (index + 1) owner ts

/-- The calls and constructions in siblings. -/
def sitesAmong (inside : Node → String → Option String) (source : Source) (parent : Tree)
    (trail : List Crumb) (index : Nat) (owner : String) : List Tree → List Site
  | [] => []
  | t :: ts =>
    sitesIn inside source (⟨parent, index⟩ :: trail) owner t ++
      sitesAmong inside source parent trail (index + 1) owner ts

end

/-- An edge, identified by everything it shows and by a hint. -/
def Edge.between (kind : EdgeKind) (source target : String) (label hint : Option String) : Edge :=
  ⟨edgeKey kind.name source target label hint, kind, source, target, label⟩

/-- Adds an edge, unless there is one with the same key. -/
def addEdge (edges : List Edge) (e : Edge) : List Edge :=
  if edges.any (·.id == e.id) then edges else edges ++ [e]

/-- Clamps a text to a limit of the settings. There is no answer when the limit is no number, or
when the text has to be cut to a fraction. -/
def clampBy (limit : Json) (text : String) : Option String :=
  match limit with
  | .decimal d =>
    let collapsed := Text.collapse text
    if d.isAtLeast collapsed.toList.length then some collapsed else none
  | _ => limit.asIndex.map fun n => Text.clamp n text

/-- A name or text and its type, if the type is shown at all. -/
def typed (text type : String) : String :=
  if type.isEmpty then text else text ++ ": " ++ type

/-- The text of a type in a label. -/
def labelType (t : Ty) : Inquiry String := do
  return Text.collapse (← t.display demand)

/-- The label of the edge for an argument and the parameter that it is handed to. -/
def dataflowLabel (settings : Settings) (p : Parameter) (argument : Node) :
    Inquiry (Option String) := do
  match clampBy settings.paramLabelMax p.name, clampBy settings.argLabelMax argument.text with
  | some name, some text =>
    let parameterType ← labelType p.type
    let argumentType ← labelType (← typeOf argument)
    return some (typed name parameterType ++ " ← " ++ typed text argumentType)
  | _, _ => return none

/-- The edge for the argument at a place. -/
def dataflowEdge (owner target : String) (index : Nat) (label : String) : Edge :=
  .between .dataflow owner target (some label) (some ("arg#" ++ toString index))

/-- The edges for the arguments from a place on, up to the first one that has no label. -/
def dataflowEdges (settings : Settings) (owner target : String) (index : Nat) :
    List (Parameter × Node) → Inquiry (List Edge)
  | [] => return []
  | (p, argument) :: rest => do
    match ← dataflowLabel settings p argument with
    -- An edge that has no label is left out, and so are those after it.
    | none => return []
    | some label =>
      return dataflowEdge owner target index label ::
        (← dataflowEdges settings owner target (index + 1) rest)

/-- The class of a constructor; any other declaration itself. -/
def constructedDeclaration (id : DeclarationId) : Inquiry DeclarationId := do
  let d ← declarationOf id
  match d.kind, d.symbol with
  | .constructor, some symbol => return ((← store).firstOf (· == .class) symbol).getD id
  | _, _ => return id

/-- What a call or construction binds to. -/
def siteTarget (n : Node) : Inquiry Target :=
  if n.is .callExpression then callTarget n else constructTarget n

/-- The declaration that stands for the target of a site: for a construction, the class of a
constructor. -/
def standIn (n : Node) (id : DeclarationId) : Inquiry DeclarationId :=
  if n.is .callExpression then return id else constructedDeclaration id

/-- The node at which a declaration starts. -/
def targetId (s : Source) (idAt : Table Nat String) (id : DeclarationId) :
    Inquiry (Option String) := do
  let location := (← declarationOf id).location
  return if location.fileName == s.fileName then idAt.find? location.offset else none

/-- The kind of the edge from the owner of a site to its target. -/
def siteKind (n : Node) : EdgeKind :=
  if n.is .callExpression then .calls else .constructs

/-- The edges of a call or construction. -/
def siteEdges (settings : Settings) (s : Source) (idAt : Table Nat String) (site : Site) :
    Inquiry (List Edge) := do
  if site.node.is .callExpression && isTagged site.node then return []
  let target ← siteTarget site.node
  match target.declaration with
  | none => return []
  | some id =>
    match ← targetId s idAt (← standIn site.node id) with
    | none => return []
    | some vertex =>
      -- This edge stays even if a label of the next ones cannot be built.
      let first := Edge.between (siteKind site.node) site.owner vertex none none
      -- Without a declaration the signature is a type's own and hands nothing on.
      match target.signature.filter (·.declaration.isSome) with
      | none => return [first]
      | some signature =>
        return first :: (← dataflowEdges settings site.owner vertex 0
          (signature.parameters.zip (callArguments site.node)))

/-- Adds the edges of a call or construction. -/
def addSite (settings : Settings) (s : Source) (idAt : Table Nat String) (edges : List Edge)
    (site : Site) : Inquiry (List Edge) := do
  return (← siteEdges settings s idAt site).foldl addEdge edges

/-- The graph of a file. -/
def ofSource (settings : Settings) (s : Source) : Inquiry Graph := do
  let b ← bindingOf s.root
  let draft ← vertices s b
  let inside := bodyOwner b (← store) draft.idAt
  let sites := sitesIn inside s [] (fileVertex s).id s.tree
  let edges ← sites.foldlM (addSite settings s draft.idAt) []
  return { draft.graph with edges }

end ScriptGraph.Graph
