import ScriptGraph.Inference.Answers
import ScriptGraph.Sites.Location

/-!
# What calls and constructions refer to

The readable name of what is called or constructed, and the declaration that a call or
construction binds to: that of the signature it binds to, or else the best one of the symbol that
it names.
-/

namespace ScriptGraph.Sites

open Binding Syntax Inference

mutual

/-- The expression inside all parentheses around a tree. -/
def unwrapFrom (source : Source) (trail : List Crumb) : Tree → Node
  | .node l r s e cs =>
    let whole : Node := ⟨source, .node l r s e cs, trail⟩
    if l = .construct .parenthesizedExpression then unwrapAmong whole trail 0 cs else whole

/-- The expression inside all parentheses around the first construct among the children of a
node; the node itself if there is none. -/
def unwrapAmong (whole : Node) (trail : List Crumb) (index : Nat) : List Tree → Node
  | [] => whole
  | t :: ts =>
    if t.isNamed && !t.isComment then unwrapFrom whole.source (⟨whole.tree, index⟩ :: trail) t
    else unwrapAmong whole trail (index + 1) ts

end

/-- The expression inside all parentheses around a node. -/
def unwrapped (n : Node) : Node :=
  unwrapFrom n.source n.trail n.tree

/-- The name of a called member: qualified by the type of the receiver, or by its spelling when
the type has no name. -/
def memberCalleeName (n : Node) : Inquiry String := do
  let method := ((n.child? .property).map Node.text).getD ""
  match n.child? .object with
  | none => return method
  | some receiver =>
    let typeName := (← typeOf receiver).friendlyName
    return (if typeName.isEmpty then receiver.text else typeName) ++ "." ++ method

/-- The readable name of a called expression. -/
def calleeName (called : Node) : Inquiry String :=
  let n := unwrapped called
  match n.kind? with
  | some .memberExpression => memberCalleeName n
  | some .subscriptExpression =>
    return ((n.child? .object).map fun o => o.text ++ "[...]").getD n.text
  | _ => return n.text

/-- The readable name of a constructed expression. -/
def constructedName (n : Node) : Inquiry String := do
  if n.is .memberExpression then
    let typeName := (← typeOf n).friendlyName
    return if typeName.isEmpty then n.text else typeName
  else return n.text

/-- What a call or construction binds to. -/
structure Target where
  declaration : Option DeclarationId
  signature : Option Signature
deriving Inhabited

/-- The target of a site with a signature, whose callee is named by a node. -/
def targetOf (signature : Option Signature) (callee : Option Node) : Inquiry Target := do
  match signature.bind (·.declaration), callee with
  | some d, _ => return ⟨some d, signature⟩
  | none, none => return ⟨none, signature⟩
  -- A callee without a signature may still name something declared.
  | none, some callee =>
    let symbol ← symbolAt callee
    return ⟨← .ofStep (.pickDeclaration symbol), signature⟩

/-- The target of a call. -/
def callTarget (call : Node) : Inquiry Target := do
  targetOf (← resolvedSignature call) (call.child? .callee)

/-- The target of a construction. -/
def constructTarget (construction : Node) : Inquiry Target := do
  targetOf (← resolvedConstructSignature construction) (construction.child? .constructed)

/-- Whether a call passes a template to a tag. -/
def isTagged (call : Node) : Bool :=
  ((call.child? .arguments).map (·.is .templateString)).getD false

end ScriptGraph.Sites
