import ScriptGraph.Binding.Basic

/-!
# Members

The declarations inside the bodies of classes, object types, interfaces and enumerations. A
constructor and a bare signature belong to their owner itself and not to a member of it.
-/

namespace ScriptGraph.Binding

open Syntax

/-- The modifiers that make a constructor's parameter a property. -/
def isPropertyModifier (label : Label) : Bool :=
  label == .construct .accessibilityModifier || label == .construct .overrideModifier ||
    label == .token "readonly"

/-- What the tokens before a method's name make of it. -/
def accessorOf (member : Node) : Option Accessor :=
  if member.hasToken "get" then some .getter
  else if member.hasToken "set" then some .setter
  else none

namespace Bind

/-- Declares the properties that a constructor's parameters stand for. -/
def declareParameterProperties (owner : SymbolId) (ctor : Node) : Bind Unit :=
  (ctor.constructsIn .parameters).forM fun param =>
    if isParameter param && param.children.any fun c => isPropertyModifier c.label then
      match param.child? .pattern with
      | some pattern =>
        -- A pattern cannot declare a property.
        if pattern.is .identifier then
          declareMember owner
            { kind := .property, name := pattern.text, node := param, nameNode := some pattern }
        else pure ()
      | none => pure ()
    else pure ()

/-- Declares a method, an accessor or a constructor of a class. -/
def declareMethod (owner : SymbolId) (member : Node) : Bind Unit := do
  let nameNode := member.child? .name
  let name := memberName nameNode
  if name.isEmpty then return
  let isStatic := member.hasToken "static"
  -- A static method of this name is a method like any other.
  if name == "constructor" && !isStatic then
    addConstructSignature owner { kind := .constructor, name, node := member, nameNode }
    declareParameterProperties owner member
  else
    declareMember owner
      { kind := if member.is .methodDefinition then .method else .methodSignature
        name, node := member, nameNode, isStatic, accessor := accessorOf member }

/-- Declares a field of a class. -/
def declareField (owner : SymbolId) (member : Node) : Bind Unit := do
  let nameNode := (member.child? .name).or (member.child? .property)
  let name := memberName nameNode
  if name.isEmpty then return
  declareMember owner
    { kind := .property, name, node := member, nameNode, isStatic := member.hasToken "static" }

/-- Declares a member of a class. -/
def declareClassMember (owner : SymbolId) (member : Node) : Bind Unit :=
  if member.isOneOf [.methodDefinition, .methodSignature, .abstractMethodSignature] then
    declareMethod owner member
  else if isField member then declareField owner member
  else pure ()

/-- Declares a member of an object type; `scope` is the scope of the type's own parameters. -/
def declareTypeMember (owner : SymbolId) (scope : ScopeId) (member : Node) : Bind Unit := do
  let nameNode := member.child? .name
  -- Type parameters of a member are known in its own signature only.
  let ownParameters : Bind Unit := do
    if (member.child? .typeParameters).isSome then
      let inner ← openScope .function member scope
      declareTypeParameters member inner none
  match member.kind? with
  | some .propertySignature => do
    declareMember owner
      { kind := .propertySignature, name := memberName nameNode, node := member, nameNode }
    ownParameters
  | some .methodSignature => do
    declareMember owner
      { kind := .methodSignature, name := memberName nameNode, node := member, nameNode }
    ownParameters
  | some .constructSignature => do
    addConstructSignature owner { kind := .constructSignature, name := "new", node := member }
    ownParameters
  | some .callSignature => do
    addCallSignature owner { kind := .callSignature, name := "call", node := member }
    ownParameters
  | _ => pure ()

/-- Declares a member of an enumeration. -/
def declareEnumMember (owner : SymbolId) (member : Node) : Bind Unit := do
  let nameNode := if member.is .enumAssignment then member.child? .name else some member
  let name := memberName nameNode
  if name.isEmpty then return
  declareMember owner { kind := .enumMember, name, node := member, nameNode, isStatic := true }

end Bind

end ScriptGraph.Binding
