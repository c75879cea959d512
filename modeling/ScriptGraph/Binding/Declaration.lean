import ScriptGraph.Syntax.Node
import ScriptGraph.Table

/-!
# Declarations and symbols

A declaration is one place that introduces a name. A symbol is a named thing; it gathers all
declarations of one name in one table. Symbols, declarations and scopes refer to each other by
number; `ScriptGraph.Binding.Store` holds what the numbers stand for.
-/

namespace ScriptGraph.Binding

open Syntax

/-- The number of a symbol. -/
structure SymbolId where
  index : Nat
deriving DecidableEq, Hashable, Repr, Inhabited

/-- The number of a declaration. -/
structure DeclarationId where
  index : Nat
deriving DecidableEq, Hashable, Repr, Inhabited

/-- The number of a scope. -/
structure ScopeId where
  index : Nat
deriving DecidableEq, Hashable, Repr, Inhabited

/-- What a declaration declares. -/
inductive DeclarationKind
  | function | functionSignature | functionExpression | method | methodSignature | constructor
  | constructSignature | callSignature | «class» | interface | typeAlias | typeParameter | enum
  | enumMember | variable | parameter | property | propertySignature | importAlias | namespace
  | exportValue
deriving DecidableEq, Repr, Inhabited

namespace DeclarationKind

/-- The name under which results show a kind. -/
def name : DeclarationKind → String
  | function => "function"
  | functionSignature => "function_signature"
  | functionExpression => "function_expression"
  | method => "method"
  | methodSignature => "method_signature"
  | constructor => "constructor"
  | constructSignature => "construct_signature"
  | callSignature => "call_signature"
  | «class» => "class"
  | interface => "interface"
  | typeAlias => "type_alias"
  | typeParameter => "type_parameter"
  | enum => "enum"
  | enumMember => "enum_member"
  | «variable» => "variable"
  | parameter => "parameter"
  | property => "property"
  | propertySignature => "property_signature"
  | importAlias => "import_alias"
  | «namespace» => "namespace"
  | exportValue => "export_value"

/-- Whether a declaration introduces something that expressions can name. -/
def isValue : DeclarationKind → Bool
  | function | functionSignature | functionExpression | «class» | enum | «variable» | parameter
  | importAlias | «namespace» | exportValue | method | methodSignature | property
  | propertySignature | enumMember => true
  | _ => false

/-- Whether a declaration introduces something that types can name. -/
def isType : DeclarationKind → Bool
  | «class» | interface | typeAlias | typeParameter | enum | importAlias | «namespace» => true
  | _ => false

/-- Whether a declaration carries an implementation or the full body of a type. -/
def isImplementation : DeclarationKind → Bool
  | method | function | functionExpression | «class» | interface => true
  | _ => false

/-- Whether a declaration has parameters. -/
def isCallable : DeclarationKind → Bool
  | function | functionSignature | functionExpression | method | methodSignature | constructor
  | constructSignature | callSignature => true
  | _ => false

end DeclarationKind

/-- What a method that stands for a property does. -/
inductive Accessor
  | getter | setter
deriving DecidableEq, Repr, Inhabited

/-- What an import brings in from another module. -/
structure ImportSource where
  specifier : String
  imported : String
deriving DecidableEq, Repr, Inhabited

/-- One place that introduces a name. `node` is the whole construct and `nameNode` the name in
it; `symbol` is what the declaration has been attached to. -/
structure Declaration where
  kind : DeclarationKind
  name : String
  node : Node
  nameNode : Option Node := none
  symbol : Option SymbolId := none
  isStatic : Bool := false
  accessor : Option Accessor := none
  importSource : Option ImportSource := none
deriving Inhabited

namespace Declaration

/-- Whether the declared construct has a body. -/
def hasBody (d : Declaration) : Bool :=
  (d.node.child? .body).isSome

/-- The file of the declaration. -/
def source (d : Declaration) : Source :=
  d.node.source

/-- What identifies the declared construct. -/
def key (d : Declaration) : NodeKey :=
  d.node.key

end Declaration

/-- A named thing with all its declarations. -/
structure Symbol where
  name : String
  parent : Option SymbolId := none
  declarations : List DeclarationId := []
  members : Table String SymbolId := .empty
  statics : Table String SymbolId := .empty
  constructSignatures : List DeclarationId := []
  callSignatures : List DeclarationId := []
  typeParameters : List String := []
deriving Inhabited

/-- How a module exposes a name: as something it declares under a name, as a value of its own,
or as what another module exports. -/
inductive ExportEntry
  | named (name : String)
  | value (symbol : SymbolId)
  | forwarded (specifier imported : String)
deriving DecidableEq, Repr, Inhabited

/-- What opens a scope. -/
inductive ScopeKind
  | module | function | «class» | block
deriving DecidableEq, Repr, Inhabited

/-- The name under which results show a kind of scope. -/
def ScopeKind.name : ScopeKind → String
  | module => "module"
  | function => "function"
  | «class» => "class"
  | block => "block"

/-- Where a scope keeps its symbols: in a table of its own, or among the statics of the namespace
that it is a block of. -/
inductive ScopeTable
  | own (symbols : Table String SymbolId)
  | staticsOf (symbol : SymbolId)
deriving Inhabited

/-- A region of a file in which names are declared. -/
structure Scope where
  kind : ScopeKind
  node : Node
  parent : Option ScopeId
  table : ScopeTable := .own .empty
  exports : Table String ExportEntry := .empty
  starExports : List String := []
  exportsAll : Bool := false
deriving Inhabited

end ScriptGraph.Binding
