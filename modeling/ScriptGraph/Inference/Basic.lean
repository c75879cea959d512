import ScriptGraph.Inference.Inquiry

/-!
# Elementary inquiries

The inquiries that the rules of inference are made of: the questions themselves, looks at
declarations and symbols, and the types that refer to them.
-/

namespace ScriptGraph.Inference

open Binding Syntax

/-- Asks a question. -/
def ask (q : Query) : Inquiry q.Answer :=
  .ofStep (.ask q)

/-- The type of an expression. -/
def typeOf (n : Node) : Inquiry Ty :=
  ask (.expression n)

/-- The type that type syntax denotes. -/
def typeOfSyntax (n : Node) : Inquiry Ty :=
  ask (.written n)

/-- The type of what a declaration declares. -/
def typeOfDeclaration (d : DeclarationId) : Inquiry Ty :=
  ask (.declaration d)

/-- The result type of a signature. -/
def resultOf (s : Signature) : Inquiry Ty :=
  ask (.signature s)

/-- What a class or interface extends. -/
def basesOf (symbol : SymbolId) : Inquiry (List Ty) :=
  ask (.bases symbol)

/-- The type of an expression that may be missing. -/
def typeOf? (n : Option Node) : Inquiry Ty :=
  match n with
  | some n => typeOf n
  | none => return .any

/-- The type that type syntax denotes, if there is any. -/
def typeOfSyntax? (n : Option Node) : Inquiry Ty :=
  match n with
  | some n => typeOfSyntax n
  | none => return .any

/-- A number under which nothing is remembered yet. -/
def newCell : Inquiry Nat :=
  .ofStep .newCell

/-- How the results of signatures are found while types are shown or substituted. -/
def demand {m : Type → Type} [MonadLiftT Inquiry m] : Demand m :=
  ⟨fun s => liftM (resultOf s), liftM newCell⟩

/-- The union of a list of types. -/
def unionOf (types : List Ty) : Inquiry Ty :=
  Ty.unionOf demand types

/-- The store. -/
def store : Inquiry Store :=
  .ofStep .store

/-- A new symbol. -/
def newSymbol (symbol : Symbol) : Inquiry SymbolId :=
  .ofStep (.addSymbol symbol)

/-- A declaration. -/
def declarationOf (d : DeclarationId) : Inquiry Declaration := do
  return (← store).declaration d

/-- The binding of the file of a node. -/
def bindingOf (n : Node) : Inquiry FileBinding :=
  .ofStep (.binding n.source)

/-- A symbol as types refer to it. -/
def entityOf (id : SymbolId) : Inquiry Entity := do
  let symbol := (← store).symbol id
  return ⟨id, symbol.name, symbol.typeParameters⟩

/-- A symbol that may be missing, as types refer to it. -/
def entityOf? (id : Option SymbolId) : Inquiry (Option Entity) :=
  match id with
  | some id => return some (← entityOf id)
  | none => return none

/-- The instance type of a symbol. -/
def instanceOf (id : SymbolId) (arguments : List Ty) : Inquiry Ty := do
  return .object (← entityOf id) arguments

/-- The static side of a symbol. -/
def staticOf (id : SymbolId) : Inquiry Ty := do
  return .static (← entityOf id)

/-- The symbol that the ambient library declares under the name of a type. -/
def globalType? (name : String) : Inquiry (Option SymbolId) :=
  .ofStep (.globalSymbol DeclarationKind.isType name)

/-- The array type of an element type. -/
def arrayOf (element : Ty) : Inquiry Ty := do
  return .array element (← entityOf? (← globalType? "Array"))

/-- The type that the ambient library declares under a name; just the name if it does not. -/
def globalObject (name : String) (arguments : List Ty) : Inquiry Ty := do
  match ← globalType? name with
  | some id => instanceOf id arguments
  | none => return .text name

/-- Whether a symbol is a class. -/
def isClass (id : SymbolId) : Inquiry Bool := do
  return (← store).hasKind (· == .class) id

/-- The symbol that a name stands for where it is written. -/
def resolveName (kinds : DeclarationKind → Bool) (n : Node) : Inquiry (Option SymbolId) := do
  let b ← bindingOf n
  let found := (← store).lookup? kinds n.text (b.scopeFor n)
  -- Names of the ambient library stand around those of every file.
  return found.or (← .ofStep (.globalSymbol kinds n.text))

/-- What a symbol ultimately stands for. -/
def resolveAlias (symbol : SymbolId) : Inquiry (Option SymbolId) :=
  .ofStep (.resolveAlias symbol)

/-- The type of the value that a symbol names. -/
def typeOfSymbol (symbol : SymbolId) : Inquiry Ty := do
  match ← resolveAlias symbol with
  | none => return .any
  | some target =>
    let st ← store
    match st.firstOf DeclarationKind.isValue target with
    | some d => typeOfDeclaration d
    -- A namespace object has no declaration but statics.
    | none => if (st.symbol target).statics.isEmpty then return .any else staticOf target

/-- The first construct inside a node. -/
def firstConstruct (n : Node) : Option Node :=
  n.constructs.head?

end ScriptGraph.Inference
