import ScriptGraph.Memo
import ScriptGraph.Types.Substitution
import ScriptGraph.Workspace.Alias

/-!
# Inquiries

Inference answers questions about expressions, type syntax, declarations and symbols. What has
been found so far is the `Knowledge`. The rule for a question is an `Inquiry`: a course of
elementary steps, which may ask other questions without knowing how they are answered.
`Inquiry.perform` carries out an inquiry on the knowledge, given an oracle for its questions.
-/

namespace ScriptGraph.Inference

open Binding Syntax

/-- What an answer is remembered under. -/
inductive Key
  | expression (node : NodeKey)
  | written (node : NodeKey)
  | declaration (node : NodeKey) (name : String)
  | result (node : NodeKey)
deriving DecidableEq, Repr

/-- What is known: the workspace, the answers given, and the questions whose answers are being
worked out. -/
structure Knowledge where
  workspace : Workspace
  answers : Memo Key Ty := {}
  signatures : Memo NodeKey Signature := {}
  bases : Memo SymbolId (List Ty) := {}
  results : Memo Nat Ty := {}
  inProgress : List Key := []
  cells : Nat := 0
deriving Inhabited

/-- A question: the type of an expression or other construct, the type that type syntax denotes,
the type of what a declaration declares, the result type of a callable declaration, the result
type of a signature, or what a class or interface extends. -/
inductive Query
  | expression (node : Node)
  | written (node : Node)
  | declaration (id : DeclarationId)
  | result (id : DeclarationId)
  | signature (of : Signature)
  | bases (symbol : SymbolId)

/-- The type of the answers to a question. -/
abbrev Query.Answer : Query → Type
  | .expression _ => Ty
  | .written _ => Ty
  | .declaration _ => Ty
  | .result _ => Ty
  | .signature _ => Ty
  | .bases _ => List Ty

/-- Something that answers questions. -/
abbrev Oracle := (q : Query) → StateM Knowledge q.Answer

/-- An elementary step: a question, a look at the workspace or at what is remembered, or one of
the changes that inference makes to them. -/
inductive Step
  | ask (q : Query)
  | store
  | globalSymbol (kinds : DeclarationKind → Bool) (name : String)
  | binding (s : Source)
  | resolveAlias (symbol : SymbolId)
  | pickDeclaration (symbol : Option SymbolId)
  | addSymbol (symbol : Symbol)
  | addDeclaration (d : Declaration)
  | addToMember (member : SymbolId) (d : DeclarationId)
  | knownSignature (key : NodeKey)
  | recordSignature (key : NodeKey) (s : Signature)
  | knownBases (symbol : SymbolId)
  | recordBases (symbol : SymbolId) (bases : List Ty)
  | newCell

/-- The type of what a step finds out. -/
abbrev Step.Answer : Step → Type
  | .ask q => q.Answer
  | .store => Store
  | .globalSymbol _ _ => Option SymbolId
  | .binding _ => FileBinding
  | .resolveAlias _ => Option SymbolId
  | .pickDeclaration _ => Option DeclarationId
  | .addSymbol _ => SymbolId
  | .addDeclaration _ => DeclarationId
  | .addToMember _ _ => Unit
  | .knownSignature _ => Option Signature
  | .recordSignature _ _ => Unit
  | .knownBases _ => Option (List Ty)
  | .recordBases _ _ => Unit
  | .newCell => Nat

/-- A course of steps in which each step may depend on what the earlier ones found out. -/
inductive Inquiry (α : Type) : Type
  | done (result : α)
  | step (s : Step) (next : s.Answer → Inquiry α)

namespace Inquiry

/-- An inquiry followed by one that depends on its result. -/
def andThen {α β : Type} : Inquiry α → (α → Inquiry β) → Inquiry β
  | done a, f => f a
  | step s next, f => step s fun x => (next x).andThen f

instance : Monad Inquiry where
  pure := done
  bind := andThen

/-- Being done afterwards changes nothing. -/
theorem andThen_done {α : Type} (x : Inquiry α) : x.andThen done = x := by
  induction x with
  | done a => rfl
  | step s next ih => exact congrArg (step s) (funext ih)

/-- Parts of an inquiry may be grouped in any way. -/
theorem andThen_assoc {α β γ : Type} (x : Inquiry α) (f : α → Inquiry β) (g : β → Inquiry γ) :
    (x.andThen f).andThen g = x.andThen fun a => (f a).andThen g := by
  induction x with
  | done a => rfl
  | step s next ih => exact congrArg (step s) (funext ih)

instance : LawfulMonad Inquiry :=
  LawfulMonad.mk' Inquiry andThen_done (fun _ _ => rfl) andThen_assoc

/-- The inquiry of one step. -/
def ofStep (s : Step) : Inquiry s.Answer :=
  step s done

end Inquiry

/-- Runs an action on the workspace of the knowledge. -/
def onWorkspace {α : Type} (action : StateM Workspace α) : StateM Knowledge α :=
  modifyGet fun k =>
    let (a, workspace) := action.run k.workspace
    (a, { k with workspace })

/-- Changes the store of the knowledge. -/
def onStore {α : Type} (f : Store → α × Store) : StateM Knowledge α :=
  onWorkspace (modifyGet fun w =>
    let (a, store) := f w.store
    (a, { w with store }))

/-- Makes a declaration one of a member's. The declaration is attached to the member unless it
belongs to another symbol. -/
def addedToMember (member : SymbolId) (d : DeclarationId) (st : Store) : Store :=
  match (st.declaration d).symbol with
  | none => st.attach member d
  -- A method of an object may be reached from its own symbol and from the member.
  | some _ => st.modifySymbol member fun s => { s with declarations := s.declarations ++ [d] }

/-- Carries out a step. -/
def Step.perform (oracle : Oracle) : (s : Step) → StateM Knowledge s.Answer
  | .ask q => oracle q
  | .store => do return (← get).workspace.store
  | .globalSymbol kinds name => do return (← get).workspace.globalSymbol? kinds name
  | .binding s => onWorkspace (Workspace.bindingFor s)
  | .resolveAlias symbol => onWorkspace (Workspace.resolveAlias symbol)
  | .pickDeclaration symbol => onWorkspace (Workspace.pickDeclaration symbol)
  | .addSymbol symbol => onStore (·.addSymbol symbol)
  | .addDeclaration d => onStore (·.addDeclaration d)
  | .addToMember member d => onStore fun st => ((), addedToMember member d st)
  | .knownSignature key => do return (← get).signatures.find? key
  | .recordSignature key s => modify fun k => { k with signatures := k.signatures.record key s }
  | .knownBases symbol => do return (← get).bases.find? symbol
  | .recordBases symbol bases => modify fun k => { k with bases := k.bases.record symbol bases }
  | .newCell => modifyGet fun k => (k.cells + 1, { k with cells := k.cells + 1 })

/-- Carries out an inquiry. -/
def Inquiry.perform {α : Type} (oracle : Oracle) : Inquiry α → StateM Knowledge α
  | .done a => return a
  | .step s next => do (next (← s.perform oracle)).perform oracle

end ScriptGraph.Inference
