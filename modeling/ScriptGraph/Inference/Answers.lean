import ScriptGraph.Inference.Expressions

/-!
# Answering questions

`answer` ties the rules together: the rule for a question is given an oracle that answers further
questions the same way. An answer is worked out once and remembered. A question that comes up
while it is being answered itself gets the answer `any`, which is not remembered; so cycles end.
Questions nest at most as deep as `depthBound` says.
-/

namespace ScriptGraph.Inference

open Binding Syntax

/-- Answers a question under a key: from memory, with `any` if it is being answered already, or by
its rule. -/
def guarded (key : Key) (compute : StateM Knowledge Ty) : StateM Knowledge Ty := do
  let known ← get
  match known.answers.find? key with
  | some t => return t
  | none =>
    -- A cycle: the answer given here depends on where the cycle was entered, so it is not kept.
    if known.inProgress.contains key then return .any
    modify fun k => { k with inProgress := key :: k.inProgress }
    let t ← compute
    modify fun k =>
      { k with answers := k.answers.record key t, inProgress := k.inProgress.erase key }
    return t

/-- The result type that a signature has by itself. -/
def ownResult (s : Signature) : Inquiry Ty :=
  match s.result with
  | .given t => return t
  | .declared id => ask (.result id)
  | .written (some n) => typeOfSyntax n
  | .written none => return .intrinsic .void

/-- The result type of a signature with types put for its type parameters. -/
def fullResult (s : Signature) : Inquiry Ty := do
  (← ownResult s).instantiate demand s.mapping

/-- Answers what the result type of a signature is, once for each signature. -/
def remembered (s : Signature) (compute : StateM Knowledge Ty) : StateM Knowledge Ty := do
  match (← get).results.find? s.cell with
  | some t => return t
  | none =>
    let t ← compute
    modify fun k => { k with results := k.results.record s.cell t }
    return t

/-- Answers a question by its rule, given an oracle for further questions. -/
def answerBy (oracle : Oracle) : Oracle
  | .expression n => guarded (.expression n.key) ((expressionType n).perform oracle)
  | .written n => guarded (.written n.key) ((syntaxType n).perform oracle)
  | .declaration id => do
    let d := (← get).workspace.store.declaration id
    -- One construct may declare several names, so the name is part of the key.
    guarded (.declaration d.key d.name) ((declarationType id).perform oracle)
  | .result id => do
    let d := (← get).workspace.store.declaration id
    guarded (.result d.key) ((resultType id).perform oracle)
  | .signature s => remembered s ((fullResult s).perform oracle)
  | .bases symbol => (symbolBases symbol).perform oracle

/-- The answer when nothing can be found out. -/
def Query.unknown : (q : Query) → q.Answer
  | .expression _ => .any
  | .written _ => .any
  | .declaration _ => .any
  | .result _ => .any
  | .signature _ => .any
  | .bases _ => []

/-- Answers questions that nest at most `depth` deep. -/
def answer : Nat → Oracle
  | 0, q => return q.unknown
  | depth + 1, q => answerBy (answer depth) q

/-- A bound on the nesting of questions. -/
def depthBound (w : Workspace) : Nat :=
  16 * (w.size + 1)

/-- The knowledge about a workspace before anything has been asked. -/
def Knowledge.ofWorkspace (workspace : Workspace) : Knowledge :=
  { workspace }

/-- Carries out an inquiry whose questions are answered by the rules. -/
def Inquiry.conduct {α : Type} (inquiry : Inquiry α) : StateM Knowledge α := do
  inquiry.perform (answer (depthBound (← get).workspace))

/-- An action that may ask questions and work on the knowledge itself. -/
abbrev Infer := ReaderT Oracle (StateM Knowledge)

instance : MonadLift Inquiry Infer where
  monadLift inquiry := fun oracle => inquiry.perform oracle

/-- Runs an action whose questions are answered by the rules. -/
def run {α : Type} (action : Infer α) : StateM Knowledge α := do
  action.run (answer (depthBound (← get).workspace))

end ScriptGraph.Inference
