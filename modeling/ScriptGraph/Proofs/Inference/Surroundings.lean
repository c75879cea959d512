import ScriptGraph.Inference.Answers
import ScriptGraph.Proofs.Inference.Growth
import ScriptGraph.Proofs.Workspace.Surroundings

/-!
# What inquiries make of the surroundings

Inquiries look at their surroundings through lookups in the workspace only, so they find the same
from the same knowledge in workspaces that are alike. Inquiries that take the same steps and make
different things of what they find are `Parallel`; what they find is related in the same way.

- `Knowledge.Alike`: the same knowledge in workspaces that are alike
- `answer_blind`: questions have the same answers
- `Inquiry.Parallel`: two inquiries that take the same steps
- `Inquiry.Parallel.conduct`: what two such inquiries find
-/

namespace ScriptGraph.Inference

open Binding Syntax

variable {α β γ δ : Type} {oracle : Oracle}

/-- The same knowledge in workspaces that lookups cannot tell apart. -/
structure Knowledge.Alike (k l : Knowledge) : Prop where
  workspace : k.workspace.Alike l.workspace
  rest_eq : k = { l with workspace := k.workspace }

namespace Knowledge.Alike

variable {k l : Knowledge}

/-- A look-up in the workspace. -/
theorem onWorkspace_blind {action : StateM Workspace α} (h : Blind Workspace.Alike action) :
    Blind Alike (onWorkspace action) := by
  rintro k l ⟨hworkspace, hrest⟩
  obtain ⟨hfound, halike⟩ := h k.workspace l.workspace hworkspace
  refine ⟨hfound, halike, ?_⟩
  show { k with workspace := (action.run k.workspace).2 } = _
  rw [hrest]
  rfl

/-- Knowledge stays alike under changes that leave the workspace alone. -/
theorem modify_blind (f : Knowledge → Knowledge)
    (hf : ∀ (k : Knowledge) (w : Workspace), f { k with workspace := w } =
      { f k with workspace := w })
    (hworkspace : ∀ k, (f k).workspace = k.workspace) : Blind Alike (modify f) := by
  refine .modify fun k l h => ⟨?_, ?_⟩
  · rw [hworkspace, hworkspace]
    exact h.workspace
  · rw [hworkspace]
    exact (congrArg f h.rest_eq).trans (hf l k.workspace)

/-- A look at the knowledge apart from the surroundings. -/
theorem look_blind {f : Knowledge → StateM Knowledge α}
    (hf : ∀ k : Knowledge, Workspace.Inward fun w => f { k with workspace := w })
    (h : ∀ k, Blind Alike (f k)) :
    Blind Alike (MonadState.get >>= f) := by
  refine .get fun k l hkl => ?_
  have hsame : f k = f l := by
    rw [hkl.rest_eq]
    exact (hf l).eq hkl.workspace
  exact hsame ▸ h l

end Knowledge.Alike

open Knowledge.Alike

/-! ## Steps and inquiries -/

/-- Whatever the oracle is asked, it does not tell alike knowledge apart. -/
def Oracle.BlindToSurroundings (oracle : Oracle) : Prop :=
  ∀ q, Blind Knowledge.Alike (oracle q)

/-- A change of the store does not look at surroundings. -/
theorem onStore_blind (f : Store → α × Store) : Blind Knowledge.Alike (onStore f) :=
  onWorkspace_blind fun _ _ h => ⟨congrArg (fun st => (f st).1) h.store_eq,
    { h with store_eq := congrArg (fun st => (f st).2) h.store_eq }⟩

/-- A step does not tell alike knowledge apart, as long as the oracle does not. -/
theorem Step.perform_blind (horacle : oracle.BlindToSurroundings) (s : Step) :
    Blind Knowledge.Alike (s.perform oracle) := by
  cases s with
  -- A look-up sees what is alike, and a change makes the same change on both sides.
  | ask q => exact horacle q
  | store => exact look_blind (fun _ _ _ _ _ => rfl) fun _ => .pure _
  | globalSymbol kinds name => exact look_blind (fun _ _ _ _ _ => rfl) fun _ => .pure _
  | binding s => exact onWorkspace_blind (Workspace.bindingFor_blind s)
  | resolveAlias symbol => exact onWorkspace_blind (Workspace.resolveAliasFrom_blind _ symbol)
  | pickDeclaration symbol => exact onWorkspace_blind (Workspace.pickDeclaration_blind symbol)
  | addSymbol symbol => exact onStore_blind _
  | addDeclaration d => exact onStore_blind _
  | addToMember member d => exact onStore_blind _
  | knownSignature key => exact look_blind (fun _ _ _ _ _ => rfl) fun _ => .pure _
  | recordSignature key s => exact modify_blind _ (fun _ _ => rfl) fun _ => rfl
  | knownBases symbol => exact look_blind (fun _ _ _ _ _ => rfl) fun _ => .pure _
  | recordBases symbol bases => exact modify_blind _ (fun _ _ => rfl) fun _ => rfl
  | newCell =>
    intro k l h
    have hcells : k.cells = l.cells := by rw [h.rest_eq]
    refine ⟨congrArg (· + 1) hcells, h.workspace, ?_⟩
    show { k with cells := k.cells + 1 } = _
    rw [h.rest_eq]
    rfl

/-- Two inquiries take the same steps, and then find results that `S` relates. -/
inductive Inquiry.Parallel (S : α → β → Prop) : Inquiry α → Inquiry β → Prop
  | done {a : α} {b : β} (h : S a b) : Parallel S (.done a) (.done b)
  | step (s : Step) {f : s.Answer → Inquiry α} {g : s.Answer → Inquiry β}
      (h : ∀ x, Parallel S (f x) (g x)) : Parallel S (.step s f) (.step s g)

namespace Inquiry.Parallel

variable {S : α → β → Prop} {T : γ → δ → Prop} {x : Inquiry α} {y : Inquiry β}

/-- Results that are related are found in parallel. -/
theorem pure {a : α} {b : β} (h : S a b) : Parallel S (Pure.pure a) (Pure.pure b) :=
  .done h

/-- An inquiry runs in parallel with itself. -/
theorem refl (x : Inquiry α) : Parallel Eq x x := by
  induction x with
  | done a => exact .done rfl
  | step s next ih => exact .step s ih

/-- Equal inquiries run in parallel. -/
theorem of_eq {x y : Inquiry α} (h : x = y) : Parallel Eq x y :=
  h ▸ refl x

/-- Inquiries in two parts run in parallel if their parts do. -/
theorem bind {f : α → Inquiry γ} {g : β → Inquiry δ} (hx : Parallel S x y)
    (hf : ∀ a b, S a b → Parallel T (f a) (g b)) : Parallel T (x >>= f) (y >>= g) := by
  induction hx with
  | done h => exact hf _ _ h
  | step s _ ih => exact .step s ih

/-- The same inquiry first. -/
theorem bind_refl {z : Inquiry γ} {f : γ → Inquiry α} {g : γ → Inquiry β}
    (h : ∀ c, Parallel S (f c) (g c)) : Parallel S (z >>= f) (z >>= g) :=
  (refl z).bind fun c _ he => he ▸ h c

/-- Folds run in parallel if their steps do. -/
theorem foldlM {l : List γ} {f : α → γ → Inquiry α} {g : β → γ → Inquiry β}
    (h : ∀ a b, S a b → ∀ c ∈ l, Parallel S (f a c) (g b c)) {a : α} {b : β} (hab : S a b) :
    Parallel S (l.foldlM f a) (l.foldlM g b) := by
  induction l generalizing a b with
  | nil => exact .pure hab
  | cons c rest ih =>
    rw [List.foldlM_cons, List.foldlM_cons]
    exact (h a b hab c List.mem_cons_self).bind fun a' b' hab' =>
      ih (fun a b hab d hd => h a b hab d (List.mem_cons_of_mem _ hd)) hab'

/-- From alike knowledge both go to alike knowledge and find related results. -/
theorem perform (h : Parallel S x y) (horacle : oracle.BlindToSurroundings) :
    Matches Knowledge.Alike S (x.perform oracle) (y.perform oracle) := by
  induction h with
  | done h => exact .pure h
  | step s _ ih => exact (Step.perform_blind horacle s).bind_eq ih

end Inquiry.Parallel

/-! ## Answers -/

/-- The guard is as blind as what it guards. -/
theorem guarded_blind {key : Key} {compute : StateM Knowledge Ty}
    (h : Blind Knowledge.Alike compute) :
    Blind Knowledge.Alike (guarded key compute) := by
  refine look_blind (fun _ _ _ _ _ => rfl) fun known => ?_
  split
  · exact .pure _
  · split
    · exact .pure _
    · refine .bind (modify_blind _ (fun _ _ => rfl) fun _ => rfl) fun _ => .bind h fun t => ?_
      exact .bind (modify_blind _ (fun _ _ => rfl) fun _ => rfl) fun _ => .pure _

/-- Remembering is as blind as what is remembered. -/
theorem remembered_blind {s : Signature} {compute : StateM Knowledge Ty}
    (h : Blind Knowledge.Alike compute) : Blind Knowledge.Alike (remembered s compute) := by
  refine look_blind (fun _ _ _ _ _ => rfl) fun known => ?_
  split
  · exact .pure _
  · exact .bind h fun t => .bind (modify_blind _ (fun _ _ => rfl) fun _ => rfl) fun _ => .pure _

/-- Answering by the rules is as blind as the oracle. -/
theorem answerBy_blind (h : oracle.BlindToSurroundings) :
    (answerBy oracle).BlindToSurroundings := by
  have hperform : ∀ {α : Type} (x : Inquiry α), Blind Knowledge.Alike (x.perform oracle) :=
    fun x => (Inquiry.Parallel.refl x).perform h
  intro q
  cases q with
  | expression n => exact guarded_blind (hperform _)
  | written n => exact guarded_blind (hperform _)
  | declaration id => exact look_blind (fun _ _ _ _ _ => rfl) fun _ => guarded_blind (hperform _)
  | result id => exact look_blind (fun _ _ _ _ _ => rfl) fun _ => guarded_blind (hperform _)
  | signature s => exact remembered_blind (hperform _)
  | bases symbol => exact hperform _

/-- Questions have the same answers in workspaces that are alike. -/
theorem answer_blind (depth : Nat) : (answer depth).BlindToSurroundings := by
  induction depth with
  | zero => exact fun q => .pure q.unknown
  | succ depth ih => exact answerBy_blind ih

/-- Parallel inquiries are carried out side by side. -/
theorem Inquiry.Parallel.conduct {S : α → β → Prop} {x : Inquiry α} {y : Inquiry β}
    (h : Parallel S x y) :
    Matches Knowledge.Alike S x.conduct y.conduct := by
  refine .get fun k l hkl => ?_
  have hdepth : depthBound k.workspace = depthBound l.workspace :=
    congrArg (fun size => 16 * (size + 1)) hkl.workspace.size_eq
  rw [hdepth]
  exact h.perform (answer_blind _)

end ScriptGraph.Inference
