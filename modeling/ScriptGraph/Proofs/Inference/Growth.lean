import ScriptGraph.Inference.Answers
import ScriptGraph.Proofs.Workspace.Growth

/-!
# Inquiries keep what is known

Inference adds symbols and declarations of its own and attaches declarations to symbols, but the
constructs of declarations, the scopes, the bindings of files and the modules that have been
resolved stay what they are. A step that keeps this is all that has to be looked at: inquiries are
made of steps, and answers of inquiries.

- `Workspace.RetainedBy`: what inference keeps
- `Inquiry.perform_grown`: an inquiry keeps it when its questions do
- `answer_grows`: the answers of the rules keep it
- `Finds`: what an inquiry finds out, from what is known at its start
-/

namespace ScriptGraph

open Binding Syntax

namespace Binding

/-- A declaration apart from the symbol that it is attached to. -/
def Declaration.detached (d : Declaration) : Declaration :=
  { d with symbol := none }

/-- Detached alike, two declarations are of one construct. -/
theorem Declaration.node_eq_of_detached_eq {a b : Declaration} (h : a.detached = b.detached) :
    a.node = b.node :=
  have hnode := congrArg Declaration.node h
  hnode

end Binding

namespace Workspace

/-- What a workspace knows about files, scopes, modules and declarations is known in another one,
except for what declarations are attached to. -/
structure RetainedBy (old new : Workspace) : Prop where
  root_eq : new.root = old.root
  library_eq : new.library = old.library
  noSmaller : old.store.NoSmaller new.store
  declaration_eq : ∀ id, id.index < old.store.declarations.size →
    (new.store.declaration id).detached = (old.store.declaration id).detached
  scope_eq : ∀ id : ScopeId, id.index < old.store.scopes.size →
    new.store.scope id = old.store.scope id
  bindings : ∀ name b, old.bindings.find? name = some b → new.bindings.find? name = some b
  modules : ∀ key module, old.modules.find? key = some module →
    new.modules.find? key = some module

/-- A workspace that extends another one retains it. -/
theorem Extends.retainedBy {old new : Workspace} (h : old.Extends new) : old.RetainedBy new where
  root_eq := h.root_eq
  library_eq := h.library_eq
  noSmaller := h.store.toNoSmaller
  declaration_eq id hid := congrArg Declaration.detached (h.store.declaration_eq id hid)
  scope_eq := h.store.scope_eq
  bindings := h.bindings
  modules := h.modules

/-- Every workspace retains itself. -/
theorem RetainedBy.refl (w : Workspace) : w.RetainedBy w :=
  (Extends.refl w).retainedBy

/-- What is retained twice is retained. -/
theorem RetainedBy.trans {a b c : Workspace} (hab : a.RetainedBy b) (hbc : b.RetainedBy c) :
    a.RetainedBy c where
  root_eq := hbc.root_eq.trans hab.root_eq
  library_eq := hbc.library_eq.trans hab.library_eq
  noSmaller := hab.noSmaller.trans hbc.noSmaller
  declaration_eq id hid :=
    (hbc.declaration_eq id (hab.noSmaller.declaration_lt hid)).trans
      (hab.declaration_eq id hid)
  scope_eq id hid := (hbc.scope_eq id (hab.noSmaller.scope_lt hid)).trans
    (hab.scope_eq id hid)
  bindings name b h := hbc.bindings name b (hab.bindings name b h)
  modules key module h := hbc.modules key module (hab.modules key module h)

end Workspace

namespace Inference

/-- A coherent workspace retains what `base` knows. -/
structure Knowledge.Grown (base : Workspace) (k : Knowledge) : Prop where
  retained : base.RetainedBy k.workspace
  coherent : k.workspace.Coherent

/-- Whatever the oracle is asked, it keeps what is known. -/
def Oracle.Grows (oracle : Oracle) : Prop :=
  ∀ base q, Ensures (Knowledge.Grown base) (oracle q) fun _ => Knowledge.Grown base

variable {base : Workspace}

/-- Work that lets the workspace grow lets the knowledge grow. -/
theorem onWorkspace_grown {α : Type} {action : StateM Workspace α} {Q : α → Workspace → Prop}
    (h : ∀ base, Ensures (Workspace.Grown base) action fun a w => Workspace.Grown base w ∧ Q a w) :
    Ensures (Knowledge.Grown base) (onWorkspace action)
      fun a k => Knowledge.Grown base k ∧ Q a k.workspace := by
  intro k hk
  obtain ⟨hw, hq⟩ := h k.workspace k.workspace (.refl hk.coherent)
  exact ⟨⟨hk.retained.trans hw.extends_base.retainedBy, hw.coherent⟩, hq⟩

/-- The same, if the result does not matter. -/
theorem onWorkspace_keeps {α : Type} {action : StateM Workspace α}
    (h : ∀ base, Ensures (Workspace.Grown base) action fun _ => Workspace.Grown base) :
    Ensures (Knowledge.Grown base) (onWorkspace action) fun _ => Knowledge.Grown base :=
  .weaken (onWorkspace_grown (Q := fun _ _ => True) fun base w hw => ⟨h base w hw, trivial⟩)
    fun _ _ hk => hk.1

/-- A change of the store that keeps the scopes, the statics of namespaces and the declarations. -/
theorem Knowledge.Grown.changeStore {k : Knowledge} (h : Knowledge.Grown base k) {next : Store}
    (hle : k.workspace.store.NoSmaller next) (hscopes : next.scopes = k.workspace.store.scopes)
    (hstatics : ∀ id : SymbolId, id.index < k.workspace.store.symbols.size →
      (next.symbol id).statics = (k.workspace.store.symbol id).statics)
    (hdeclaration : ∀ id, id.index < k.workspace.store.declarations.size →
      (next.declaration id).detached = (k.workspace.store.declaration id).detached) :
    Knowledge.Grown base { k with workspace := { k.workspace with store := next } } where
  retained := h.retained.trans
    { Workspace.RetainedBy.refl k.workspace with
      noSmaller := hle
      declaration_eq := hdeclaration
      scope_eq := fun id _ => by rw [Store.scope, hscopes]; rfl }
  -- The declarations may be attached, but their nodes are the same.
  coherent := h.coherent.changeStore hle hscopes (fun _ owner _ => hstatics owner)
    fun id hid => Declaration.node_eq_of_detached_eq (hdeclaration id hid)

/-- Attaching a declaration to a member lets the knowledge grow. -/
theorem addedToMember_grown {k : Knowledge} (h : Knowledge.Grown base k) (member : SymbolId)
    (d : DeclarationId) :
    Knowledge.Grown base { k with workspace :=
      { k.workspace with store := addedToMember member d k.workspace.store } } := by
  -- More declarations of a symbol leave its statics alone.
  have hmodify : ∀ s : Store, ∀ id : SymbolId, ∀ added : List DeclarationId,
      ((s.modifySymbol member fun o =>
        { o with declarations := o.declarations ++ added }).symbol id).statics =
          (s.symbol id).statics := fun s id added => by
    rw [Store.symbol_modifySymbol]
    split <;> rfl
  unfold addedToMember
  split
  · refine h.changeStore ((Store.noSmaller_modifyDeclaration _ d _).trans
      (Store.noSmaller_modifySymbol _ member _)) rfl (fun id _ => hmodify _ id [d]) fun id _ => ?_
    show ((k.workspace.store.modifyDeclaration d _).declaration id).detached = _
    rw [Store.declaration_modifyDeclaration]
    split <;> rfl
  · exact h.changeStore (Store.noSmaller_modifySymbol _ member _) rfl
      (fun id _ => hmodify _ id [d]) fun _ _ => rfl

/-- A step keeps what is known, as long as the oracle does. -/
theorem Step.perform_grown {oracle : Oracle} (horacle : oracle.Grows) (s : Step) :
    Ensures (Knowledge.Grown base) (s.perform oracle) fun _ => Knowledge.Grown base := by
  -- Only the steps that ask, bind, resolve or add something change the workspace.
  cases s with
  | ask q => exact horacle base q
  | store => exact fun _ hk => hk
  | globalSymbol kinds name => exact fun _ hk => hk
  | binding s =>
    exact .weaken (onWorkspace_grown fun _ => Workspace.bindingFor_grown) fun _ _ hk => hk.1
  | resolveAlias symbol =>
    exact onWorkspace_keeps fun _ => Workspace.resolveAlias_grown symbol
  | pickDeclaration symbol =>
    exact onWorkspace_keeps fun _ => Workspace.pickDeclaration_grown symbol
  | addSymbol symbol =>
    refine fun k hk => hk.changeStore (k.workspace.store.noSmaller_addSymbol symbol) rfl
      (fun id hid => ?_) fun _ _ => rfl
    show ((k.workspace.store.addSymbol symbol).2.symbol id).statics = _
    rw [Store.symbol_addSymbol, if_neg (Nat.ne_of_lt hid)]
  | addDeclaration d =>
    refine fun k hk => hk.changeStore (k.workspace.store.noSmaller_addDeclaration d) rfl
      (fun _ _ => rfl) fun id hid => ?_
    show ((k.workspace.store.addDeclaration d).2.declaration id).detached = _
    rw [Store.declaration_addDeclaration, if_neg (Nat.ne_of_lt hid)]
  | addToMember member d => exact fun k hk => addedToMember_grown hk member d
  | knownSignature key => exact fun _ hk => hk
  -- The memo tables are no part of the workspace.
  | recordSignature key s => exact fun _ hk => ⟨hk.retained, hk.coherent⟩
  | knownBases symbol => exact fun _ hk => hk
  | recordBases symbol bases => exact fun _ hk => ⟨hk.retained, hk.coherent⟩
  | newCell => exact fun _ hk => ⟨hk.retained, hk.coherent⟩

/-- An inquiry keeps what is known, as long as the oracle does. -/
theorem Inquiry.perform_grown {α : Type} {oracle : Oracle} (horacle : oracle.Grows)
    (inquiry : Inquiry α) :
    Ensures (Knowledge.Grown base) (inquiry.perform oracle) fun _ => Knowledge.Grown base := by
  induction inquiry with
  | done a => exact .pure fun _ hk => hk
  | step s next ih => exact .bind (Step.perform_grown horacle s) ih

/-! ## Answers -/

/-- The guard lets the knowledge grow if what it guards does. -/
theorem guarded_grown {key : Key} {compute : StateM Knowledge Ty}
    (h : Ensures (Knowledge.Grown base) compute fun _ => Knowledge.Grown base) :
    Ensures (Knowledge.Grown base) (guarded key compute) fun _ => Knowledge.Grown base := by
  refine .get fun known => .of_imp (P := Knowledge.Grown base) ?_ fun _ hk => hk.1
  split
  · exact .pure fun _ hk => hk
  · split
    · exact .pure fun _ hk => hk
    · refine .bind (.modify fun _ hk => ⟨hk.retained, hk.coherent⟩) fun _ => .bind h fun t => ?_
      exact .bind (.modify fun _ hk => ⟨hk.retained, hk.coherent⟩) fun _ => .pure fun _ hk => hk

/-- Remembering a result lets the knowledge grow. -/
theorem remembered_grown {s : Signature} {compute : StateM Knowledge Ty}
    (h : Ensures (Knowledge.Grown base) compute fun _ => Knowledge.Grown base) :
    Ensures (Knowledge.Grown base) (remembered s compute) fun _ => Knowledge.Grown base := by
  refine .get fun known => .of_imp (P := Knowledge.Grown base) ?_ fun _ hk => hk.1
  split
  · exact .pure fun _ hk => hk
  · exact .bind h fun t => .bind (.modify fun _ hk => ⟨hk.retained, hk.coherent⟩) fun _ =>
      .pure fun _ hk => hk

/-- Answering by the rules lets the knowledge grow. -/
theorem answerBy_grows {oracle : Oracle} (h : oracle.Grows) : (answerBy oracle).Grows := by
  intro base q
  cases q with
  | expression n => exact guarded_grown (Inquiry.perform_grown h _)
  | written n => exact guarded_grown (Inquiry.perform_grown h _)
  | declaration id =>
    exact .get fun _ => .of_imp (guarded_grown (Inquiry.perform_grown h _)) fun _ hk => hk.1
  | result id =>
    exact .get fun _ => .of_imp (guarded_grown (Inquiry.perform_grown h _)) fun _ hk => hk.1
  | signature s => exact remembered_grown (Inquiry.perform_grown h _)
  | bases symbol => exact Inquiry.perform_grown h _

/-- Questions are answered without losing what is known, however deep they nest. -/
theorem answer_grows (depth : Nat) : Oracle.Grows (answer depth) := by
  -- Questions within an answer are answered one level deeper.
  induction depth with
  | zero => exact fun _ _ => .pure fun _ hk => hk
  | succ depth ih => exact answerBy_grows ih

/-! ## What inquiries find out -/

/-- An inquiry in two parts is carried out one part after the other. -/
theorem Inquiry.perform_bind {α β : Type} (oracle : Oracle) (x : Inquiry α) (f : α → Inquiry β) :
    (x >>= f).perform oracle = (do (f (← x.perform oracle)).perform oracle) := by
  induction x with
  | done a => rfl
  | step s next ih =>
    -- Both sides start with the same step and go on alike with what it finds out.
    show (s.perform oracle >>= fun b => (next b >>= f).perform oracle) =
      (s.perform oracle >>= fun b => (next b).perform oracle) >>= fun a => (f a).perform oracle
    rw [bind_assoc]
    exact congrArg _ (funext ih)

/-- An inquiry in two parts runs one after the other. -/
theorem Inquiry.run_bind {α β : Type} (oracle : Oracle) (x : Inquiry α) (f : α → Inquiry β)
    (k : Knowledge) :
    ((x >>= f).perform oracle).run k =
      ((f ((x.perform oracle).run k).1).perform oracle).run ((x.perform oracle).run k).2 := by
  rw [perform_bind]
  rfl

/-- A function of what an inquiry finds does not change what it does. -/
theorem Inquiry.run_map {α β : Type} (oracle : Oracle) (f : α → β) (x : Inquiry α)
    (k : Knowledge) :
    ((f <$> x).perform oracle).run k =
      (f ((x.perform oracle).run k).1, ((x.perform oracle).run k).2) := by
  rw [map_eq_pure_bind, run_bind]
  rfl

/-- Whatever is known and however questions are answered, an inquiry has a result with `φ`. -/
def Inquiry.Yields {α : Type} (x : Inquiry α) (φ : α → Prop) : Prop :=
  ∀ oracle k, φ ((x.perform oracle).run k).1

namespace Inquiry.Yields

variable {α β : Type} {φ : α → Prop}

/-- A result yields what holds of it. -/
theorem pure {a : α} (h : φ a) : Yields (Pure.pure a) φ :=
  fun _ _ => h

/-- Two parts yield what the second one does after the first. -/
theorem bind {x : Inquiry β} {f : β → Inquiry α} {ψ : β → Prop} (hx : Yields x ψ)
    (hf : ∀ b, ψ b → Yields (f b) φ) : Yields (x >>= f) φ := fun oracle k => by
  rw [run_bind]
  exact hf _ (hx oracle k) oracle _

/-- Whatever an inquiry yields is something. -/
theorem something (x : Inquiry α) : Yields x fun _ => True :=
  fun _ _ => trivial

/-- What follows from what is yielded is yielded. -/
theorem imp {x : Inquiry α} {ψ : α → Prop} (hx : Yields x ψ) (h : ∀ a, ψ a → φ a) : Yields x φ :=
  fun oracle k => h _ (hx oracle k)

/-- An inquiry about each item of a list yields a result for each item. -/
theorem mapM {f : β → Inquiry α} {ψ : β → α → Prop} (h : ∀ b, Yields (f b) (ψ b)) (l : List β) :
    Yields (l.mapM f) fun rs => rs.length = l.length ∧ ∀ p ∈ l.zip rs, ψ p.1 p.2 := by
  induction l with
  | nil => exact pure ⟨rfl, nofun⟩
  | cons b rest ih =>
    rw [List.mapM_cons]
    refine bind (h b) fun a ha => bind ih fun rs hrs =>
      pure ⟨congrArg (· + 1) hrs.1, fun p hp => ?_⟩
    rcases List.mem_cons.mp hp with rfl | hp
    · exact ha
    · exact hrs.2 p hp

end Inquiry.Yields

/-- Asking for the binding of a file that has been bound changes nothing. -/
theorem perform_bindingOf {oracle : Oracle} {n : Node} {b : FileBinding} {k : Knowledge}
    (hn : n.source.isBundled = false)
    (hb : k.workspace.bindings.find? n.source.fileName = some b) :
    ((bindingOf n).perform oracle).run k = (b, k) := by
  -- The file is not bundled and has been bound, so it is not bound again.
  have hfound : (Workspace.bindingFor n.source).run k.workspace = (b, k.workspace) := by
    rw [Workspace.bindingFor, StateT.run_bind, StateT.run_get, pure_bind]
    dsimp only
    rw [hn, hb]
    rfl
  show (((Workspace.bindingFor n.source).run k.workspace).1,
    { k with workspace := ((Workspace.bindingFor n.source).run k.workspace).2 }) = (b, k)
  rw [hfound]

/-- From what `base` knows an inquiry finds a result with `φ`, and keeps what is known. -/
def Finds {α : Type} (base : Workspace) (oracle : Oracle) (x : Inquiry α) (φ : α → Prop) : Prop :=
  Ensures (Knowledge.Grown base) (x.perform oracle) fun a k => Knowledge.Grown base k ∧ φ a

namespace Finds

variable {α β : Type} {oracle : Oracle} {φ φ' : α → Prop}

/-- A result is found at once. -/
theorem pure {a : α} (h : φ a) : Finds base oracle (Pure.pure a) φ :=
  fun _ hk => ⟨hk, h⟩

/-- Two parts find what the second one does after the first. -/
theorem bind {x : Inquiry β} {f : β → Inquiry α} {ψ : β → Prop} (hx : Finds base oracle x ψ)
    (hf : ∀ b, ψ b → Finds base oracle (f b) φ) : Finds base oracle (x >>= f) φ := by
  unfold Finds
  rw [Inquiry.perform_bind]
  exact Ensures.bind hx fun b => .of_fact fun hb => hf b hb

/-- What follows from what is found is found. -/
theorem imp {x : Inquiry α} (hx : Finds base oracle x φ) (h : ∀ a, φ a → φ' a) :
    Finds base oracle x φ' :=
  Ensures.weaken hx fun a _ ha => ⟨ha.1, h a ha.2⟩

/-- Every inquiry finds something. -/
theorem something (horacle : oracle.Grows) (x : Inquiry α) :
    Finds base oracle x fun _ => True :=
  Ensures.weaken (Inquiry.perform_grown horacle x) fun _ _ hk => ⟨hk, trivial⟩

/-- An inquiry that goes through a list keeps what each of its turns keeps. -/
theorem foldlM {l : List β} {f : α → β → Inquiry α}
    (h : ∀ a, ∀ b ∈ l, φ a → Finds base oracle (f a b) φ) {a : α} (ha : φ a) :
    Finds base oracle (l.foldlM f a) φ := by
  induction l generalizing a with
  | nil => exact pure ha
  | cons b rest ih =>
    exact bind (h a b List.mem_cons_self ha) fun a' ha' =>
      ih (fun a c hc => h a c (List.mem_cons_of_mem _ hc)) ha'

/-- An inquiry into each item of a list finds what each of its turns finds. -/
theorem mapM {l : List β} {f : β → Inquiry α} (h : ∀ b ∈ l, Finds base oracle (f b) φ) :
    Finds base oracle (l.mapM f) fun found => ∀ a ∈ found, φ a := by
  induction l with
  | nil => exact pure nofun
  | cons b rest ih =>
    rw [List.mapM_cons]
    refine bind (h b List.mem_cons_self) fun a ha =>
      bind (ih fun c hc => h c (List.mem_cons_of_mem _ hc)) fun found hfound => pure ?_
    exact List.forall_mem_cons.mpr ⟨ha, hfound⟩

/-- A declaration that `base` has stays what it is. -/
theorem declarationOf {id : DeclarationId} (hid : id.index < base.store.declarations.size) :
    Finds base oracle (Inference.declarationOf id)
      fun d => d.detached = (base.store.declaration id).detached :=
  fun _ hk => ⟨hk, hk.retained.declaration_eq id hid⟩

/-- The binding of a file that `base` has bound is found again. -/
theorem bindingOf {n : Node} {b : FileBinding} (hn : n.source.isBundled = false)
    (hb : base.bindings.find? n.source.fileName = some b) :
    Finds base oracle (Inference.bindingOf n) (· = b) := fun k hk => by
  rw [perform_bindingOf hn (hk.retained.bindings _ _ hb)]
  exact ⟨hk, rfl⟩

end Finds

end Inference

end ScriptGraph
