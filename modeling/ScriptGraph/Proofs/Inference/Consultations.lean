import ScriptGraph.Proofs.Inference.Requests
import ScriptGraph.Proofs.Inference.Substitution
import ScriptGraph.Proofs.Syntax.Names

/-!
# The checker leaves bindings alone

The checker may be consulted about types, symbols, declarations, signatures and texts, in any
order. Whatever it is asked, the scopes and symbols of the files that have been bound stay what
they are, and so do their declarations, with one exception: the binder leaves the methods of object
literals without a symbol, and the checker attaches them to the symbol that it makes for the
literal. So a name stands for the same symbol before and after, unless it names such a method.

- `Consultation`, `Knowledge.Consults`: what is asked, one after the other
- `Consults.keeps`: what it leaves behind
- `Knowledge.NamesSettled`: names that do not belong to an unattached method
- `bindings_permanent`: what stays of the binding of a file
- `exists_name_reattached`: what does not
-/

namespace ScriptGraph

open Binding Syntax

namespace Workspace

variable {old new w : Workspace}

/-- The binding of a file, if it has been bound. -/
def bound? (w : Workspace) (s : Source) : Option FileBinding :=
  if s.isBundled then some w.library else w.bindings.find? s.fileName

/-- A file that has been bound stays bound. -/
theorem Later.bound? (h : old.Later new) {s : Source} {b : FileBinding}
    (hb : old.bound? s = some b) :
    new.bound? s = some b := by
  unfold Workspace.bound? at hb ⊢
  split
  · rw [if_pos ‹_›] at hb
    rw [h.library_eq, hb]
  · rw [if_neg ‹_›] at hb
    exact h.bindings _ b hb

/-- A file that has been bound is not bound again. -/
theorem run_bindingFor_of_bound {s : Source} {b : FileBinding} (hb : w.bound? s = some b) :
    (bindingFor s).run w = (b, w) := by
  unfold Workspace.bound? at hb
  rw [run_bindingFor]
  split
  · rw [if_pos ‹_›] at hb
    rw [Option.some.inj hb]
  · rw [if_neg ‹_›] at hb
    rw [hb]

/-- What a bound file refers to is there. -/
theorem Coherent.bound_within (h : w.Coherent) {s : Source} {b : FileBinding}
    (hb : w.bound? s = some b) :
    b.Within w.store := by
  unfold Workspace.bound? at hb
  split at hb
  · exact Option.some.inj hb ▸ h.library
  · exact h.bindings _ (Table.mem_entries_of_find? hb)

end Workspace

namespace Inference

variable {files : Source → Prop} {oracle : Oracle} {k later : Knowledge} {n : Node}
    {b : FileBinding}

/-! ## Consulting the checker -/

/-- What the checker is consulted about: requests, the symbol at a name, the best declaration of a
symbol, and the text of a type. -/
inductive Consultation
  | request (r : Request)
  | symbolAt (n : Node)
  | bestDeclaration (symbol : Option SymbolId)
  | text (t : Ty)

namespace Consultation

/-- What is mentioned is in a store. -/
def Within (st : Store) : Consultation → Prop
  | request r => r.Within st
  | symbolAt _ => True
  | bestDeclaration symbol => ∀ id, symbol = some id → id.index < st.symbols.size
  | text t => t.Within anyFile st

/-- The knowledge after consulting the checker. -/
def after (k : Knowledge) : Consultation → Knowledge
  | request r => r.after k
  | symbolAt n => ((Inference.symbolAt n).conduct.run k).2
  | bestDeclaration symbol => ((Inquiry.ofStep (.pickDeclaration symbol)).conduct.run k).2
  | text t => (Inquiry.conduct (t.display demand)).run k |>.2

end Consultation

namespace Knowledge

/-- The knowledge after consulting the checker any number of times. -/
def Consults : Knowledge → Knowledge → Prop :=
  Relation.ReflTransGen fun k next => ∃ c : Consultation, c.Within k.store ∧ next = c.after k

/-- A consultation leaves sound knowledge. -/
theorem Sound.consulted (h : k.Sound anyFile) {c : Consultation} (hc : c.Within k.store) :
    k.Later (c.after k) ∧ (c.after k).Sound anyFile := by
  -- Requests have been dealt with; the other consultations learn like any inquiry.
  cases c with
  | request r => exact h.after hc
  | symbolAt n =>
    have hlearns : ∀ oracle : Oracle, oracle.Learns anyFile →
        Learns anyFile False oracle k (Inference.symbolAt n) Found := fun _ horacle =>
      symbolAt_learns horacle (from_anyFile n) fun _ => declaredSymbol_learns n
    obtain ⟨hlater, hsound, -⟩ := Learns.conduct hlearns h
    exact ⟨hlater, hsound⟩
  | bestDeclaration symbol =>
    have hlearns : ∀ oracle : Oracle, oracle.Learns anyFile →
        Learns anyFile False oracle k (.ofStep (.pickDeclaration symbol)) _ := fun _ _ =>
      pickDeclaration_learns hc
    obtain ⟨hlater, hsound, -⟩ := Learns.conduct hlearns h
    exact ⟨hlater, hsound⟩
  | text t =>
    have hlearns : ∀ oracle : Oracle, oracle.Learns anyFile →
        Learns anyFile False oracle k (t.display demand) fun _ _ => True := fun _ horacle =>
      display_learns horacle hc
    obtain ⟨hlater, hsound, -⟩ := Learns.conduct hlearns h
    exact ⟨hlater, hsound⟩

/-- So does any number of them. -/
theorem Consults.keeps (h : k.Consults later) (hsound : k.Sound anyFile) :
    k.Later later ∧ later.Sound anyFile := by
  induction h with
  | refl => exact ⟨.refl k, hsound⟩
  | tail _ hstep ih =>
    obtain ⟨c, hc, rfl⟩ := hstep
    obtain ⟨hlater, hsound'⟩ := ih.2.consulted hc
    exact ⟨ih.1.trans hlater, hsound'⟩

/-! ## Names in files that have been bound -/

/-- A name that belongs to a declaration belongs to one that is attached to a symbol, or to one
that never will be. -/
def NamesSettled (k : Knowledge) (b : FileBinding) (n : Node) : Prop :=
  ∀ id, b.declarationNamed? n = some id →
    (k.store.declaration id).symbol.isSome ∨
    (k.store.declaration id).node.is .methodDefinition = false

variable (oracle)

/-- The binding of a bound file is known. -/
theorem knows_bindingOf (hb : k.workspace.bound? n.source = some b) :
    k.Knows oracle (bindingOf n) b := by
  intro next hnext
  show (onWorkspace (Workspace.bindingFor n.source)).run next = _
  show (((Workspace.bindingFor n.source).run next.workspace).1,
    { next with workspace := ((Workspace.bindingFor n.source).run next.workspace).2 }) = _
  rw [Workspace.run_bindingFor_of_bound (hnext.workspace.bound? hb)]

/-- The symbol that is declared at a settled name is known. -/
theorem knows_declaredSymbol (hsound : k.Sound files) (hb : k.workspace.bound? n.source = some b)
    (hn : k.NamesSettled b n) :
    k.Knows oracle (declaredSymbol n)
      ((b.declarationNamed? n).bind fun id => (k.store.declaration id).symbol) := by
  intro next hnext
  have hwithin := hsound.workspace.coherent.bound_within hb
  unfold declaredSymbol
  rw [(knows_bindingOf oracle hb).run_bind hnext]
  cases hid : b.declarationNamed? n with
  | none => rfl
  | some id =>
    -- The declaration is attached for good, or it is no method and never changes.
    have hbecame := hnext.workspace.store.declaration_became id
      (hwithin.names _ (Table.mem_entries_of_find? hid))
    have hsame : next.store.declaration id = k.store.declaration id :=
      (hn id hid).elim hbecame.eq_of_isSome hbecame.eq_of_not_method
    exact congrArg (fun d : Declaration => (d.symbol, next)) hsame

/-- What a name stands for in a bound file is known. -/
theorem knows_resolveName (hsound : k.Sound files) (hb : k.workspace.bound? n.source = some b)
    (kinds : DeclarationKind → Bool) :
    k.Knows oracle (resolveName kinds n) ((k.store.lookup? kinds n.text (b.scopeFor n)).or
      (k.workspace.globalSymbol? kinds n.text)) := by
  intro next hnext
  have hscope := scopeFor_lt (hsound.workspace.coherent.bound_within hb) n
  unfold resolveName
  rw [(knows_bindingOf oracle hb).run_bind hnext]
  show ((next.store.lookup? kinds n.text (b.scopeFor n)).or
    (next.workspace.globalSymbol? kinds n.text), next) = _
  rw [hnext.workspace.store.lookup?_eq hsound.workspace.store hscope,
    hnext.workspace.globalSymbol?_eq hsound.workspace]

/-- A name that is no member's stands for the same symbol from now on. -/
theorem knows_symbolAt (hsound : k.Sound files) (hb : k.workspace.bound? n.source = some b)
    (hn : k.NamesSettled b n) (hmember : n.is .memberExpression = false)
    (hproperty : memberExpressionOf n = none) :
    ∃ found, k.Knows oracle (symbolAt n) found := by
  unfold symbolAt
  rw [hmember, hproperty]
  -- The symbol is that of a declaration at the name, or what the name resolves to in its scope.
  by_cases hname : n.isOneOf nameKinds = true
  · rw [hname]
    have hdeclared := knows_declaredSymbol oracle hsound hb hn
    cases hd : (b.declarationNamed? n).bind fun id => (k.store.declaration id).symbol with
    | some symbol =>
      rw [hd] at hdeclared
      exact ⟨some symbol, fun next hnext => hdeclared.run_bind hnext⟩
    | none =>
      rw [hd] at hdeclared
      exact ⟨_, fun next hnext => (hdeclared.run_bind hnext).trans
        (knows_resolveName oracle hsound hb _ next hnext)⟩
  · rw [eq_false_of_ne_true hname]
    exact ⟨none, fun _ _ => rfl⟩

end Knowledge

/-! ## What stays -/

/-- The files that have been bound stay bound as they are, with their scopes and symbols, whatever
the checker is asked. Their declarations do as well, apart from methods that are attached to a
symbol later on. So names stand for the same symbol before and after, unless they belong to such a
method. -/
theorem bindings_permanent (settings : Settings) (disk : Disk) (library root : Source)
    (hk : (Knowledge.start settings disk library root).Consults k) (hlater : k.Consults later) :
    (∀ s b, k.workspace.bound? s = some b → later.workspace.bound? s = some b) ∧
      (∀ id : ScopeId, id.index < k.store.scopes.size → later.store.scope id = k.store.scope id) ∧
      (∀ id : SymbolId, id.index < k.store.symbols.size → later.store.symbol id =
        k.store.symbol id) ∧
      (∀ id : DeclarationId, id.index < k.store.declarations.size →
        (k.store.declaration id).Became (later.store.declaration id)) ∧
      ∀ n b, k.workspace.bound? n.source = some b → k.NamesSettled b n →
        n.is .memberExpression = false →
        memberExpressionOf n = none →
          ((symbolAt n).conduct.run later).1 = ((symbolAt n).conduct.run k).1 := by
  obtain ⟨-, hsound⟩ := hk.keeps (Knowledge.start_sound settings disk library root)
  obtain ⟨hlater, -⟩ := hlater.keeps hsound
  refine ⟨fun s b => hlater.workspace.bound?, hlater.workspace.store.scope_eq,
    hlater.workspace.store.symbol_eq,
    hlater.workspace.store.declaration_became, fun n b hb hn hmember hproperty => ?_⟩
  -- Both consultations start later than `k`, where the answer is known already.
  obtain ⟨oracle, -, hconduct⟩ := exists_oracle anyFile k
  obtain ⟨found, hfound⟩ := Knowledge.knows_symbolAt oracle hsound hb hn hmember hproperty
  rw [hconduct _ later hlater, hconduct _ k (.refl k), hfound later hlater, hfound k (.refl k)]

/-- A variable next to an object with a method of the same name. -/
def methodSource : Source :=
  { fileName := "/a.ts", text := "const m = 1; (\x7b m() \x7b\x7d \x7d)", dialect := .ts
    tree := readProgram .ts "const m = 1; (\x7b m() \x7b\x7d \x7d)" }

/-- The name of the variable stands for the same symbol after the object has been typed. -/
theorem bindings_permanent_at_variable :
    let start := Knowledge.start {} {} default methodSource
    ∃ n ∈ methodSource.root.preorder, ∃ object ∈ methodSource.root.preorder,
      n.is .identifier = true ∧ object.is .object = true ∧
        ((symbolAt n).conduct.run ((Request.ask (.expression object)).after start)).1 =
          ((symbolAt n).conduct.run start).1 := by
  intro start
  let b := (Binding.bind methodSource (Library.ofSource default).store).1
  have hobject : ∃ object ∈ methodSource.root.preorder, object.is .object = true := by
    decide +kernel
  -- The name is no part of a member expression, and its declaration has a symbol already.
  have hname : ∃ n ∈ methodSource.root.preorder, n.is .identifier = true ∧
      n.is .memberExpression = false ∧ (memberExpressionOf n).isNone ∧
        (b.declarationNamed? n).all fun id =>
          (start.store.declaration id).symbol.isSome := by decide +kernel
  obtain ⟨object, hobject, hisobject⟩ := hobject
  obtain ⟨n, hn, hidentifier, hmember, hproperty, hattached⟩ := hname
  have hstep : start.Consults ((Request.ask (.expression object)).after start) :=
    .single ⟨.request (.ask (.expression object)), trivial, rfl⟩
  have hb : start.workspace.bound? n.source = some b := by
    rw [source_of_mem_preorder hn]
    exact (if_neg (by decide)).trans
      (Workspace.bindings_ofSource {} {} (.ofSource default) methodSource)
  -- The declaration at the name has a symbol from the start.
  have hsettled : start.NamesSettled b n := fun id hid =>
    .inl (by simpa only [hid, Option.all_some] using hattached)
  obtain ⟨-, -, -, -, hsame⟩ := bindings_permanent {} {} default methodSource .refl hstep
  exact ⟨n, hn, object, hobject, hidentifier, hisobject,
    hsame n b hb hsettled hmember (Option.isNone_iff_eq_none.mp hproperty)⟩

/-- The name of the method stands for the variable before the object has been typed, and for the
method afterwards. -/
theorem exists_name_reattached :
    let start := Knowledge.start {} {} default methodSource
    ∃ n ∈ methodSource.root.preorder, ∃ object ∈ methodSource.root.preorder,
      n.is .propertyIdentifier = true ∧ object.is .object = true ∧
        ((symbolAt n).conduct.run ((Request.ask (.expression object)).after start)).1 ≠
          ((symbolAt n).conduct.run start).1 := by
  decide +kernel

end Inference

end ScriptGraph
