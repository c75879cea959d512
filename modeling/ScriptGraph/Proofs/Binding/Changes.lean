import ScriptGraph.Proofs.Binding.Steps

/-!
# How a store changes while a file is bound

A file is bound in small changes of the store: a symbol, a declaration or a scope is added, a name
is entered into a table, a signature is listed, a name is exposed. `Store.Change` tells which
changes there are, and every step of binding is made of them. So what each of these changes keeps
is kept by binding a file.

- `Store.Change`: one change
- `Bind.Evolves`: an action that is made of such changes
- `Bind.Step.leads`: one step of binding
- `bind_changes`: binding a file
- `boundUpTo`: what has been bound of a file after some of its statements
-/

namespace ScriptGraph.Binding

open Syntax

namespace Store

/-- One change of a store while a file is bound. -/
inductive Change (s : Store) : Store → Prop
  | symbol (name : String) (parent : Option SymbolId) : Change s (s.addSymbol { name, parent }).2
  | declaration (d : Declaration) : Change s (s.addDeclaration d).2
  | scope (kind : ScopeKind) (node : Node) (parent : Option ScopeId) :
      Change s (s.addScope { kind, node, parent }).2
  | enter (scope : ScopeId) (name : String) (symbol : SymbolId) :
      Change s (s.putSymbol scope name symbol)
  | attach (symbol : SymbolId) (d : DeclarationId) : Change s (s.attach symbol d)
  | member (owner : SymbolId) (name : String) (symbol : SymbolId) :
      Change s (s.modifySymbol owner fun o => { o with members := o.members.put name symbol })
  | static (owner : SymbolId) (name : String) (symbol : SymbolId) :
      Change s (s.modifySymbol owner fun o => { o with statics := o.statics.put name symbol })
  | constructs (owner : SymbolId) (d : DeclarationId) : Change s (s.modifySymbol owner fun o =>
      { o with constructSignatures := o.constructSignatures ++ [d] })
  | calls (owner : SymbolId) (d : DeclarationId) : Change s (s.modifySymbol owner fun o =>
      { o with callSignatures := o.callSignatures ++ [d] })
  | typeParameter (owner : SymbolId) (name : String) : Change s (s.modifySymbol owner fun o =>
      if o.typeParameters.contains name then o
      else { o with typeParameters := o.typeParameters ++ [name] })
  | exposed (module : ScopeId) (name : String) (entry : ExportEntry) :
      Change s (s.modifyScope module fun sc => { sc with exports := sc.exports.put name entry })
  | star (module : ScopeId) (specifier : String) : Change s (s.modifyScope module fun sc =>
      { sc with starExports := sc.starExports ++ [specifier] })
  | ambient (module : ScopeId) :
      Change s (s.modifyScope module fun sc => { sc with exportsAll := true })
  | block (module : ScopeId) (symbol : SymbolId) : Change s (s.modifyScope module fun sc =>
      { sc with table := .staticsOf symbol, exportsAll := true })

/-- A store changes into another one, in any number of changes. -/
abbrev Changes : Store → Store → Prop :=
  Relation.ReflTransGen Change

/-! ## Scopes stay where they are -/

/-- A scope is still there, of the same kind and within the same scope. -/
structure KeepsScope (id : ScopeId) (old new : Store) : Prop where
  index_lt : id.index < new.scopes.size
  kind_eq : (new.scope id).kind = (old.scope id).kind
  parent_eq : (new.scope id).parent = (old.scope id).parent

variable {s next : Store} {id : ScopeId}

/-- A change of what a scope knows keeps where the scope stands. -/
theorem keepsScope_modifyScope (hid : id.index < s.scopes.size) {other : ScopeId}
    {f : Scope → Scope} (hf : ∀ sc, (f sc).kind = sc.kind ∧ (f sc).parent = sc.parent) :
    KeepsScope id s (s.modifyScope other f) := by
  have hsize : (s.modifyScope other f).scopes.size = s.scopes.size := by simp [modifyScope]
  refine ⟨hsize ▸ hid, ?_, ?_⟩
  · rw [scope_modifyScope]
    split
    · exact (hf _).1
    · rfl
  · rw [scope_modifyScope]
    split
    · exact (hf _).2
    · rfl

/-- No change removes a scope or puts it elsewhere. -/
theorem Change.keepsScope (h : s.Change next) (hid : id.index < s.scopes.size) :
    KeepsScope id s next := by
  cases h with
  | scope kind node parent =>
    have hscope : (s.addScope { kind, node, parent }).2.scope id = s.scope id := by
      rw [scope_addScope, if_neg (Nat.ne_of_lt hid)]
    have hsize : (s.addScope { kind, node, parent }).2.scopes.size = s.scopes.size + 1 := by
      simp [addScope]
    exact ⟨by omega, by rw [hscope], by rw [hscope]⟩
  -- The entry may go into a table of the scope itself or of a symbol; only the first is a change of
  -- a scope.
  | enter scope name symbol =>
    unfold putSymbol
    split
    · refine keepsScope_modifyScope hid fun sc => ?_
      split <;> exact ⟨rfl, rfl⟩
    · exact ⟨hid, rfl, rfl⟩
  | exposed => exact keepsScope_modifyScope hid fun _ => ⟨rfl, rfl⟩
  | star => exact keepsScope_modifyScope hid fun _ => ⟨rfl, rfl⟩
  | ambient => exact keepsScope_modifyScope hid fun _ => ⟨rfl, rfl⟩
  | block => exact keepsScope_modifyScope hid fun _ => ⟨rfl, rfl⟩
  | symbol | declaration | attach | member | static | constructs | calls | typeParameter =>
    exact ⟨hid, rfl, rfl⟩

/-- Any number of changes keeps where a scope stands. -/
theorem Changes.keepsScope (h : s.Changes next) (hid : id.index < s.scopes.size) :
    KeepsScope id s next := by
  induction h with
  | refl => exact ⟨hid, rfl, rfl⟩
  | tail _ hlast ih =>
    have hkept := hlast.keepsScope ih.index_lt
    exact ⟨hkept.index_lt, hkept.kind_eq.trans ih.kind_eq, hkept.parent_eq.trans ih.parent_eq⟩

/-- A scope that stands in no other one is the module of itself. -/
theorem moduleScope_of_parent_eq_none (h : (s.scope id).parent = none) : s.moduleScope id = id := by
  rw [moduleScope, h]

end Store

namespace Bind

open Store

variable {α β : Type}

/-- What an action leaves of what has been bound so far: the store has changed by changes of a file
that is bound, and the module of the file is the same. -/
structure Leads (p q : Progress) : Prop where
  store : Store.Changes p.store q.store
  moduleScope_eq : q.binding.moduleScope = p.binding.moduleScope

/-- An action that changes the store by changes of a file that is bound. -/
def Evolves (x : Bind α) : Prop :=
  ∀ p, Leads p (x.run p).2

namespace Evolves

/-- A result changes nothing. -/
theorem pure {a : α} : Evolves (Pure.pure a) :=
  fun _ => ⟨.refl, rfl⟩

/-- Two parts change the store one after the other. -/
theorem bind {x : Bind β} {f : β → Bind α} (hx : Evolves x) (hf : ∀ b, Evolves (f b)) :
    Evolves (x >>= f) := fun p =>
  have hfirst := hx p
  have hrest := hf _ _
  ⟨hfirst.store.trans hrest.store, hrest.moduleScope_eq.trans hfirst.moduleScope_eq⟩

/-- Looking at the progress changes nothing. -/
theorem get {f : Progress → Bind α} (hf : ∀ p, Evolves (f p)) : Evolves (MonadState.get >>= f) :=
  fun p => hf p p

/-- An action that makes one change. -/
theorem modifyStore {f : Store → Store} (h : ∀ s : Store, s.Change (f s)) :
    Evolves (modifyStore f) :=
  fun p => ⟨.single (h p.store), rfl⟩

end Evolves

/-! ## Scopes, declarations and members -/

/-- Opening a scope changes the store step by step, and the module scope not at all. -/
theorem openScope_evolves {kind : ScopeKind} {node : Node} {parent : ScopeId} :
    Evolves (openScope kind node parent) :=
  fun _ => ⟨.single (.scope kind node (some parent)), rfl⟩

/-- Adding a symbol changes the store step by step, and the module scope not at all. -/
theorem addSymbol_evolves {name : String} {parent : Option SymbolId} :
    Evolves (onStore (·.addSymbol { name, parent })) :=
  fun _ => ⟨.single (.symbol name parent), rfl⟩

/-- Recording a declaration changes the store step by step, and the module scope not at all. -/
theorem record_evolves {d : Declaration} : Evolves (record d) :=
  fun _ => ⟨.single (.declaration d), rfl⟩

/-- Entering a symbol in a scope changes the store step by step, and the module scope not at all. -/
theorem enter_evolves {scope : ScopeId} {name : String} {symbol : SymbolId} :
    Evolves (enter scope name symbol) :=
  .modifyStore fun _ => .enter scope name symbol

/-- Attaching a declaration to a symbol changes the store step by step, and the module scope not at
all. -/
theorem attach_evolves {symbol : SymbolId} {d : DeclarationId} :
    Evolves (modifyStore (·.attach symbol d)) :=
  .modifyStore fun _ => .attach symbol d

/-- Attaching a declaration in a scope changes the store step by step, and the module scope not at
all. -/
theorem attachIn_evolves {scope : ScopeId} {name : String} {d : DeclarationId} :
    Evolves (attachIn scope name d) := by
  have hattach : ∀ symbol : SymbolId,
      Evolves (do modifyStore (·.attach symbol d); return symbol) :=
    fun _ => .bind attach_evolves fun _ => .pure
  refine .get fun now => ?_
  split
  · exact hattach _
  · exact .bind addSymbol_evolves fun symbol => .bind enter_evolves fun _ => hattach symbol

/-- Declaring a name in a scope changes the store step by step, and the module scope not at all. -/
theorem declare_evolves {scope : ScopeId} {d : Declaration} : Evolves (declare scope d) :=
  .bind record_evolves fun _ => attachIn_evolves

/-- Declaring a member changes the store step by step, and the module scope not at all. -/
theorem declareMember_evolves {owner : SymbolId} {d : Declaration} :
    Evolves (declareMember owner d) := by
  refine .bind record_evolves fun id => .get fun now => ?_
  dsimp only
  split
  · exact attach_evolves
  · refine .bind addSymbol_evolves fun symbol => .bind (.modifyStore fun s => ?_) fun _ =>
      attach_evolves
    -- The member is put on one of the two sides of its owner.
    cases d.isStatic with
    | true => exact .static owner d.name symbol
    | false => exact .member owner d.name symbol

/-- Adding a construct signature changes the store step by step, and the module scope not at all. -/
theorem addConstructSignature_evolves {owner : SymbolId} {d : Declaration} :
    Evolves (addConstructSignature owner d) :=
  .bind record_evolves fun id => .modifyStore fun _ => .constructs owner id

/-- Adding a call signature changes the store step by step, and the module scope not at all. -/
theorem addCallSignature_evolves {owner : SymbolId} {d : Declaration} :
    Evolves (addCallSignature owner d) :=
  .bind record_evolves fun id => .modifyStore fun _ => .calls owner id

/-- Introducing a symbol that no scope knows changes the store step by step, and the module scope
not at all. -/
theorem introduce_evolves {d : Declaration} : Evolves (introduce d) :=
  .bind addSymbol_evolves fun _ => .bind record_evolves fun _ => .bind attach_evolves fun _ => .pure

/-- A step of binding is made of changes of the store. -/
theorem Step.leads {φ : Node → Prop} {p q : Progress} (h : Step φ p q) : Leads p q := by
  -- A step that does two things evolves as their composition does.
  cases h with
  | scope => exact openScope_evolves p
  | declare => exact declare_evolves p
  | within scope d =>
    have hevolves : Evolves (declareWithin scope d) :=
      .bind record_evolves fun _ => .bind openScope_evolves fun _ =>
        .bind attachIn_evolves fun _ => .pure
    exact hevolves p
  | introduced => exact introduce_evolves p
  | introducedWithin scope d =>
    have hevolves : Evolves (introduceWithin scope d) :=
      .bind introduce_evolves fun _ => .bind openScope_evolves fun _ =>
        .bind enter_evolves fun _ => .pure
    exact hevolves p
  | unattached => exact record_evolves p
  | member => exact declareMember_evolves p
  | constructs => exact addConstructSignature_evolves p
  | calls => exact addCallSignature_evolves p
  | typeParameter owner name => exact ⟨.single (.typeParameter owner name), rfl⟩
  | exposed module name entry => exact ⟨.single (.exposed module name entry), rfl⟩
  | star module specifier => exact ⟨.single (.star module specifier), rfl⟩
  | ambient module => exact ⟨.single (.ambient module), rfl⟩
  | block module symbol => exact ⟨.single (.block module symbol), rfl⟩
  | quoted => exact ⟨.refl, rfl⟩

/-- Steps of binding lead to a later state of the walk. -/
theorem Steps.leads {φ : Node → Prop} {p q : Progress} (h : Steps φ p q) : Leads p q := by
  induction h with
  | refl => exact ⟨.refl, rfl⟩
  | tail _ hlast ih =>
    exact ⟨ih.store.trans hlast.leads.store, hlast.leads.moduleScope_eq.trans ih.moduleScope_eq⟩

end Bind

/-! ## The statements of a file -/

/-- The module of a file, which no statement has been bound into yet. -/
def opened (file : Source) (base : Store) : Progress where
  store := (base.addScope { kind := .module, node := file.root, parent := none }).2
  binding :=
    { source := file, moduleScope := ⟨base.scopes.size⟩
      scopes := Table.empty.put file.root.key ⟨base.scopes.size⟩ }

/-- What has been bound of a file when the walk has gone through some of its statements. -/
def boundUpTo (file : Source) (base : Store) (statements : List Node) : Progress :=
  (((tasks ⟨base.scopes.size⟩ ⟨base.scopes.size⟩ statements).forM
    (Bind.bindFrom file.tree.size)).run (opened file base)).2

/-- A file has been bound when all its statements have been gone through. -/
theorem bind_eq (file : Source) (base : Store) :
    bind file base = ((boundUpTo file base file.root.children).binding,
      (boundUpTo file base file.root.children).store) :=
  rfl

/-- Statements are bound in steps. -/
theorem statements_go {φ : Node → Prop} (hφ : PassesDown φ) {statements : List Node}
    (h : ∀ n ∈ statements, φ n) (scope : ScopeId) (depth : Nat) :
    Bind.Goes φ ((tasks scope scope statements).forM (Bind.bindFrom depth)) :=
  .forM fun t ht => by
    obtain ⟨n, hn, rfl⟩ := List.mem_map.mp ht
    exact Bind.bindFrom_goes hφ depth (h n hn)

/-- The statements of a file are bound in steps. -/
theorem opened_steps (file : Source) (base : Store) (statements : List Node) :
    Bind.Steps (fun _ => True) (opened file base) (boundUpTo file base statements) :=
  (statements_go (fun _ _ _ _ => trivial) (fun _ _ => trivial) _ _ _).1

/-- Statements lead from the opened file to where it has been bound up to. -/
theorem opened_leads (file : Source) (base : Store) (statements : List Node) :
    Bind.Leads (opened file base) (boundUpTo file base statements) :=
  (opened_steps file base statements).leads

/-- Binding a file changes a store by changes of a file that is bound. -/
theorem bind_changes (file : Source) (base : Store) : base.Changes (bind file base).2 := by
  rw [bind_eq]
  exact (Relation.ReflTransGen.single (.scope .module file.root none)).trans
    (opened_leads file base file.root.children).store

/-- The module of a file is the first scope that is opened for it. -/
theorem bind_moduleScope (file : Source) (base : Store) :
    (bind file base).1.moduleScope = ⟨base.scopes.size⟩ := by
  rw [bind_eq]
  exact (opened_leads file base file.root.children).moduleScope_eq

/-- The module of a file is there from the start on, and it stands in no other scope. -/
theorem boundUpTo_module (file : Source) (base : Store) (statements : List Node) :
    let p := boundUpTo file base statements
    base.scopes.size < p.store.scopes.size ∧
      p.store.moduleScope ⟨base.scopes.size⟩ = ⟨base.scopes.size⟩ := by
  intro p
  have hlt : base.scopes.size < (opened file base).store.scopes.size := by
    simp [opened, Store.addScope]
  have hkept : Store.KeepsScope ⟨base.scopes.size⟩ (opened file base).store p.store :=
    (opened_leads file base statements).store.keepsScope hlt
  refine ⟨hkept.index_lt, Store.moduleScope_of_parent_eq_none (hkept.parent_eq.trans ?_)⟩
  rw [opened, Store.scope_addScope, if_pos rfl]

end ScriptGraph.Binding
