import ScriptGraph.Binding.Walk
import ScriptGraph.Proofs.Binding.Growth

/-!
# Binding a file

Every action of binding keeps `Bind.Grown`, as long as the constructs that it is given belong to
the file and the scopes and symbols have been added for the file. So binding a file leaves a store
as it was, apart from what it adds.

- `Bind.bindTask_grown`: binding one construct, and what it leaves to be bound
- `bind_grown`: binding a file
-/

namespace ScriptGraph.Binding

open Syntax

namespace Bind

variable {base : Store} {file : Source}

/-! ## Scopes, declarations and members -/

/-- A scope that is opened is one that the file adds. -/
theorem openScope_addsScope {kind : ScopeKind} {node : Node} {parent : ScopeId}
    (hparent : base.scopes.size ≤ parent.index) :
    Ensures (Grown base file) (openScope kind node parent)
      fun id p => Grown base file p ∧ base.AddsScope p.store id := by
  intro p hp
  -- A new scope declares nothing yet, and the scope around it has been added.
  have hs : base.ClosedScope p.store { kind, node, parent := some parent } :=
    ⟨fun up hup => Option.some.inj hup ▸ hparent, nofun⟩
  have hadds := hp.store.addsScope { kind, node, parent := some parent }
  have h := hp.changeStore (hp.store.addScope hs) (p.store.noSmaller_addScope _) fun _ _ => rfl
  refine ⟨{ h with scopes := fun e he => ?_ }, hadds⟩
  rcases Table.mem_entries_put he with rfl | he
  · exact hadds
  · exact h.scopes e he

/-- Opening a scope adds to the file alone. -/
theorem openScope_grown {kind : ScopeKind} {node : Node} {parent : ScopeId}
    (hparent : base.scopes.size ≤ parent.index) :
    Ensures (Grown base file) (openScope kind node parent)
      fun id p => Grown base file p ∧ base.scopes.size ≤ id.index :=
  (openScope_addsScope hparent).weaken fun _ _ hp => ⟨hp.1, hp.2.1⟩

/-- Opening a scope adds no symbol. -/
theorem openScope_addsSymbol {kind : ScopeKind} {node : Node} {parent : ScopeId}
    {symbol : SymbolId} :
    Ensures (fun p => base.AddsSymbol p.store symbol) (openScope kind node parent)
      fun _ p => base.AddsSymbol p.store symbol :=
  fun _ hp => hp

/-- Recording a declaration adds to the file alone. -/
theorem record_grown {d : Declaration} (hd : d.source = file) :
    Ensures (Grown base file) (record d)
      fun id p => Grown base file p ∧ base.declarations.size ≤ id.index := by
  intro p hp
  have hadds := hp.store.addsDeclaration d
  have hkey : ((p.store.addDeclaration d).2.declaration (p.store.addDeclaration d).1).key = d.key :=
    congrArg Declaration.key (by rw [Store.declaration_addDeclaration]; exact if_pos rfl)
  have h := hp.changeStore (hp.store.addDeclaration hd) (p.store.noSmaller_addDeclaration d)
    fun id hid => by rw [Store.declaration_addDeclaration, if_neg (Nat.ne_of_lt hid)]
  refine ⟨{ h with declarations := fun e he => ?_, names := fun e he => ?_ }, hadds.1⟩
  · rcases Table.mem_entries_putNew he with rfl | he
    · exact ⟨hadds, hkey⟩
    · exact h.declarations e he
  -- Without a name the table of names stays as it is.
  · change e ∈ (d.nameNode.elim p.binding.names fun n =>
      p.binding.names.putNew n.key (p.store.addDeclaration d).1).entries at he
    cases hn : d.nameNode with
    | none =>
      rw [hn] at he
      exact h.names e he
    | some n =>
      rw [hn] at he
      rcases Table.mem_entries_putNew he with rfl | he
      · exact hadds
      · exact h.names e he

/-- Recording a declaration adds no symbol. -/
theorem record_addsSymbol {d : Declaration} {symbol : SymbolId} :
    Ensures (fun p => base.AddsSymbol p.store symbol) (record d)
      fun _ p => base.AddsSymbol p.store symbol :=
  fun _ hp => hp

/-- Entering a symbol in a scope adds to the file alone. -/
theorem enter_grown {scope : ScopeId} {name : String} {symbol : SymbolId}
    (hscope : base.scopes.size ≤ scope.index) :
    Ensures (fun p => Grown base file p ∧ base.AddsSymbol p.store symbol)
      (enter scope name symbol)
      fun _ p => Grown base file p ∧ base.AddsSymbol p.store symbol := by
  intro p hp
  have hle := p.store.noSmaller_putSymbol scope name symbol
  refine ⟨hp.1.changeStore (hp.1.store.putSymbol hscope hp.2) hle fun id _ => ?_, hp.2.mono hle⟩
  rw [Store.declaration_putSymbol]

/-- Attaching a declaration to a symbol adds to the file alone. -/
theorem attach_grown {symbol : SymbolId} {d : DeclarationId}
    (hs : base.symbols.size ≤ symbol.index) (hd : base.declarations.size ≤ d.index) :
    Ensures (Grown base file) (modifyStore (·.attach symbol d)) fun _ => Grown base file := by
  intro p hp
  refine hp.changeStore (hp.store.attach hs hd) (p.store.noSmaller_attach symbol d) fun id _ => ?_
  show ((p.store.modifyDeclaration d _).declaration id).key = _
  rw [Store.declaration_modifyDeclaration]
  split <;> rfl

/-- Attaching a declaration removes no symbol. -/
theorem attach_addsSymbol {symbol other : SymbolId} {d : DeclarationId} :
    Ensures (fun p => base.AddsSymbol p.store other) (modifyStore (·.attach symbol d))
      fun _ p => base.AddsSymbol p.store other :=
  fun p hp => hp.mono (p.store.noSmaller_attach symbol d)

/-- Attaching a declaration in a scope adds to the file alone. -/
theorem attachIn_grown {scope : ScopeId} {name : String} {d : DeclarationId}
    (hscope : base.scopes.size ≤ scope.index) (hd : base.declarations.size ≤ d.index) :
    Ensures (Grown base file) (attachIn scope name d)
      fun symbol p => Grown base file p ∧ base.AddsSymbol p.store symbol := by
  have hattach : ∀ symbol, Ensures (fun p => Grown base file p ∧ base.AddsSymbol p.store symbol)
      (do modifyStore (·.attach symbol d); return symbol)
      fun symbol p => Grown base file p ∧ base.AddsSymbol p.store symbol := fun symbol p hp =>
    ((attach_grown hp.2.1 hd).and attach_addsSymbol) p hp
  refine .get fun now => ?_
  -- Either the scope has a symbol of the name, or it gets one.
  cases hfind : (now.store.symbolsOf scope).find? name with
  | some symbol =>
    refine (hattach symbol).of_imp fun p hp => ⟨hp.1, ?_⟩
    obtain ⟨hp, rfl⟩ := hp
    exact hp.store.closed_symbolsOf hscope _ (Table.mem_entries_of_find? hfind)
  | none =>
    refine .bind ((onStore_addSymbol_grown fun _ => Store.closedSymbol_named name none).of_imp
      fun p hp => hp.1) fun symbol => ?_
    exact .bind (enter_grown hscope) fun _ => hattach symbol

/-- Declaring a name in a scope adds to the file alone. -/
theorem declare_grown {scope : ScopeId} {d : Declaration}
    (hscope : base.scopes.size ≤ scope.index) (hd : d.source = file) :
    Ensures (Grown base file) (declare scope d)
      fun symbol p => Grown base file p ∧ base.AddsSymbol p.store symbol :=
  .bind (record_grown hd) fun _ => .of_fact fun hid => attachIn_grown hscope hid

/-- Declaring a member adds to the file alone. -/
theorem declareMember_grown {owner : SymbolId} {d : Declaration}
    (howner : base.symbols.size ≤ owner.index) (hd : d.source = file) :
    Ensures (Grown base file) (declareMember owner d) fun _ => Grown base file := by
  refine .bind (record_grown hd) fun id => .of_fact fun hid => .get fun now => ?_
  dsimp only
  cases hfind : (if d.isStatic then (now.store.symbol owner).statics
      else (now.store.symbol owner).members).find? d.name with
  | some symbol =>
    refine .bind (R := fun b p => Grown base file p ∧ base.symbols.size ≤ b.index)
      (.pure fun p hp => ?_) fun symbol => .of_fact fun hs => attach_grown hs hid
    obtain ⟨hp, rfl⟩ := hp
    refine ⟨hp, ?_⟩
    -- A member that is there already belongs to an owner that has been added.
    have hclosed := hp.store.symbol_closed owner howner
    have hmem := Table.mem_entries_of_find? hfind
    split at hmem
    · exact (hclosed.2 _ hmem).1
    · exact (hclosed.1 _ hmem).1
  | none =>
    refine .bind ((onStore_addSymbol_grown fun _ =>
      Store.closedSymbol_named d.name (some owner)).of_imp fun p hp => hp.1) fun symbol => ?_
    refine .bind (R := fun _ p => Grown base file p ∧ base.symbols.size ≤ symbol.index)
      (fun p hp => ⟨?_, hp.2.1⟩) fun _ => .of_fact fun hs => attach_grown hs hid
    -- Only one of the two tables gets the member; the other one stays closed as it is.
    · refine hp.1.changeStore (hp.1.store.modifySymbol howner fun sym hsym => ?_)
        (p.store.noSmaller_modifySymbol _ _) fun _ _ => rfl
      split
      · refine ⟨hsym.1, fun e he => ?_⟩
        rcases Table.mem_entries_put he with rfl | he
        · exact hp.2
        · exact hsym.2 e he
      · refine ⟨fun e he => ?_, hsym.2⟩
        rcases Table.mem_entries_put he with rfl | he
        · exact hp.2
        · exact hsym.1 e he

/-- Adding a construct signature adds to the file alone. -/
theorem addConstructSignature_grown {owner : SymbolId} {d : Declaration}
    (howner : base.symbols.size ≤ owner.index) (hd : d.source = file) :
    Ensures (Grown base file) (addConstructSignature owner d) fun _ => Grown base file :=
  .bind (record_grown hd) fun _ => .of_fact fun _ =>
    modifySymbol_grown howner fun _ _ hs => hs

/-- Adding a call signature adds to the file alone. -/
theorem addCallSignature_grown {owner : SymbolId} {d : Declaration}
    (howner : base.symbols.size ≤ owner.index) (hd : d.source = file) :
    Ensures (Grown base file) (addCallSignature owner d) fun _ => Grown base file :=
  .bind (record_grown hd) fun _ => .of_fact fun _ =>
    modifySymbol_grown howner fun _ _ hs => hs

/-- Declaring type parameters adds to the file alone. -/
theorem declareTypeParameters_grown {node : Node} {scope : ScopeId} {owner : Option SymbolId}
    (hnode : node.source = file) (hscope : base.scopes.size ≤ scope.index)
    (howner : ∀ id, owner = some id → base.symbols.size ≤ id.index) :
    Ensures (Grown base file) (declareTypeParameters node scope owner)
      fun _ => Grown base file := by
  refine .forM fun param hparam => ?_
  split
  · exact .pure fun _ hp => hp
  · have hsource := (Node.source_of_mem_constructsIn hparam).trans hnode
    refine .bind (declare_grown hscope hsource) fun _ => .of_imp ?_ fun _ hp => hp.1
    split
    · exact .pure fun _ hp => hp
    · rename_i owner
      -- The list of type parameters has no share in what is closed.
      refine modifySymbol_grown (howner owner rfl) fun _ _ hs => ?_
      split
      · exact hs
      · exact hs

/-! ## Classes, types and enumerations -/

/-- Declaring the properties among the parameters of a constructor adds to the file alone. -/
theorem declareParameterProperties_grown {owner : SymbolId} {ctor : Node}
    (howner : base.symbols.size ≤ owner.index) (hctor : ctor.source = file) :
    Ensures (Grown base file) (declareParameterProperties owner ctor)
      fun _ => Grown base file := by
  refine .forM fun param hparam => ?_
  split
  · split
    · split
      · exact declareMember_grown howner ((Node.source_of_mem_constructsIn hparam).trans hctor)
      · exact .pure fun _ hp => hp
    · exact .pure fun _ hp => hp
  · exact .pure fun _ hp => hp

/-- Declaring a method adds to the file alone. -/
theorem declareMethod_grown {owner : SymbolId} {member : Node}
    (howner : base.symbols.size ≤ owner.index) (hmember : member.source = file) :
    Ensures (Grown base file) (declareMethod owner member) fun _ => Grown base file := by
  unfold declareMethod
  dsimp only
  split
  · exact .pure fun _ hp => hp
  · split
    · exact .bind (addConstructSignature_grown howner hmember) fun _ =>
        declareParameterProperties_grown howner hmember
    · exact declareMember_grown howner hmember

/-- Declaring a field adds to the file alone. -/
theorem declareField_grown {owner : SymbolId} {member : Node}
    (howner : base.symbols.size ≤ owner.index) (hmember : member.source = file) :
    Ensures (Grown base file) (declareField owner member) fun _ => Grown base file := by
  unfold declareField
  dsimp only
  split
  · exact .pure fun _ hp => hp
  · exact declareMember_grown howner hmember

/-- Declaring a member of a class adds to the file alone. -/
theorem declareClassMember_grown {owner : SymbolId} {member : Node}
    (howner : base.symbols.size ≤ owner.index) (hmember : member.source = file) :
    Ensures (Grown base file) (declareClassMember owner member) fun _ => Grown base file := by
  unfold declareClassMember
  split
  · exact declareMethod_grown howner hmember
  · split
    · exact declareField_grown howner hmember
    · exact .pure fun _ hp => hp

/-- Declaring a part of an object type adds to the file alone. -/
theorem declareTypeMember_grown {owner : SymbolId} {scope : ScopeId} {member : Node}
    (howner : base.symbols.size ≤ owner.index) (hscope : base.scopes.size ≤ scope.index)
    (hmember : member.source = file) :
    Ensures (Grown base file) (declareTypeMember owner scope member)
      fun _ => Grown base file := by
  -- Every kind of member may have type parameters, which get a scope of their own.
  have hown : Ensures (Grown base file)
      (if (member.child? .typeParameters).isSome then do
          let inner ← openScope .function member scope
          declareTypeParameters member inner none
        else pure ()) fun _ => Grown base file := by
    split
    · exact .bind (openScope_grown hscope) fun _ => .of_fact fun hinner =>
        declareTypeParameters_grown hmember hinner nofun
    · exact .pure fun _ hp => hp
  unfold declareTypeMember
  dsimp only
  split
  · exact .bind (declareMember_grown howner hmember) fun _ => hown
  · exact .bind (declareMember_grown howner hmember) fun _ => hown
  · exact .bind (addConstructSignature_grown howner hmember) fun _ => hown
  · exact .bind (addCallSignature_grown howner hmember) fun _ => hown
  · exact .pure fun _ hp => hp

/-- Declaring a member of an enumeration adds to the file alone. -/
theorem declareEnumMember_grown {owner : SymbolId} {member : Node}
    (howner : base.symbols.size ≤ owner.index) (hmember : member.source = file) :
    Ensures (Grown base file) (declareEnumMember owner member) fun _ => Grown base file := by
  unfold declareEnumMember
  -- Which construct the name is does not matter.
  generalize (if member.is .enumAssignment then member.child? .name else some member) = nameNode
  dsimp only
  split
  · exact .pure fun _ hp => hp
  · exact declareMember_grown howner hmember

/-! ## Imports and exports -/

/-- Declaring an imported name adds to the file alone. -/
theorem declareAlias_grown {scope : ScopeId} {specifier imported name : String}
    {node nameNode : Node} (hscope : base.scopes.size ≤ scope.index)
    (hnode : node.source = file) :
    Ensures (Grown base file) (declareAlias scope specifier imported name node nameNode)
      fun _ => Grown base file :=
  .bind (declare_grown hscope hnode) fun _ => .pure fun _ hp => hp.1

/-- Binding a part of an import clause adds to the file alone. -/
theorem bindImportPart_grown {scope : ScopeId} {specifier : String} {part : Node}
    (hscope : base.scopes.size ≤ scope.index) (hpart : part.source = file) :
    Ensures (Grown base file) (bindImportPart scope specifier part)
      fun _ => Grown base file := by
  unfold bindImportPart
  -- The whole module, its default export, a list of names.
  split
  · exact declareAlias_grown hscope hpart
  · split
    · exact declareAlias_grown hscope hpart
    · exact .pure fun _ hp => hp
  · refine .forM fun item hitem => ?_
    have hsource : item.source = file := (Node.source_of_mem_constructs hitem).trans hpart
    split
    · dsimp only
      split
      · exact declareAlias_grown hscope hsource
      · exact .pure fun _ hp => hp
    · exact .pure fun _ hp => hp
  · exact .pure fun _ hp => hp

/-- Binding an import statement adds to the file alone. -/
theorem bindImport_grown {scope : ScopeId} {node : Node}
    (hscope : base.scopes.size ≤ scope.index) (hnode : node.source = file) :
    Ensures (Grown base file) (bindImport scope node) fun _ => Grown base file := by
  refine .forM fun child hchild => ?_
  have hsource : child.source = file := (Node.source_of_mem_constructs hchild).trans hnode
  split
  · exact .forM fun part hpart =>
      bindImportPart_grown hscope ((Node.source_of_mem_constructs hpart).trans hsource)
  · split
    · exact declareAlias_grown hscope hsource
    · exact .pure fun _ hp => hp
  · exact .pure fun _ hp => hp

/-- Exposing a name adds to the file alone. -/
theorem expose_grown {module : ScopeId} {name : String} {entry : ExportEntry}
    (hmodule : base.scopes.size ≤ module.index) :
    Ensures (Grown base file) (expose module name entry) fun _ => Grown base file :=
  modifyScope_grown hmodule fun _ _ hs => hs

/-- Exposing what is declared adds to the file alone. -/
theorem exposeDeclared_grown {module : ScopeId} {isDefault : Bool} {declaration : Node}
    (hmodule : base.scopes.size ≤ module.index) :
    Ensures (Grown base file) (exposeDeclared module isDefault declaration)
      fun _ => Grown base file := by
  unfold exposeDeclared
  split
  · split
    · exact expose_grown hmodule
    · exact .pure fun _ hp => hp
  · exact .forM fun _ _ => expose_grown hmodule

/-- Exposing a value adds to the file alone. -/
theorem exposeValue_grown {module : ScopeId} {name : String} {value : Node}
    (hmodule : base.scopes.size ≤ module.index) (hvalue : value.source = file) :
    Ensures (Grown base file) (exposeValue module name value) fun _ => Grown base file := by
  unfold exposeValue
  split
  · exact expose_grown hmodule
  -- A value that declares nothing gets a symbol and a declaration of its own.
  · refine .bind (onStore_addSymbol_grown fun _ => Store.closedSymbol_named name none)
      fun symbol => ?_
    have hrecord : Ensures (Grown base file) _ _ := record_grown
      (d := { kind := .exportValue, name, node := value }) hvalue
    refine .bind (R := fun d p => (Grown base file p ∧ base.declarations.size ≤ d.index) ∧
      base.symbols.size ≤ symbol.index) (fun p hp => ⟨hrecord p hp.1, hp.2.1⟩)
      fun d => .of_fact fun hs => .of_fact fun hd => ?_
    exact .bind (attach_grown hs hd) fun _ => expose_grown hmodule

/-- Exposing the name of a specifier adds to the file alone. -/
theorem exposeSpecifier_grown {module : ScopeId} {specifier : Option String} {item : Node}
    (hmodule : base.scopes.size ≤ module.index) :
    Ensures (Grown base file) (exposeSpecifier module specifier item)
      fun _ => Grown base file := by
  unfold exposeSpecifier
  split
  · dsimp only
    split
    · split
      · exact expose_grown hmodule
      · exact expose_grown hmodule
    · exact .pure fun _ hp => hp
  · exact .pure fun _ hp => hp

/-- Exposing the names of a list adds to the file alone. -/
theorem exposeNames_grown {module : ScopeId} {node : Node}
    (hmodule : base.scopes.size ≤ module.index) :
    Ensures (Grown base file) (exposeNames module node) fun _ => Grown base file := by
  unfold exposeNames
  dsimp only
  split
  -- A list of names, a star under a name, a plain star.
  · exact .forM fun _ _ => exposeSpecifier_grown hmodule
  · split
    · split
      · exact expose_grown hmodule
      · exact .pure fun _ hp => hp
    · exact .pure fun _ hp => hp
    · split
      · exact modifyScope_grown hmodule fun _ _ hs => hs
      · exact .pure fun _ hp => hp
    · exact .pure fun _ hp => hp

/-- Binding an export statement adds to the file alone, and leaves constructs of the file. -/
theorem bindExport_grown {scope : ScopeId} {node : Node}
    (hscope : base.scopes.size ≤ scope.index) (hnode : node.source = file) :
    Ensures (Grown base file) (bindExport scope node)
      fun rest p => Grown base file p ∧ ∀ n ∈ rest, n.source = file := by
  have hone : ∀ n : Node, n.source = file → ∀ m ∈ [n], m.source = file :=
    fun n hn m hm => List.mem_singleton.mp hm ▸ hn
  -- The module around a scope that has been added has been added too.
  refine .get fun now => .of_imp (P := fun p => Grown base file p ∧
    base.scopes.size ≤ (now.store.moduleScope scope).index) (.of_fact fun hmodule => ?_)
    fun p hp => ⟨hp.1, hp.2 ▸ hp.1.store.moduleScope hscope⟩
  dsimp only
  split
  · rename_i declaration hd
    exact .bind (exposeDeclared_grown hmodule) fun _ =>
      .pure fun _ hp => ⟨hp, hone _ ((Node.source_of_child? hd).trans hnode)⟩
  · split
    · split
      · rename_i value hv
        have hvalue : value.source = file := by
          rcases Option.or_eq_some_iff.mp hv with hv | ⟨-, hv⟩
          · exact (Node.source_of_child? hv).trans hnode
          · exact (Node.source_of_mem_constructs (List.mem_of_getLast? hv)).trans hnode
        exact .bind (exposeValue_grown hmodule hvalue) fun _ =>
          .pure fun _ hp => ⟨hp, hone _ hvalue⟩
      · exact .pure fun _ hp => ⟨hp, nofun⟩
    · exact .bind (exposeNames_grown hmodule) fun _ => .pure fun _ hp => ⟨hp, nofun⟩

/-! ## The walk -/

/-- A construct of the file, in scopes that have been added. -/
structure TaskFor (base : Store) (file : Source) (t : Task) : Prop where
  source : t.node.source = file
  scope : base.scopes.size ≤ t.scope.index
  enclosing : base.scopes.size ≤ t.enclosing.index

/-- Tasks for nodes of the file belong to the file. -/
theorem taskFor_tasks {scope enclosing : ScopeId} {nodes : List Node}
    (hscope : base.scopes.size ≤ scope.index) (henclosing : base.scopes.size ≤ enclosing.index)
    (hnodes : ∀ n ∈ nodes, n.source = file) :
    ∀ t ∈ tasks scope enclosing nodes, TaskFor base file t := by
  intro t ht
  obtain ⟨n, hn, rfl⟩ := List.mem_map.mp ht
  exact ⟨hnodes n hn, hscope, henclosing⟩

/-- What binding a construct ensures: the binding has grown, and what is left is in the file. -/
abbrev Leaves (base : Store) (file : Source) (rest : List Task) (p : Progress) : Prop :=
  Grown base file p ∧ ∀ t ∈ rest, TaskFor base file t

/-- Declaring parameters adds to the file alone. -/
theorem declareParameters_grown {inner : ScopeId} {node : Node}
    (hinner : base.scopes.size ≤ inner.index) (hnode : node.source = file) :
    Ensures (Grown base file) (declareParameters inner node) fun _ => Grown base file := by
  -- The parameters in parentheses are declared after a single one without them.
  have hmany : Ensures (Grown base file)
      ((node.constructsIn .parameters).forM fun param => (boundNames param).forM fun name => do
        let _ ← declare inner
          { kind := .parameter, name := name.text, node := param, nameNode := some name })
      fun _ => Grown base file := by
    refine .forM fun param hparam => .forM fun name _ => ?_
    have hsource : param.source = file := (Node.source_of_mem_constructsIn hparam).trans hnode
    exact .bind (declare_grown hinner hsource) fun _ => .pure fun _ hp => hp.1
  unfold declareParameters
  cases hsingle : node.child? .parameter with
  | none => exact hmany
  | some single =>
    have hsource : single.source = file := (Node.source_of_child? hsingle).trans hnode
    have hdeclare : Ensures (Grown base file) _ _ := declare_grown (d :=
      { kind := .parameter, name := single.text, node := single, nameNode := some single })
      hinner hsource
    exact .bind hdeclare fun _ => hmany.of_imp fun _ hp => hp.1

/-- Declaring variables adds to the file alone. -/
theorem declareVariables_grown {scope : ScopeId} {node : Node} {names : List Node}
    (hscope : base.scopes.size ≤ scope.index) (hnode : node.source = file) :
    Ensures (Grown base file) (declareVariables scope node names) fun _ => Grown base file :=
  .forM fun _ _ => .bind (declare_grown hscope hnode) fun _ => .pure fun _ hp => hp.1

/-- Recording a function adds to the file alone. -/
theorem recordFunction_grown {t : Task} (ht : TaskFor base file t) :
    Ensures (Grown base file) (recordFunction t) fun expression p => Grown base file p ∧
      ∀ d, expression = some d → base.declarations.size ≤ d.index := by
  have hsource : t.node.source = file := ht.source
  unfold recordFunction
  dsimp only
  split
  · split
    · exact .bind (declare_grown ht.scope hsource) fun _ => .pure fun _ hp => ⟨hp.1, nofun⟩
    · exact .pure fun _ hp => ⟨hp, nofun⟩
  · split
    -- Only what is recorded without being declared is handed on.
    · exact .map (.weaken (record_grown hsource) fun _ _ hp =>
        ⟨hp.1, fun d hd => Option.some.inj hd ▸ hp.2⟩)
    · split
      · exact .bind (record_grown hsource) fun _ => .pure fun _ hp => ⟨hp.1, nofun⟩
      · exact .pure fun _ hp => ⟨hp, nofun⟩

/-- Binding a function adds to the file alone, and leaves constructs of the file. -/
theorem bindFunction_grown {t : Task} (ht : TaskFor base file t) :
    Ensures (Grown base file) (bindFunction t) (Leaves base file) := by
  refine .bind (recordFunction_grown ht) fun expression => .of_fact fun hexpression =>
    .bind (openScope_grown ht.scope) fun inner => .of_fact fun hinner => ?_
  -- The parameters and the body stand in the scope of the function.
  have hinside : Ensures (Grown base file) (do
      declareTypeParameters t.node inner none
      declareParameters inner t.node
      return tasks inner inner (t.node.constructsIn .parameters ++ (t.node.child? .body).toList))
      (Leaves base file) := by
    refine .bind (declareTypeParameters_grown ht.source hinner nofun) fun _ =>
      .bind (declareParameters_grown hinner ht.source) fun _ => .pure fun _ hp =>
        ⟨hp, taskFor_tasks hinner hinner fun n hn => ?_⟩
    rcases List.mem_append.mp hn with hn | hn
    · exact (Node.source_of_mem_constructsIn hn).trans ht.source
    · exact (Node.source_of_child? (Option.mem_toList.mp hn)).trans ht.source
  dsimp only
  split
  · rename_i d _ _
    -- A function expression with a name declares it inside itself.
    exact .bind (attachIn_grown hinner (hexpression d rfl)) fun _ =>
      hinside.of_imp fun _ hp => hp.1
  · exact hinside

/-- Binding variables adds to the file alone, and leaves constructs of the file. -/
theorem bindVariables_grown {t : Task} (ht : TaskFor base file t) :
    Ensures (Grown base file) (bindVariables t) (Leaves base file) := by
  unfold bindVariables
  dsimp only
  -- The variables are declared in one of the two scopes of the task.
  have htarget : base.scopes.size ≤ (if t.node.is .variableDeclaration || t.node.hasToken "var"
      then t.enclosing else t.scope).index := by
    split
    · exact ht.enclosing
    · exact ht.scope
  have hsource : ∀ d ∈ t.node.constructs.filter (·.is .variableDeclarator), d.source = file :=
    fun d hd => (Node.source_of_mem_constructs (List.mem_filter.mp hd).1).trans ht.source
  refine .bind (.forM fun d hd => declareVariables_grown htarget (hsource d hd)) fun _ =>
    .pure fun _ hp => ⟨hp, taskFor_tasks ht.scope ht.enclosing fun n hn => ?_⟩
  obtain ⟨d, hd, hn⟩ := List.mem_filterMap.mp hn
  exact (Node.source_of_child? hn).trans (hsource d hd)

/-- Binding a loop over items adds to the file alone, and leaves constructs of the file. -/
theorem bindIteration_grown {t : Task} (ht : TaskFor base file t) :
    Ensures (Grown base file) (bindIteration t) (Leaves base file) := by
  refine .bind (openScope_grown ht.scope) fun inner => .of_fact fun hinner => ?_
  have hrest : ∀ p, Grown base file p → Leaves base file (tasks inner t.enclosing
      ((t.node.child? .right).toList ++ (t.node.child? .body).toList)) p := by
    -- Inside the loop are the iterated value and the body.
    refine fun p hp => ⟨hp, taskFor_tasks hinner ht.enclosing fun n hn => ?_⟩
    rcases List.mem_append.mp hn with hn | hn
    · exact (Node.source_of_child? (Option.mem_toList.mp hn)).trans ht.source
    · exact (Node.source_of_child? (Option.mem_toList.mp hn)).trans ht.source
  -- The scope of the loop belongs to the file, as the one around it does.
  have htarget : base.scopes.size ≤
      (if t.node.hasToken "var" then t.enclosing else inner).index := by
    split
    · exact ht.enclosing
    · exact hinner
  dsimp only
  split
  · exact .bind (declareVariables_grown htarget ht.source) fun _ => .pure hrest
  · exact .pure hrest

/-- Binding a handler of exceptions adds to the file alone, and leaves constructs of the file. -/
theorem bindHandler_grown {t : Task} (ht : TaskFor base file t) :
    Ensures (Grown base file) (bindHandler t) (Leaves base file) := by
  refine .bind (openScope_grown ht.scope) fun inner => .of_fact fun hinner =>
    .bind (declareVariables_grown hinner ht.source) fun _ => .pure fun _ hp =>
      ⟨hp, taskFor_tasks hinner ht.enclosing fun n hn => ?_⟩
  exact (Node.source_of_child? (Option.mem_toList.mp hn)).trans ht.source

/-- The children of a construct are left as tasks of the file. -/
theorem taskFor_children {t : Task} (ht : TaskFor base file t) :
    ∀ rest ∈ tasks t.scope t.enclosing t.node.children, TaskFor base file rest :=
  taskFor_tasks ht.scope ht.enclosing fun _ hn =>
    (Node.source_of_mem_children hn).trans ht.source

/-- Binding an ambient declaration adds to the file alone, and leaves constructs of the file. -/
theorem bindAmbient_grown {t : Task} (ht : TaskFor base file t) :
    Ensures (Grown base file) (bindAmbient t) (Leaves base file) := by
  unfold bindAmbient
  split
  -- The module around the declaration is one of the file, since the scope of the task is.
  · refine .get fun now => .of_imp (P := fun p => Grown base file p ∧
      base.scopes.size ≤ (now.store.moduleScope t.scope).index) (.of_fact fun hmodule => ?_)
      fun p hp => ⟨hp.1, hp.2 ▸ hp.1.store.moduleScope ht.scope⟩
    dsimp only
    split
    · rename_i block hblock
      refine .pure fun _ hp => ⟨hp, taskFor_tasks hmodule hmodule fun n hn => ?_⟩
      exact (Node.source_of_mem_children hn).trans
        ((Node.source_of_mem_constructs (List.mem_of_find?_eq_some hblock)).trans ht.source)
    · exact .pure fun _ hp => ⟨hp, nofun⟩
  · exact .pure fun _ hp => ⟨hp, taskFor_children ht⟩

/-- Declaring a class adds to the file alone. -/
theorem declareClass_grown {t : Task} (ht : TaskFor base file t) :
    Ensures (Grown base file) (declareClass t)
      fun symbol p => Grown base file p ∧ base.AddsSymbol p.store symbol := by
  have hnode : t.node.source = file := ht.source
  unfold declareClass
  split
  rename_i name nameNode _
  dsimp only
  split
  · exact declare_grown ht.scope hnode
  -- A symbol that no scope knows is added by itself.
  · refine .bind (onStore_addSymbol_grown fun _ => Store.closedSymbol_named name none)
      fun symbol => .bind (.and (record_grown hnode) record_addsSymbol) fun id => ?_
    intro p ⟨⟨hp, hid⟩, hs⟩
    exact ((attach_grown hs.1 hid).and attach_addsSymbol) p ⟨hp, hs⟩

/-- Binding a class adds to the file alone, and leaves constructs of the file. -/
theorem bindClass_grown {t : Task} (ht : TaskFor base file t) :
    Ensures (Grown base file) (bindClass t) (Leaves base file) := by
  have hnode : t.node.source = file := ht.source
  refine .bind (declareClass_grown ht) fun symbol =>
    .bind (.and (openScope_grown ht.scope) openScope_addsSymbol) fun inner => ?_
  refine .of_imp (P := fun p => ((Grown base file p ∧ base.AddsSymbol p.store symbol) ∧
    base.symbols.size ≤ symbol.index) ∧ base.scopes.size ≤ inner.index)
    (.of_fact fun hinner => .of_fact fun hs => ?_)
    fun p hp => ⟨⟨⟨hp.1.1, hp.2⟩, hp.2.1⟩, hp.1.2⟩
  have hrest : Ensures (Grown base file) (do
      declareTypeParameters t.node inner symbol
      (t.node.constructsIn .body).forM (declareClassMember symbol)
      return tasks inner t.enclosing t.node.namedChildren) (Leaves base file) := by
    have hleft : ∀ p, Grown base file p →
        Leaves base file (tasks inner t.enclosing t.node.namedChildren) p := fun p hp =>
      ⟨hp, taskFor_tasks hinner ht.enclosing fun n hn =>
        (Node.source_of_mem_namedChildren hn).trans hnode⟩
    -- The members stand in the scope of the class, and what is left does as well.
    refine .bind (declareTypeParameters_grown hnode hinner fun _ h => Option.some.inj h ▸ hs)
      fun _ => .bind (.forM fun member hmember => ?_) fun _ => .pure hleft
    exact declareClassMember_grown hs ((Node.source_of_mem_constructsIn hmember).trans hnode)
  dsimp only
  split
  · exact .bind (enter_grown hinner) fun _ => hrest.of_imp fun _ hp => hp.1
  · exact hrest.of_imp fun _ hp => hp.1

/-- Binding an interface adds to the file alone. -/
theorem bindInterface_grown {t : Task} (ht : TaskFor base file t) :
    Ensures (Grown base file) (bindInterface t) fun _ => Grown base file := by
  have hnode : t.node.source = file := ht.source
  unfold bindInterface
  split
  · exact .pure fun _ hp => hp
  · refine .bind (declare_grown ht.scope hnode) fun symbol => .of_imp
      (.of_fact fun hs => ?_) fun _ hp => ⟨hp.1, hp.2.1⟩
    refine .bind (openScope_grown ht.scope) fun inner => .of_fact fun hinner => ?_
    refine .bind (declareTypeParameters_grown hnode hinner fun _ h => Option.some.inj h ▸ hs)
      fun _ => .forM fun member hmember => ?_
    exact declareTypeMember_grown hs hinner
      ((Node.source_of_mem_constructsIn hmember).trans hnode)

/-- Binding a type alias adds to the file alone. -/
theorem bindTypeAlias_grown {t : Task} (ht : TaskFor base file t) :
    Ensures (Grown base file) (bindTypeAlias t) fun _ => Grown base file := by
  have hnode : t.node.source = file := ht.source
  unfold bindTypeAlias
  split
  · exact .pure fun _ hp => hp
  · refine .bind (declare_grown ht.scope hnode) fun symbol => .of_imp
      (.of_fact fun hs => ?_) fun _ hp => ⟨hp.1, hp.2.1⟩
    -- Everything from here on happens in the new scope.
    refine .bind (openScope_grown ht.scope) fun inner => .of_fact fun hinner => ?_
    refine .bind (declareTypeParameters_grown hnode hinner fun _ h => Option.some.inj h ▸ hs)
      fun _ => ?_
    split
    · rename_i value hvalue
      split
      · exact .forM fun member hmember => declareTypeMember_grown hs hinner
          ((Node.source_of_mem_constructs hmember).trans
            ((Node.source_of_child? hvalue).trans hnode))
      · exact .pure fun _ hp => hp
    · exact .pure fun _ hp => hp

/-- Binding an enumeration adds to the file alone. -/
theorem bindEnum_grown {t : Task} (ht : TaskFor base file t) :
    Ensures (Grown base file) (bindEnum t) fun _ => Grown base file := by
  have hnode : t.node.source = file := ht.source
  unfold bindEnum
  split
  · exact .pure fun _ hp => hp
  · refine .bind (declare_grown ht.scope hnode) fun symbol => .of_imp
      (.of_fact fun hs => .forM fun member hmember => ?_) fun _ hp => ⟨hp.1, hp.2.1⟩
    exact declareEnumMember_grown hs ((Node.source_of_mem_constructsIn hmember).trans hnode)

/-- Binding a namespace or a module adds to the file alone, and leaves constructs of the file. -/
theorem bindModule_grown {t : Task} (ht : TaskFor base file t) :
    Ensures (Grown base file) (bindModule t) (Leaves base file) := by
  have hnode : t.node.source = file := ht.source
  unfold bindModule
  split
  · exact .pure fun _ hp => ⟨hp, nofun⟩
  -- The new scope is one of this file, as the base does not have it.
  refine .bind (openScope_addsScope ht.scope) fun inner => .of_imp
    (P := fun p => (Grown base file p ∧ base.AddsScope p.store inner) ∧
      base.scopes.size ≤ inner.index) (.of_fact fun hinner => ?_) fun p hp => ⟨hp, hp.2.1⟩
  -- What is left are statements of the body, in the scope of the block.
  have hbody : Ensures (Grown base file)
      (pure (tasks inner inner ((t.node.child? .body).toList.flatMap Node.children)))
      (Leaves base file) := by
    refine .pure fun _ hp => ⟨hp, taskFor_tasks hinner hinner fun n hn => ?_⟩
    obtain ⟨body, hbody, hn⟩ := List.mem_flatMap.mp hn
    exact (Node.source_of_mem_children hn).trans
      ((Node.source_of_child? (Option.mem_toList.mp hbody)).trans hnode)
  dsimp only
  split
  · -- A quoted module is found by its specifier.
    refine .bind (R := fun _ p => Grown base file p ∧ base.AddsScope p.store inner)
      (fun p hp => ⟨?_, hp.2.1, ?_⟩) fun _ => .bind (R := fun _ => Grown base file)
        (fun p hp => { hp.1 with ambientModules := fun e he => ?_ }) fun _ => hbody
    · refine modifyScope_grown hinner ?_ p hp.1
      exact fun _ _ hs => hs
    · exact (p.store.noSmaller_modifyScope inner _).scope_lt hp.2.2
    · rcases Table.mem_entries_putNew he with rfl | he
      · exact hp.2
      · exact hp.1.ambientModules e he
  · -- The blocks of a namespace declare among the statics of its symbol.
    refine .bind (.of_imp (declare_grown ht.scope hnode) fun _ hp => hp.1) fun symbol =>
      .bind (R := fun _ => Grown base file) (fun p hp => ?_) fun _ => hbody
    exact hp.1.changeStore (hp.1.store.modifyScope hinner fun sc hsc => ⟨hsc.1, hp.2⟩)
      (p.store.noSmaller_modifyScope inner _) fun _ _ => rfl

/-- Binding one construct adds to the file alone, and leaves constructs of the file. -/
theorem bindTask_grown {t : Task} (ht : TaskFor base file t) :
    Ensures (Grown base file) (bindTask t) (Leaves base file) := by
  have hblock : Ensures (Grown base file) (do
      let inner ← openScope .block t.node t.scope
      return tasks inner t.enclosing t.node.children) (Leaves base file) :=
    .bind (openScope_grown ht.scope) fun inner => .of_fact fun hinner => .pure fun _ hp =>
      ⟨hp, taskFor_tasks hinner ht.enclosing fun n hn =>
        (Node.source_of_mem_children hn).trans ht.source⟩
  -- Some constructs leave nothing to be bound inside them.
  have hnone : ∀ {action : Bind Unit}, Ensures (Grown base file) action (fun _ => Grown base file) →
      Ensures (Grown base file) (do action; return []) (Leaves base file) := fun h =>
    .bind h fun _ => .pure fun _ hp => ⟨hp, nofun⟩
  -- One case for each kind of construct, in the order of the definition.
  unfold bindTask
  split
  · exact bindFunction_grown ht
  · exact bindFunction_grown ht
  · exact bindFunction_grown ht
  · exact bindFunction_grown ht
  · exact bindFunction_grown ht
  · exact bindFunction_grown ht
  · exact bindFunction_grown ht
  · exact bindClass_grown ht
  · exact bindClass_grown ht
  · exact bindClass_grown ht
  · exact hnone (bindInterface_grown ht)
  · exact hnone (bindTypeAlias_grown ht)
  · exact hnone (bindEnum_grown ht)
  · exact bindVariables_grown ht
  · exact bindVariables_grown ht
  · exact hnone (bindImport_grown ht.scope ht.source)
  · exact .bind (bindExport_grown ht.scope ht.source) fun rest => .pure fun _ hp =>
      ⟨hp.1, taskFor_tasks ht.scope ht.enclosing hp.2⟩
  · exact bindAmbient_grown ht
  · exact bindModule_grown ht
  · exact bindModule_grown ht
  · exact hblock
  · exact hblock
  · exact bindIteration_grown ht
  · exact bindHandler_grown ht
  · exact .pure fun _ hp => ⟨hp, taskFor_children ht⟩

/-- Binding a construct with all that it contains adds to the file alone. -/
theorem bindFrom_grown (depth : Nat) {t : Task} (ht : TaskFor base file t) :
    Ensures (Grown base file) (bindFrom depth t) fun _ => Grown base file := by
  -- What a construct leaves is again in the file and in added scopes, so the walk can go on.
  induction depth generalizing t with
  | zero => exact .pure fun _ hp => hp
  | succ depth ih =>
    exact .bind (bindTask_grown ht) fun rest => .of_fact fun hrest =>
      .forM fun inside hinside => ih (hrest inside hinside)

end Bind

/-- Binding a file adds to the store what belongs to the file, and changes nothing in it. -/
theorem bind_grown (file : Source) (base : Store) :
    Bind.Grown base file ⟨(bind file base).2, (bind file base).1⟩ := by
  let module : Scope := { kind := .module, node := file.root, parent := none }
  have hstore : base.GrownFor file base := .refl base file
  have hadds := hstore.addsScope module
  -- To begin with only the scope of the module has been added.
  have hstart : Bind.Grown base file ⟨(base.addScope module).2,
      { source := file, moduleScope := (base.addScope module).1
        scopes := Table.empty.put file.root.key (base.addScope module).1 }⟩ := {
    store := hstore.addScope ⟨nofun, nofun⟩
    source := rfl
    moduleScope := hadds
    scopes := fun e he => by
      rcases Table.mem_entries_put he with rfl | he
      · exact hadds
      · exact absurd he List.not_mem_nil
    ambientModules := nofun
    declarations := nofun
    names := nofun }
  -- The walk starts with the children of the root, in the scope of the module.
  have hwalk : Ensures (Bind.Grown base file)
      ((tasks (base.addScope module).1 (base.addScope module).1 file.root.children).forM
        (Bind.bindFrom file.tree.size)) fun _ => Bind.Grown base file :=
    .forM fun t ht => Bind.bindFrom_grown _ (Bind.taskFor_tasks hadds.1 hadds.1
      (fun n hn => Node.source_of_mem_children hn) t ht)
  exact hwalk _ hstart

end ScriptGraph.Binding
