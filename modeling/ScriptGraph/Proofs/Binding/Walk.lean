import ScriptGraph.Proofs.Binding.SelfContained
import ScriptGraph.Proofs.Syntax.Kinds

/-!
# Binding a file keeps bindings tidy

Every action of binding keeps `Bind.Tidy`. So in the store of a bound file everything that is
mentioned is there, and a name of the file leads to a declaration that is attached to a symbol or
to a method of an object literal.

- `Bind.bindTask_tidy`: binding one construct, and what it leaves to be bound
- `bind_tidy`: binding a file
-/

namespace ScriptGraph.Binding

open Syntax

namespace Bind

variable {φ : Tree → Prop} {pending : Option DeclarationId} {m n : Nat}

/-! ## Declarations and members -/

/-- Attaching a declaration in a scope leaves the store tidy, the new symbol included. -/
theorem attachIn_tidy {scope : ScopeId} {name : String} {d : DeclarationId} (hd : d.index < n)
    (hpending : ∀ id, pending = some id → id = d) :
    Ensures (Tidy φ pending m n) (attachIn scope name d)
      fun symbol => Tidy φ none (max m (symbol.index + 1)) n := by
  have hattach : ∀ symbol : SymbolId, Ensures (Tidy φ pending (max m (symbol.index + 1)) n)
      (do modifyStore (·.attach symbol d); return symbol)
      fun symbol => Tidy φ none (max m (symbol.index + 1)) n := fun symbol =>
    .bind (attach_tidy (Nat.le_max_right _ _) hd hpending) fun _ => .pure fun _ hp => hp
  refine .get fun now => ?_
  -- Either the scope has a symbol of the name, or it gets one.
  cases hfind : (now.store.symbolsOf scope).find? name with
  | some symbol =>
    refine (hattach symbol).of_imp fun p hp => ?_
    obtain ⟨hp, rfl⟩ := hp
    have hlt := hp.store.symbolsOf scope _ (Table.mem_entries_of_find? hfind)
    exact { hp with symbols_le := Nat.max_le.mpr ⟨hp.symbols_le, hlt⟩ }
  | none =>
    refine .bind ((addSymbol_tidy fun _ _ => symbol_within_named name none nofun).of_imp
      fun p hp => hp.1) fun symbol => ?_
    exact .bind (enter_tidy (Nat.le_max_right _ _)) fun _ => hattach symbol

/-- Declaring a name in a scope leaves the store tidy, the new symbol included. -/
theorem declare_tidy {scope : ScopeId} {d : Declaration} (hd : d.symbol = none) :
    Ensures (Tidy φ none m n) (declare scope d)
      fun symbol => Tidy φ none (max m (symbol.index + 1)) n :=
  .bind (record_pending hd) fun _ => .weaken
    (attachIn_tidy (Nat.le_max_right _ _) fun _ h => Option.some.inj h.symm)
    fun _ _ hp => hp.mono (Nat.le_refl _) (Nat.le_max_left _ _)

/-- Declaring a name leaves the store tidy. -/
theorem declare_keeps {scope : ScopeId} {d : Declaration} (hd : d.symbol = none) :
    Ensures (Tidy φ none m n) (declare scope d) fun _ => Tidy φ none m n :=
  (declare_tidy hd).weaken fun _ _ hp => hp.mono (Nat.le_max_left _ _) (Nat.le_refl _)

/-- Declaring a member leaves the store tidy. -/
theorem declareMember_tidy {owner : SymbolId} {d : Declaration} (howner : owner.index < m)
    (hd : d.symbol = none) :
    Ensures (Tidy φ none m n) (declareMember owner d) fun _ => Tidy φ none m n := by
  refine .bind (record_pending hd) fun id => .get fun now => ?_
  -- Whatever symbol the declaration gets, attaching it settles what was pending.
  have hattach : ∀ symbol : SymbolId, Ensures
      (Tidy φ (some id) (max m (symbol.index + 1)) (max n (id.index + 1)))
      (modifyStore (·.attach symbol id)) fun _ => Tidy φ none m n := fun symbol =>
    (attach_tidy (Nat.le_max_right _ _) (Nat.le_max_right _ _) fun _ h =>
      Option.some.inj h.symm).weaken fun _ _ hp =>
        hp.mono (Nat.le_max_left _ _) (Nat.le_max_left _ _)
  dsimp only
  cases hfind : (if d.isStatic then (now.store.symbol owner).statics
      else (now.store.symbol owner).members).find? d.name with
  | some symbol =>
    refine .bind (R := fun b => Tidy φ (some id) (max m (b.index + 1)) (max n (id.index + 1)))
      (.pure fun p hp => ?_) hattach
    obtain ⟨hp, rfl⟩ := hp
    have howned := hp.store.symbol owner
    have hmem := Table.mem_entries_of_find? hfind
    refine { hp with symbols_le := Nat.max_le.mpr ⟨hp.symbols_le, ?_⟩ }
    -- The member is one of the two tables of its owner.
    split at hmem
    · exact howned.statics _ hmem
    · exact howned.members _ hmem
  | none =>
    refine .bind ((addSymbol_tidy fun s hs => symbol_within_named d.name (some owner)
      fun o ho => ?_).of_imp fun p hp => hp.1) fun symbol =>
        .bind (modifySymbol_tidy fun s hs _ sym hsym => ?_) fun _ => hattach symbol
    · exact Option.some.inj ho ▸ Nat.lt_of_lt_of_le howner hs
    -- The new symbol goes into one of the two tables, and is the only entry that is new.
    · have hput : ∀ t : Table String SymbolId, (∀ e ∈ t.entries, e.2.index < s.symbols.size) →
          ∀ e ∈ (t.put d.name symbol).entries, e.2.index < s.symbols.size := fun t ht e he => by
        rcases Table.mem_entries_put he with rfl | he
        · exact Nat.lt_of_lt_of_le (Nat.le_max_right m _) hs
        · exact ht e he
      split
      · exact { hsym with statics := hput _ hsym.statics }
      · exact { hsym with members := hput _ hsym.members }

/-- A signature of a symbol is attached to it from the start. -/
theorem addSignature_tidy {owner : SymbolId} {d : Declaration} {f : DeclarationId → Symbol → Symbol}
    (howner : owner.index < m)
    (hf : ∀ (s : Store) (id : DeclarationId) (sym : Symbol), id.index < s.declarations.size →
      sym.Within s → (f id sym).Within s) :
    Ensures (Tidy φ none m n)
      (do
        let id ← record { d with symbol := some owner }
        modifyStore (·.modifySymbol owner (f id))) fun _ => Tidy φ none m n :=
  .bind (record_settled (fun _ ho => Option.some.inj ho ▸ howner) (.inr (.inl rfl))) fun id =>
    .weaken (modifySymbol_tidy fun s _ hn sym hsym =>
      hf s id sym (Nat.lt_of_lt_of_le (Nat.le_max_right n _) hn) hsym)
      fun _ _ hp => hp.mono (Nat.le_refl _) (Nat.le_max_left _ _)

/-- A list of numbers below a bound stays below it when one more is added. -/
theorem mem_append_singleton_lt {ids : List DeclarationId} {id : DeclarationId} {bound : Nat}
    (hids : ∀ d ∈ ids, d.index < bound) (hid : id.index < bound) :
    ∀ d ∈ ids ++ [id], d.index < bound := fun d hd => by
  rcases List.mem_append.mp hd with hd | hd
  · exact hids d hd
  · exact List.mem_singleton.mp hd ▸ hid

/-- Adding a construct signature leaves the store tidy. -/
theorem addConstructSignature_tidy {owner : SymbolId} {d : Declaration}
    (howner : owner.index < m) :
    Ensures (Tidy φ none m n) (addConstructSignature owner d) fun _ => Tidy φ none m n :=
  addSignature_tidy howner fun _ _ _ hid hsym =>
    { hsym with constructSignatures := mem_append_singleton_lt hsym.constructSignatures hid }

/-- Adding a call signature leaves the store tidy. -/
theorem addCallSignature_tidy {owner : SymbolId} {d : Declaration}
    (howner : owner.index < m) :
    Ensures (Tidy φ none m n) (addCallSignature owner d) fun _ => Tidy φ none m n :=
  addSignature_tidy howner fun _ _ _ hid hsym =>
    { hsym with callSignatures := mem_append_singleton_lt hsym.callSignatures hid }

/-- Declaring type parameters leaves the store tidy. -/
theorem declareTypeParameters_tidy {node : Node} {scope : ScopeId} {owner : Option SymbolId} :
    Ensures (Tidy φ none m n) (declareTypeParameters node scope owner)
      fun _ => Tidy φ none m n := by
  refine .forM fun param _ => ?_
  split
  · exact .pure fun _ hp => hp
  · refine .bind (declare_keeps rfl) fun _ => ?_
    split
    · exact .pure fun _ hp => hp
    · refine modifySymbol_tidy fun _ _ _ sym hsym => ?_
      split
      · exact hsym
      · exact { hsym with }

/-! ## Classes, types and enumerations -/

/-- Declaring the properties among the parameters of a constructor leaves the store tidy. -/
theorem declareParameterProperties_tidy {owner : SymbolId} {ctor : Node}
    (howner : owner.index < m) :
    Ensures (Tidy φ none m n) (declareParameterProperties owner ctor)
      fun _ => Tidy φ none m n := by
  refine .forM fun param _ => ?_
  split
  · split
    · split
      · exact declareMember_tidy howner rfl
      · exact .pure fun _ hp => hp
    · exact .pure fun _ hp => hp
  · exact .pure fun _ hp => hp

/-- Declaring a method leaves the store tidy. -/
theorem declareMethod_tidy {owner : SymbolId} {member : Node} (howner : owner.index < m) :
    Ensures (Tidy φ none m n) (declareMethod owner member) fun _ => Tidy φ none m n := by
  unfold declareMethod
  dsimp only
  split
  · exact .pure fun _ hp => hp
  · split
    · exact .bind (addConstructSignature_tidy howner) fun _ =>
        declareParameterProperties_tidy howner
    · exact declareMember_tidy howner rfl

/-- Declaring a member of a class leaves the store tidy. -/
theorem declareClassMember_tidy {owner : SymbolId} {member : Node} (howner : owner.index < m) :
    Ensures (Tidy φ none m n) (declareClassMember owner member) fun _ => Tidy φ none m n := by
  unfold declareClassMember
  split
  · exact declareMethod_tidy howner
  · split
    · unfold declareField
      dsimp only
      split
      · exact .pure fun _ hp => hp
      · exact declareMember_tidy howner rfl
    · exact .pure fun _ hp => hp

/-- Declaring a part of an object type leaves the store tidy. -/
theorem declareTypeMember_tidy {owner : SymbolId} {scope : ScopeId} {member : Node}
    (howner : owner.index < m) :
    Ensures (Tidy φ none m n) (declareTypeMember owner scope member)
      fun _ => Tidy φ none m n := by
  -- Type parameters of the part get a scope of their own.
  have hown : Ensures (Tidy φ none m n)
      (if (member.child? .typeParameters).isSome then do
          let inner ← openScope .function member scope
          declareTypeParameters member inner none
        else pure ()) fun _ => Tidy φ none m n := by
    split
    · exact .bind openScope_tidy fun _ => declareTypeParameters_tidy
    · exact .pure fun _ hp => hp
  unfold declareTypeMember
  dsimp only
  split
  · exact .bind (declareMember_tidy howner rfl) fun _ => hown
  · exact .bind (declareMember_tidy howner rfl) fun _ => hown
  · exact .bind (addConstructSignature_tidy howner) fun _ => hown
  · exact .bind (addCallSignature_tidy howner) fun _ => hown
  · exact .pure fun _ hp => hp

/-- Declaring a member of an enumeration leaves the store tidy. -/
theorem declareEnumMember_tidy {owner : SymbolId} {member : Node} (howner : owner.index < m) :
    Ensures (Tidy φ none m n) (declareEnumMember owner member) fun _ => Tidy φ none m n := by
  unfold declareEnumMember
  -- Which construct the name is does not matter.
  generalize (if member.is .enumAssignment then member.child? .name else some member) = nameNode
  dsimp only
  split
  · exact .pure fun _ hp => hp
  · exact declareMember_tidy howner rfl

/-! ## Imports and exports -/

/-- Declaring an imported name leaves the store tidy. -/
theorem declareAlias_tidy {scope : ScopeId} {specifier imported name : String}
    {node nameNode : Node} :
    Ensures (Tidy φ none m n) (declareAlias scope specifier imported name node nameNode)
      fun _ => Tidy φ none m n :=
  .bind (declare_keeps rfl) fun _ => .pure fun _ hp => hp

/-- Binding a part of an import clause leaves the store tidy. -/
theorem bindImportPart_tidy {scope : ScopeId} {specifier : String} {part : Node} :
    Ensures (Tidy φ none m n) (bindImportPart scope specifier part)
      fun _ => Tidy φ none m n := by
  unfold bindImportPart
  -- The whole module, its default export, a list of names.
  split
  · exact declareAlias_tidy
  · split
    · exact declareAlias_tidy
    · exact .pure fun _ hp => hp
  · refine .forM fun item _ => ?_
    split
    · dsimp only
      split
      · exact declareAlias_tidy
      · exact .pure fun _ hp => hp
    · exact .pure fun _ hp => hp
  · exact .pure fun _ hp => hp

/-- Binding an import statement leaves the store tidy. -/
theorem bindImport_tidy {scope : ScopeId} {node : Node} :
    Ensures (Tidy φ none m n) (bindImport scope node) fun _ => Tidy φ none m n := by
  refine .forM fun child _ => ?_
  split
  · exact .forM fun _ _ => bindImportPart_tidy
  · split
    · exact declareAlias_tidy
    · exact .pure fun _ hp => hp
  · exact .pure fun _ hp => hp

/-- Exposing a name leaves the store tidy. -/
theorem expose_tidy {module : ScopeId} {name : String} {entry : ExportEntry}
    (hentry : ∀ symbol, entry = .value symbol → symbol.index < m) :
    Ensures (Tidy φ none m n) (expose module name entry) fun _ => Tidy φ none m n := by
  refine modifyScope_tidy fun s hs sc hsc => ⟨hsc.table, fun e he symbol hsymbol => ?_⟩
  rcases Table.mem_entries_put he with rfl | he
  · exact Nat.lt_of_lt_of_le (hentry symbol hsymbol) hs
  · exact hsc.exports e he symbol hsymbol

/-- Exposing what is declared leaves the store tidy. -/
theorem exposeDeclared_tidy {module : ScopeId} {isDefault : Bool} {declaration : Node} :
    Ensures (Tidy φ none m n) (exposeDeclared module isDefault declaration)
      fun _ => Tidy φ none m n := by
  unfold exposeDeclared
  split
  · split
    · exact expose_tidy nofun
    · exact .pure fun _ hp => hp
  · exact .forM fun _ _ => expose_tidy nofun

/-- Exposing a value leaves the store tidy. -/
theorem exposeValue_tidy {module : ScopeId} {name : String} {value : Node} :
    Ensures (Tidy φ none m n) (exposeValue module name value) fun _ => Tidy φ none m n := by
  unfold exposeValue
  split
  · exact expose_tidy nofun
  · -- The value gets a symbol that only the export leads to.
    refine .bind (addSymbol_tidy fun _ _ => symbol_within_named name none nofun) fun symbol =>
      .bind (record_settled nofun (.inl rfl)) fun d =>
        .bind (attach_tidy (Nat.le_max_right _ _) (Nat.le_max_right _ _) nofun) fun _ =>
          (expose_tidy fun _ hs => ?_).weaken fun _ _ hp =>
            hp.mono (Nat.le_max_left _ _) (Nat.le_max_left _ _)
    exact ExportEntry.value.inj hs ▸ Nat.le_max_right _ _

/-- Exposing the name of a specifier leaves the store tidy. -/
theorem exposeSpecifier_tidy {module : ScopeId} {specifier : Option String} {item : Node} :
    Ensures (Tidy φ none m n) (exposeSpecifier module specifier item)
      fun _ => Tidy φ none m n := by
  unfold exposeSpecifier
  split
  · dsimp only
    split
    · split
      · exact expose_tidy nofun
      · exact expose_tidy nofun
    · exact .pure fun _ hp => hp
  · exact .pure fun _ hp => hp

/-- Exposing the names of a list leaves the store tidy. -/
theorem exposeNames_tidy {module : ScopeId} {node : Node} :
    Ensures (Tidy φ none m n) (exposeNames module node) fun _ => Tidy φ none m n := by
  unfold exposeNames
  dsimp only
  split
  -- A list of names, a star under a name, a plain star.
  · exact .forM fun _ _ => exposeSpecifier_tidy
  · split
    · split
      · exact expose_tidy nofun
      · exact .pure fun _ hp => hp
    · exact .pure fun _ hp => hp
    · split
      · exact modifyScope_tidy fun _ _ _ hsc => ⟨hsc.table, hsc.exports⟩
      · exact .pure fun _ hp => hp
    · exact .pure fun _ hp => hp

/-! ## The walk -/

/-- What binding a construct ensures: the binding is tidy, and what is left are parts with `φ`. -/
abbrev LeavesTidy (φ : Tree → Prop) (m n : Nat) (rest : List Task) (p : Progress) : Prop :=
  Tidy φ none m n p ∧ ∀ t ∈ rest, φ t.node.tree

/-- What the nodes have, their tasks have. -/
theorem forall_tasks {scope enclosing : ScopeId} {nodes : List Node}
    (h : ∀ c ∈ nodes, φ c.tree) : ∀ t ∈ tasks scope enclosing nodes, φ t.node.tree := by
  intro t ht
  obtain ⟨c, hc, rfl⟩ := List.mem_map.mp ht
  exact h c hc

/-- What a part has if there is one, all of its list have. -/
theorem forall_mem_toList {c? : Option Node} (h : ∀ c, c? = some c → φ c.tree) :
    ∀ c ∈ c?.toList, φ c.tree :=
  fun c hc => h c (Option.mem_toList.mp hc)

/-- What two lists have, both together have. -/
theorem forall_mem_append {l l' : List Node} (h : ∀ c ∈ l, φ c.tree) (h' : ∀ c ∈ l', φ c.tree) :
    ∀ c ∈ l ++ l', φ c.tree :=
  fun c hc => (List.mem_append.mp hc).elim (h c) (h' c)

/-- Binding an export statement leaves the store tidy. -/
theorem bindExport_tidy (hφ : Hereditary φ) {scope : ScopeId} {node : Node}
    (hnode : φ node.tree) :
    Ensures (Tidy φ none m n) (bindExport scope node)
      fun rest p => Tidy φ none m n p ∧ ∀ c ∈ rest, φ c.tree := by
  have hone : ∀ c : Node, φ c.tree → ∀ d ∈ [c], φ d.tree :=
    fun c hc d hd => List.mem_singleton.mp hd ▸ hc
  refine .get fun now => .of_imp (P := Tidy φ none m n) ?_ fun _ hp => hp.1
  dsimp only
  split
  · rename_i declaration hd
    exact .bind exposeDeclared_tidy fun _ => .pure fun _ hp =>
      ⟨hp, hone _ (hφ.of_child? hnode hd)⟩
  · split
    · split
      · rename_i value hv
        -- The value has a field of its own or is the last construct.
        have hvalue : φ value.tree := by
          rcases Option.or_eq_some_iff.mp hv with hv | ⟨-, hv⟩
          · exact hφ.of_child? hnode hv
          · exact hφ.of_mem_constructs hnode (List.mem_of_getLast? hv)
        exact .bind exposeValue_tidy fun _ => .pure fun _ hp => ⟨hp, hone _ hvalue⟩
      · exact .pure fun _ hp => ⟨hp, nofun⟩
    · exact .bind exposeNames_tidy fun _ => .pure fun _ hp => ⟨hp, nofun⟩

/-- Declaring parameters leaves the store tidy. -/
theorem declareParameters_tidy {inner : ScopeId} {node : Node} :
    Ensures (Tidy φ none m n) (declareParameters inner node) fun _ => Tidy φ none m n := by
  have hmany : Ensures (Tidy φ none m n)
      ((node.constructsIn .parameters).forM fun param => (boundNames param).forM fun name => do
        let _ ← declare inner
          { kind := .parameter, name := name.text, node := param, nameNode := some name })
      fun _ => Tidy φ none m n :=
    .forM fun _ _ => .forM fun _ _ => .bind (declare_keeps rfl) fun _ => .pure fun _ hp => hp
  unfold declareParameters
  split
  · exact .bind (declare_keeps rfl) fun _ => hmany
  · exact hmany

/-- Declaring variables leaves the store tidy. -/
theorem declareVariables_tidy {scope : ScopeId} {node : Node} {names : List Node} :
    Ensures (Tidy φ none m n) (declareVariables scope node names) fun _ => Tidy φ none m n :=
  .forM fun _ _ => .bind (declare_keeps rfl) fun _ => .pure fun _ hp => hp

/-- The constructs that `bindFunction` is for. -/
def functionKinds : List Kind :=
  [.functionDeclaration, .generatorFunctionDeclaration, .functionSignature, .functionExpression,
    .generatorFunction, .arrowFunction, .methodDefinition]

/-- Of the functions that are recorded, a function expression with a name is still to be
attached. -/
theorem recordFunction_tidy {t : Task} (ht : φ t.node.tree)
    (hkind : t.node.isOneOf functionKinds = true) :
    Ensures (Tidy φ none m n) (recordFunction t) fun expression =>
      Tidy φ ((t.node.child? .name).bind fun _ => expression) m
        (max n (expression.elim 0 (·.index + 1))) := by
  have hnone : ∀ p, Tidy φ none m n p →
      Tidy φ ((t.node.child? .name).bind fun _ => none) m (max n 0) p := fun p hp => by
    rw [Option.bind_fun_none]
    exact hp.mono (Nat.le_refl _) (Nat.max_le.mpr ⟨Nat.le_refl _, Nat.zero_le _⟩)
  unfold recordFunction
  dsimp only
  -- Declarations of functions are bound where they stand, expressions and methods only recorded.
  split
  · split
    · exact .bind (declare_keeps rfl) fun _ => .pure hnone
    · exact .pure hnone
  · rename_i hdeclaration
    split
    · refine .map ?_
      cases hname : t.node.child? .name with
      | none => exact record_settled nofun (.inl rfl)
      | some name => exact record_pending rfl
    · rename_i hexpression
      split
      · refine .bind (record_settled nofun (.inr (.inr ⟨ht, ?_, rfl⟩))) fun _ =>
          .pure fun p hp => hnone p (hp.mono (Nat.le_refl _) (Nat.le_max_left _ _))
        -- No other kind of function is left.
        simp only [functionKinds, isFunctionExpression, Node.isOneOf, List.any_cons, List.any_nil,
          Bool.or_eq_true, Bool.or_false, not_or, Bool.not_eq_true]
          at hkind hdeclaration hexpression
        simp_all
      · exact .pure hnone

/-- Binding a function leaves the store tidy, and constructs with what is handed down. -/
theorem bindFunction_tidy (hφ : Hereditary φ) {t : Task} (ht : φ t.node.tree)
    (hkind : t.node.isOneOf functionKinds = true) :
    Ensures (Tidy φ none m n) (bindFunction t) (LeavesTidy φ m n) := by
  refine .bind (recordFunction_tidy ht hkind) fun expression => .bind openScope_tidy fun inner => ?_
  -- The parameters and the body stand in the scope of the function.
  have hinside : Ensures (Tidy φ none m n) (do
      declareTypeParameters t.node inner none
      declareParameters inner t.node
      return tasks inner inner (t.node.constructsIn .parameters ++ (t.node.child? .body).toList))
      (LeavesTidy φ m n) :=
    .bind declareTypeParameters_tidy fun _ => .bind declareParameters_tidy fun _ =>
      .pure fun _ hp => ⟨hp, forall_tasks (forall_mem_append
        (fun _ hc => hφ.of_mem_constructsIn ht hc) (forall_mem_toList fun _ hc =>
          hφ.of_child? ht hc))⟩
  have hplain : ∀ k p, Tidy φ none m (max n k) p → Tidy φ none m n p := fun _ _ hp =>
    hp.mono (Nat.le_refl _) (Nat.le_max_left _ _)
  cases expression with
  | none =>
    rw [Option.bind_fun_none]
    exact hinside.of_imp (hplain _)
  | some d =>
    cases hname : t.node.child? .name with
    | none => exact hinside.of_imp (hplain _)
    -- A function expression with a name declares it inside itself.
    | some name =>
      exact .bind (attachIn_tidy (Nat.le_max_right _ _) fun _ h => Option.some.inj h.symm)
        fun _ => hinside.of_imp fun _ hp => hp.mono (Nat.le_max_left _ _) (Nat.le_max_left _ _)

/-- Binding variables leaves the store tidy, and constructs with what is handed down. -/
theorem bindVariables_tidy (hφ : Hereditary φ) {t : Task} (ht : φ t.node.tree) :
    Ensures (Tidy φ none m n) (bindVariables t) (LeavesTidy φ m n) := by
  refine .bind (.forM fun _ _ => declareVariables_tidy) fun _ => .pure fun _ hp =>
    ⟨hp, forall_tasks fun c hc => ?_⟩
  obtain ⟨d, hd, hc⟩ := List.mem_filterMap.mp hc
  exact hφ.of_child? (hφ.of_mem_constructs ht (List.mem_filter.mp hd).1) hc

/-- Binding a loop over items leaves the store tidy, and constructs with what is handed down. -/
theorem bindIteration_tidy (hφ : Hereditary φ) {t : Task} (ht : φ t.node.tree) :
    Ensures (Tidy φ none m n) (bindIteration t) (LeavesTidy φ m n) := by
  refine .bind openScope_tidy fun inner => ?_
  have hrest : ∀ p, Tidy φ none m n p → LeavesTidy φ m n (tasks inner t.enclosing
      ((t.node.child? .right).toList ++ (t.node.child? .body).toList)) p := fun p hp =>
    ⟨hp, forall_tasks (forall_mem_append (forall_mem_toList fun _ hc => hφ.of_child? ht hc)
      (forall_mem_toList fun _ hc => hφ.of_child? ht hc))⟩
  dsimp only
  split
  · exact .bind declareVariables_tidy fun _ => .pure hrest
  · exact .pure hrest

/-- Binding a handler of exceptions leaves the store tidy, and constructs with what is handed down.
-/
theorem bindHandler_tidy (hφ : Hereditary φ) {t : Task} (ht : φ t.node.tree) :
    Ensures (Tidy φ none m n) (bindHandler t) (LeavesTidy φ m n) :=
  .bind openScope_tidy fun _ => .bind declareVariables_tidy fun _ => .pure fun _ hp =>
    ⟨hp, forall_tasks (forall_mem_toList fun _ hc => hφ.of_child? ht hc)⟩

/-- Binding an ambient declaration leaves the store tidy, and constructs with what is handed down.
-/
theorem bindAmbient_tidy (hφ : Hereditary φ) {t : Task} (ht : φ t.node.tree) :
    Ensures (Tidy φ none m n) (bindAmbient t) (LeavesTidy φ m n) := by
  unfold bindAmbient
  split
  · refine .get fun now => .of_imp (P := Tidy φ none m n) ?_ fun _ hp => hp.1
    dsimp only
    split
    · rename_i block hblock
      have hφblock := hφ.of_mem_constructs ht (List.mem_of_find?_eq_some hblock)
      exact .pure fun _ hp => ⟨hp, forall_tasks fun _ hc => hφ.of_mem_children hφblock hc⟩
    · exact .pure fun _ hp => ⟨hp, nofun⟩
  · exact .pure fun _ hp => ⟨hp, forall_tasks fun _ hc => hφ.of_mem_children ht hc⟩

/-- Declaring a class leaves the store tidy, the new symbol included. -/
theorem declareClass_tidy {t : Task} :
    Ensures (Tidy φ none m n) (declareClass t)
      fun symbol => Tidy φ none (max m (symbol.index + 1)) n := by
  unfold declareClass
  split
  rename_i name nameNode _
  dsimp only
  split
  · exact declare_tidy rfl
  -- A symbol that no scope knows is added by itself.
  · exact .bind (addSymbol_tidy fun _ _ => symbol_within_named name none nofun) fun symbol =>
      .bind (record_pending rfl) fun id => .bind (attach_tidy (Nat.le_max_right _ _)
        (Nat.le_max_right _ _) fun _ h => Option.some.inj h.symm) fun _ => .pure fun _ hp =>
          hp.mono (Nat.le_refl _) (Nat.le_max_left _ _)

/-- Binding a class leaves the store tidy, and constructs with what is handed down. -/
theorem bindClass_tidy (hφ : Hereditary φ) {t : Task} (ht : φ t.node.tree) :
    Ensures (Tidy φ none m n) (bindClass t) (LeavesTidy φ m n) := by
  refine .bind declareClass_tidy fun symbol => .bind openScope_tidy fun inner => ?_
  -- The symbol of the class is in the store from here on.
  have hs : symbol.index < max m (symbol.index + 1) := Nat.le_max_right _ _
  have hrest : Ensures (Tidy φ none (max m (symbol.index + 1)) n) (do
      declareTypeParameters t.node inner symbol
      (t.node.constructsIn .body).forM (declareClassMember symbol)
      return tasks inner t.enclosing t.node.namedChildren) (LeavesTidy φ m n) :=
    .bind declareTypeParameters_tidy fun _ => .bind
      (.forM fun _ _ => declareClassMember_tidy hs) fun _ => .pure fun _ hp =>
        ⟨hp.mono (Nat.le_max_left _ _) (Nat.le_refl _), forall_tasks fun _ hc =>
          hφ.of_mem_children ht (List.mem_filter.mp hc).1⟩
  dsimp only
  split
  · exact .bind (enter_tidy hs) fun _ => hrest
  · exact hrest

/-- Binding an interface leaves the store tidy. -/
theorem bindInterface_tidy {t : Task} :
    Ensures (Tidy φ none m n) (bindInterface t) fun _ => Tidy φ none m n := by
  unfold bindInterface
  split
  · exact .pure fun _ hp => hp
  · refine .bind (declare_tidy rfl) fun symbol => .bind openScope_tidy fun inner =>
      .bind declareTypeParameters_tidy fun _ => .weaken (.forM fun _ _ =>
        declareTypeMember_tidy (Nat.le_max_right _ _)) fun _ _ hp =>
          hp.mono (Nat.le_max_left _ _) (Nat.le_refl _)

/-- Binding a type alias leaves the store tidy. -/
theorem bindTypeAlias_tidy {t : Task} :
    Ensures (Tidy φ none m n) (bindTypeAlias t) fun _ => Tidy φ none m n := by
  unfold bindTypeAlias
  split
  · exact .pure fun _ hp => hp
  · refine .bind (declare_tidy rfl) fun symbol => .bind openScope_tidy fun inner =>
      .bind declareTypeParameters_tidy fun _ => .weaken (Q := fun _ =>
        Tidy φ none (max m (symbol.index + 1)) n) ?_ fun _ _ hp =>
          hp.mono (Nat.le_max_left _ _) (Nat.le_refl _)
    -- Only an alias of an object type has parts.
    split
    · split
      · exact .forM fun _ _ => declareTypeMember_tidy (Nat.le_max_right _ _)
      · exact .pure fun _ hp => hp
    · exact .pure fun _ hp => hp

/-- Binding an enumeration leaves the store tidy. -/
theorem bindEnum_tidy {t : Task} :
    Ensures (Tidy φ none m n) (bindEnum t) fun _ => Tidy φ none m n := by
  unfold bindEnum
  split
  · exact .pure fun _ hp => hp
  · exact .bind (declare_tidy rfl) fun symbol => .weaken (.forM fun _ _ =>
      declareEnumMember_tidy (Nat.le_max_right _ _)) fun _ _ hp =>
        hp.mono (Nat.le_max_left _ _) (Nat.le_refl _)

/-- Binding a namespace or a module leaves the store tidy, and constructs with what is handed down.
-/
theorem bindModule_tidy (hφ : Hereditary φ) {t : Task} (ht : φ t.node.tree) :
    Ensures (Tidy φ none m n) (bindModule t) (LeavesTidy φ m n) := by
  unfold bindModule
  split
  · exact .pure fun _ hp => ⟨hp, nofun⟩
  refine .bind openScope_tidy fun inner => ?_
  -- The statements of the body are handed down in the scope of the block.
  have hbody : ∀ p, Tidy φ none m n p →
      LeavesTidy φ m n (tasks inner inner
        ((t.node.child? .body).toList.flatMap Node.children)) p := by
    refine fun p hp => ⟨hp, forall_tasks fun c hc => ?_⟩
    obtain ⟨body, hbody, hc⟩ := List.mem_flatMap.mp hc
    exact hφ.of_mem_children (hφ.of_child? ht (Option.mem_toList.mp hbody)) hc
  dsimp only
  split
  · -- A quoted module is found by its specifier.
    exact .bind (modifyScope_tidy fun _ _ _ hsc => ⟨hsc.table, hsc.exports⟩) fun _ =>
      .bind (R := fun _ => Tidy φ none m n) (fun p hp => { hp with names := hp.names })
        fun _ => .pure hbody
  · -- The blocks of a namespace declare among the statics of its symbol.
    refine .bind (declare_tidy rfl) fun symbol => .bind (modifyScope_tidy fun s hs _ hsc =>
      ⟨Nat.lt_of_lt_of_le (Nat.le_max_right m _) hs, hsc.exports⟩) fun _ => .pure fun p hp =>
        hbody p (hp.mono (Nat.le_max_left _ _) (Nat.le_refl _))

/-- Binding one construct leaves the store tidy, and constructs with what is handed down. -/
theorem bindTask_tidy (hφ : Hereditary φ) {t : Task} (ht : φ t.node.tree) :
    Ensures (Tidy φ none m n) (bindTask t) (LeavesTidy φ m n) := by
  have hchildren : ∀ {scope enclosing : ScopeId}, ∀ rest ∈ tasks scope enclosing t.node.children,
      φ rest.node.tree := forall_tasks fun _ hc => hφ.of_mem_children ht hc
  have hblock : Ensures (Tidy φ none m n) (do
      let inner ← openScope .block t.node t.scope
      return tasks inner t.enclosing t.node.children) (LeavesTidy φ m n) :=
    .bind openScope_tidy fun _ => .pure fun _ hp => ⟨hp, hchildren⟩
  -- Some constructs leave nothing to be bound inside them.
  have hnone : ∀ {action : Bind Unit}, Ensures (Tidy φ none m n) action
      (fun _ => Tidy φ none m n) →
      Ensures (Tidy φ none m n) (do action; return []) (LeavesTidy φ m n) := fun h =>
    .bind h fun _ => .pure fun _ hp => ⟨hp, nofun⟩
  -- All kinds of functions are bound alike.
  have hfunction : ∀ {k : Kind}, t.node.kind? = some k → k ∈ functionKinds →
      Ensures (Tidy φ none m n) (bindFunction t) (LeavesTidy φ m n) := fun hk hmem =>
    bindFunction_tidy hφ ht (List.any_eq_true.mpr ⟨_, hmem, Node.is_of_kind? hk⟩)
  -- One case for each kind of construct, in the order of the definition.
  unfold bindTask
  split
  · exact hfunction ‹_› (by decide)
  · exact hfunction ‹_› (by decide)
  · exact hfunction ‹_› (by decide)
  · exact hfunction ‹_› (by decide)
  · exact hfunction ‹_› (by decide)
  · exact hfunction ‹_› (by decide)
  · exact hfunction ‹_› (by decide)
  · exact bindClass_tidy hφ ht
  · exact bindClass_tidy hφ ht
  · exact bindClass_tidy hφ ht
  · exact hnone bindInterface_tidy
  · exact hnone bindTypeAlias_tidy
  · exact hnone bindEnum_tidy
  · exact bindVariables_tidy hφ ht
  · exact bindVariables_tidy hφ ht
  · exact hnone bindImport_tidy
  · exact .bind (bindExport_tidy hφ ht) fun rest => .pure fun _ hp =>
      ⟨hp.1, forall_tasks hp.2⟩
  · exact bindAmbient_tidy hφ ht
  · exact bindModule_tidy hφ ht
  · exact bindModule_tidy hφ ht
  · exact hblock
  · exact hblock
  · exact bindIteration_tidy hφ ht
  · exact bindHandler_tidy hφ ht
  · exact .pure fun _ hp => ⟨hp, hchildren⟩

/-- Binding a construct with all that it contains leaves the store tidy. -/
theorem bindFrom_tidy (hφ : Hereditary φ) (depth : Nat) {t : Task} (ht : φ t.node.tree) :
    Ensures (Tidy φ none m n) (bindFrom depth t) fun _ => Tidy φ none m n := by
  -- What a construct leaves are parts of it, so the walk can go on.
  induction depth generalizing t with
  | zero => exact .pure fun _ hp => hp
  | succ depth ih =>
    exact .bind (bindTask_tidy hφ ht) fun rest => .of_fact fun hrest =>
      .forM fun inside hinside => ih (hrest inside hinside)

end Bind

/-- Binding a file into a self-contained store leaves it so, and leaves names that lead to
declarations that are attached or to methods. -/
theorem bind_tidy {φ : Tree → Prop} (hφ : Hereditary φ) {file : Source} (hfile : φ file.tree)
    {base : Store} (hbase : base.SelfContained) :
    Bind.Tidy φ none 0 0 ⟨(bind file base).2, (bind file base).1⟩ := by
  let module : Scope := { kind := .module, node := file.root, parent := none }
  have hstart : Bind.Tidy φ none 0 0 ⟨(base.addScope module).2,
      { source := file, moduleScope := (base.addScope module).1
        scopes := Table.empty.put file.root.key (base.addScope module).1 }⟩ :=
    ⟨hbase.addScope ⟨nofun, nofun⟩, Nat.zero_le _, Nat.zero_le _, nofun⟩
  -- The walk starts with the children of the root.
  have hwalk : Ensures (Bind.Tidy φ none 0 0)
      ((tasks (base.addScope module).1 (base.addScope module).1 file.root.children).forM
        (Bind.bindFrom file.tree.size)) fun _ => Bind.Tidy φ none 0 0 :=
    .forM fun t ht => Bind.bindFrom_tidy hφ _ (Bind.forall_tasks
      (fun _ hc => hφ.of_mem_children (n := file.root) hfile hc) t ht)
  exact hwalk _ hstart

/-- Binding a file into a self-contained store leaves it so. -/
theorem bind_selfContained (file : Source) {base : Store} (hbase : base.SelfContained) :
    (bind file base).2.SelfContained :=
  (bind_tidy (φ := fun _ => True) (fun _ _ _ _ => trivial) trivial hbase).store

end ScriptGraph.Binding
