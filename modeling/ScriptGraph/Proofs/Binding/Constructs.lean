import ScriptGraph.Proofs.Binding.Declared
import ScriptGraph.Proofs.Binding.Scopes
import ScriptGraph.Proofs.Syntax.Layout

/-!
# What is found at a construct

Of the declarations that are recorded at a construct, the first one is found there, and whatever is
bound later leaves it as it is. A statement at the top of a file comes after all that is recorded in
the statements before it, and no construct in these stands where it does. So what a statement
declares first at its own construct is found there when the file has been bound. The same is true of
a declaration that is exported where it stands.

- `Bind.Step.declaration_eq`: a step of binding changes no declaration that is there
- `Bind.DeclaredAs`: what is found at a construct
- `exists_reached`: the state in which the walk comes to a statement, and what comes after it
-/

namespace ScriptGraph.Binding

open Syntax

/-- No change makes a store smaller. -/
theorem Store.Change.noSmaller {s next : Store} (h : s.Change next) : s.NoSmaller next := by
  -- A new entry at the end, or a change in place: one rule for each kind of change.
  cases h with
  | symbol => exact s.noSmaller_addSymbol _
  | declaration => exact s.noSmaller_addDeclaration _
  | scope => exact s.noSmaller_addScope _
  | enter => exact s.noSmaller_putSymbol _ _ _
  | attach => exact s.noSmaller_attach _ _
  | member => exact s.noSmaller_modifySymbol _ _
  | static => exact s.noSmaller_modifySymbol _ _
  | constructs => exact s.noSmaller_modifySymbol _ _
  | calls => exact s.noSmaller_modifySymbol _ _
  | typeParameter => exact s.noSmaller_modifySymbol _ _
  | exposed => exact s.noSmaller_modifyScope _ _
  | star => exact s.noSmaller_modifyScope _ _
  | ambient => exact s.noSmaller_modifyScope _ _
  | block => exact s.noSmaller_modifyScope _ _

namespace Bind

open Store

variable {φ : Node → Prop} {p q : Progress} {key : NodeKey} {id : DeclarationId} {n : Node}
  {kind : DeclarationKind} {s : SymbolId}

/-! ## Declarations that are there -/

/-- A step of binding makes no store smaller. -/
theorem Step.noSmaller (h : Step φ p q) : p.store.NoSmaller q.store :=
  Relation.ReflTransGen.trans_induction_on h.leads.store (fun s => .refl s)
    (fun hchange => hchange.noSmaller) fun _ _ hfirst hlast => hfirst.trans hlast

/-- Attaching a declaration changes no other one. -/
theorem attachIn_declaration_of_ne (p : Progress) (scope : ScopeId) (name : String)
    {d : DeclarationId} (hne : d ≠ id) :
    ((attachIn scope name d).run p).2.store.declaration id = p.store.declaration id := by
  rw [attachIn_store]
  split
  · rw [declaration_attach, if_neg fun h => hne h.1]
  · dsimp only
    rw [declaration_attach, if_neg fun h => hne h.1, declaration_putSymbol]
    rfl

/-- A step of binding leaves the declarations that are there as they are: it attaches only what it
has recorded itself. -/
theorem Step.declaration_eq (h : Step φ p q) (hid : id.index < p.store.declarations.size) :
    q.store.declaration id = p.store.declaration id := by
  -- The step attaches the declaration that it records, which is a new one.
  have hne : (⟨p.store.declarations.size⟩ : DeclarationId) ≠ id := by
    rintro rfl
    exact Nat.lt_irrefl _ hid
  have hadded : ∀ d, (p.store.addDeclaration d).2.declaration id = p.store.declaration id :=
    fun d => by rw [declaration_addDeclaration, if_neg (Nat.ne_of_lt hid)]
  -- Attaching it to a symbol changes no declaration but this one.
  have hattached : ∀ (st : Store) (x : SymbolId),
      (st.attach x ⟨p.store.declarations.size⟩).declaration id = st.declaration id :=
    fun st x => by rw [declaration_attach, if_neg fun h => hne h.1]
  cases h with
  | scope => rfl
  | declare scope d =>
    exact (attachIn_declaration_of_ne ((record d).run p).2 scope d.name hne).trans (hadded d)
  | within scope d =>
    let opened := (openScope .function d.node scope).run ((record d).run p).2
    exact (attachIn_declaration_of_ne opened.2 opened.1 d.name hne).trans (hadded d)
  | introduced d => exact (hattached _ _).trans (hadded d)
  | introducedWithin scope d =>
    exact (declaration_putSymbol _ _ _ _ _).trans ((hattached _ _).trans (hadded d))
  | unattached d => exact hadded d
  | member owner d =>
    rw [declareMember_store]
    dsimp only
    split
    · exact (hattached _ _).trans (hadded d)
    · exact (hattached _ _).trans (hadded d)
  | constructs owner d => exact hadded _
  | calls owner d => exact hadded _
  | typeParameter => rfl
  | exposed => rfl
  | star => rfl
  | ambient => rfl
  | block => rfl
  | quoted => rfl

/-! ## Declarations at constructs -/

/-- Attaching in a scope leaves what is found at constructs. -/
theorem attachIn_binding (p : Progress) (scope : ScopeId) (name : String) (d : DeclarationId) :
    ((attachIn scope name d).run p).2.binding = p.binding := by
  unfold attachIn
  rw [run_get_bind]
  dsimp only
  cases (p.store.symbolsOf scope).find? name <;> rfl

/-- A member is found at its construct once it has been recorded. -/
theorem declareMember_binding (p : Progress) (owner : SymbolId) (d : Declaration) :
    ((declareMember owner d).run p).2.binding = ((record d).run p).2.binding := by
  have hrecord : ∀ f : DeclarationId → Bind Unit,
      (record d >>= f).run p = (f ((record d).run p).1).run ((record d).run p).2 := fun _ => rfl
  unfold declareMember
  rw [hrecord, run_get_bind]
  dsimp only
  cases (if d.isStatic then (((record d).run p).2.store.symbol owner).statics
    else (((record d).run p).2.store.symbol owner).members).find? d.name <;> rfl

/-- What is found at constructs stays there, apart from one construct at which something may be
found for the first time. -/
theorem Step.declarations_eq (h : Step φ p q) : q.binding.declarations = p.binding.declarations ∨
    ∃ n id, φ n ∧ q.binding.declarations = p.binding.declarations.putNew n.key id := by
  -- Every step records at most one declaration, at its own construct.
  have hrecorded : ∀ d : Declaration, φ d.node → ((record d).run p).2.binding.declarations =
      p.binding.declarations ∨ ∃ n id, φ n ∧ ((record d).run p).2.binding.declarations =
        p.binding.declarations.putNew n.key id := fun d hd => .inr ⟨d.node, _, hd, rfl⟩
  cases h with
  | scope => exact .inl rfl
  -- Attaching changes the store alone, so the tables by node are those after recording.
  | declare scope d hd hφ =>
    have hrun := attachIn_binding ((record d).run p).2 scope d.name ⟨p.store.declarations.size⟩
    rw [show ((Bind.declare scope d).run p).2.binding = ((record d).run p).2.binding from hrun]
    exact hrecorded d hφ
  | within scope d hd hφ =>
    let opened := (openScope .function d.node scope).run ((record d).run p).2
    have hrun := attachIn_binding opened.2 opened.1 d.name ⟨p.store.declarations.size⟩
    rw [show ((declareWithin scope d).run p).2.binding = opened.2.binding from hrun]
    exact hrecorded d hφ
  | introduced d hd hφ => exact hrecorded d hφ
  | introducedWithin scope d hd hφ => exact hrecorded d hφ
  | unattached d hd hφ => exact hrecorded d hφ
  | member owner d hd hφ =>
    rw [declareMember_binding]
    exact hrecorded d hφ
  | constructs owner d hφ => exact hrecorded { d with symbol := some owner } hφ
  | calls owner d hφ => exact hrecorded { d with symbol := some owner } hφ
  | typeParameter => exact .inl rfl
  | exposed => exact .inl rfl
  | star => exact .inl rfl
  | ambient => exact .inl rfl
  | block => exact .inl rfl
  | quoted => exact .inl rfl

/-- Nothing is found at a construct as long as declarations are of other constructs. -/
theorem Steps.find?_eq_none (h : Steps φ p q) (hφ : ∀ n, φ n → n.key ≠ key)
    (hp : p.binding.declarations.find? key = none) : q.binding.declarations.find? key = none := by
  induction h with
  | refl => exact hp
  | tail _ hlast ih =>
    rcases hlast.declarations_eq with heq | ⟨n, id, hn, heq⟩
    · rw [heq, ih]
    · rw [heq, Table.find?_putNew, ih, if_neg (hφ n hn)]
      rfl

/-- The declaration that is found at a construct is of a kind, and belongs to a symbol. -/
def DeclaredAs (p : Progress) (n : Node) (kind : DeclarationKind) (s : SymbolId) : Prop :=
  ∃ id, p.binding.declarations.find? n.key = some id ∧ (p.store.declaration id).kind = kind ∧
    (p.store.declaration id).symbol = some s

/-- It stays so whatever else is bound. -/
theorem DeclaredAs.step (h : DeclaredAs p n kind s) (hstep : Step φ p q) :
    DeclaredAs q n kind s := by
  obtain ⟨id, hfind, hkind, hsymbol⟩ := h
  have hsame := hstep.declaration_eq (index_lt_of_symbol_eq hsymbol)
  refine ⟨id, ?_, by rw [hsame, hkind], by rw [hsame, hsymbol]⟩
  rcases hstep.declarations_eq with heq | ⟨m, other, -, heq⟩
  · rw [heq, hfind]
  · rw [heq, Table.find?_putNew, hfind]
    rfl

/-- It stays so through any number of steps. -/
theorem DeclaredAs.steps (h : DeclaredAs p n kind s) (hsteps : Steps φ p q) :
    DeclaredAs q n kind s := by
  induction hsteps with
  | refl => exact h
  | tail _ hlast ih => exact ih.step hlast

/-- It stays so through the rest of an action. -/
theorem DeclaredAs.seq {α β : Type} {R : β → Prop} {x : Bind α} {f : α → Bind β}
    (h : DeclaredAs (x.run p).2 n kind s) (hf : ∀ a, Takes φ R (f a)) :
    DeclaredAs ((x >>= f).run p).2 n kind s :=
  h.steps (hf _ _).1

/-! ## What is declared first at its construct -/

/-- The symbol of a name in a scope, or the one that is added when the scope has none. -/
def nameSymbol (st : Store) (scope : ScopeId) (name : String) : SymbolId :=
  ((st.symbolsOf scope).find? name).getD ⟨st.symbols.size⟩

/-- What is attached in a scope goes to the symbol of its name. -/
theorem attachIn_result (p : Progress) (scope : ScopeId) (name : String) (d : DeclarationId) :
    ((attachIn scope name d).run p).1 = nameSymbol p.store scope name := by
  unfold attachIn nameSymbol
  rw [run_get_bind]
  dsimp only
  cases (p.store.symbolsOf scope).find? name <;> rfl

/-- What is declared in a scope goes to the symbol of its name. -/
theorem declare_result (p : Progress) (scope : ScopeId) (d : Declaration) :
    ((declare scope d).run p).1 = nameSymbol p.store scope d.name :=
  attachIn_result ((record d).run p).2 scope d.name ⟨p.store.declarations.size⟩

/-- The symbol that something is attached to in a scope is there afterwards. -/
theorem nameSymbol_index_lt (hlinked : p.store.Linked) (scope : ScopeId) (d : Declaration) :
    (nameSymbol p.store scope d.name).index <
      ((declare scope d).run p).2.store.symbols.size := by
  have hattached : ∀ {x : SymbolId} {s : Store} {id : DeclarationId},
      x.index < s.symbols.size → x.index < (s.attach x id).symbols.size := fun h =>
    (noSmaller_attach _ _ _).symbol_lt h
  have hrun : ((declare scope d).run p).2 =
      ((attachIn scope d.name ⟨p.store.declarations.size⟩).run ((record d).run p).2).2 := rfl
  have hfound : ((record d).run p).2.store.symbolsOf scope = p.store.symbolsOf scope := rfl
  rw [hrun, attachIn_store, hfound, nameSymbol]
  -- The name is in the scope already, or it gets a new symbol that is put there.
  cases hfind : (p.store.symbolsOf scope).find? d.name with
  | some x =>
    have hstands : p.store.StandsUnder d.name x :=
      hlinked.standsUnder scope _ (Table.mem_entries_of_find? hfind)
    exact hattached hstands.index_lt
  | none =>
    refine hattached (Nat.lt_of_lt_of_le ?_ (noSmaller_putSymbol _ _ _ _).symbols_le)
    exact Nat.lt_of_lt_of_eq (Nat.lt_succ_self _) (Array.size_push _).symm

/-- What is attached in a scope belongs to the symbol of its name. -/
theorem attachIn_symbol (scope : ScopeId) (name : String) {d : DeclarationId}
    (hd : d.index < p.store.declarations.size) :
    ((attachIn scope name d).run p).2.store.declaration d =
      { p.store.declaration d with symbol := some (nameSymbol p.store scope name) } := by
  rw [attachIn_store, nameSymbol]
  cases (p.store.symbolsOf scope).find? name with
  | some x => exact (declaration_attach _ _ _ _).trans (if_pos ⟨rfl, hd⟩)
  | none =>
    have hsize := (noSmaller_putSymbol (p.store.addSymbol { name }).2 scope name
      ⟨p.store.symbols.size⟩).declarations_le
    dsimp only
    rw [declaration_attach, if_pos ⟨rfl, Nat.lt_of_lt_of_le hd hsize⟩, declaration_putSymbol]
    rfl

variable {d : Declaration}

/-- What is recorded first at a construct is found there. -/
theorem find?_record (hnew : p.binding.declarations.find? d.node.key = none) :
    ((record d).run p).2.binding.declarations.find? d.node.key =
      some ⟨p.store.declarations.size⟩ := by
  show (p.binding.declarations.putNew d.node.key ⟨p.store.declarations.size⟩).find? d.node.key = _
  rw [Table.find?_putNew, hnew, if_pos rfl]
  rfl

/-- A declaration that is recorded is the last one. -/
theorem declaration_record (p : Progress) (d : Declaration) :
    ((record d).run p).2.store.declaration ⟨p.store.declarations.size⟩ = d :=
  (declaration_addDeclaration p.store d _).trans (if_pos rfl)

/-- Recording makes room for the declaration. -/
theorem index_lt_record (p : Progress) (d : Declaration) :
    p.store.declarations.size < ((record d).run p).2.store.declarations.size := by
  show _ < (p.store.declarations.push d).size
  rw [Array.size_push]
  exact Nat.lt_succ_self _

/-- What is declared in a scope at a new construct is found there. -/
theorem declare_declaredAs (scope : ScopeId)
    (hnew : p.binding.declarations.find? d.node.key = none) :
    DeclaredAs ((declare scope d).run p).2 d.node d.kind (nameSymbol p.store scope d.name) := by
  let recorded := ((record d).run p).2
  have hrun : ((declare scope d).run p).2 =
      ((attachIn scope d.name ⟨p.store.declarations.size⟩).run recorded).2 := rfl
  have hsymbol := attachIn_symbol (p := recorded) scope d.name (d := ⟨p.store.declarations.size⟩)
    (index_lt_record p d)
  -- Attaching in a scope does not touch the tables by which constructs are found.
  have hmade : recorded.store.declaration ⟨p.store.declarations.size⟩ = d := declaration_record p d
  refine ⟨⟨p.store.declarations.size⟩, ?_, ?_, ?_⟩
  · rw [hrun, attachIn_binding, find?_record hnew]
  · rw [hrun, hsymbol, hmade]
  · rw [hrun, hsymbol]
    rfl

/-- So is what gets a symbol that no scope knows. -/
theorem introduce_declaredAs (hnew : p.binding.declarations.find? d.node.key = none) :
    DeclaredAs ((introduce d).run p).2 d.node d.kind ⟨p.store.symbols.size⟩ := by
  have hrun : ((introduce d).run p).2.store.declaration ⟨p.store.declarations.size⟩ =
      { d with symbol := some ⟨p.store.symbols.size⟩ } := by
    have hmade := declaration_record p d
    refine (declaration_attach _ _ _ _).trans ?_
    rw [if_pos ⟨rfl, index_lt_record p d⟩]
    exact congrArg (fun d : Declaration => { d with symbol := some ⟨p.store.symbols.size⟩ }) hmade
  exact ⟨⟨p.store.declarations.size⟩, find?_record hnew, by rw [hrun], by rw [hrun]⟩

/-- So is what is known only in the scope that its own construct opens. -/
theorem introduceWithin_declaredAs (scope : ScopeId)
    (hnew : p.binding.declarations.find? d.node.key = none) :
    DeclaredAs ((introduceWithin scope d).run p).2 d.node d.kind ⟨p.store.symbols.size⟩ := by
  obtain ⟨id, hfind, hkind, hsymbol⟩ := introduce_declaredAs hnew
  have hsame : ((introduceWithin scope d).run p).2.store.declaration id =
      ((introduce d).run p).2.store.declaration id := declaration_putSymbol _ _ _ _ _
  exact ⟨id, hfind, by rw [hsame, hkind], by rw [hsame, hsymbol]⟩

/-- A class is found at its construct if nothing has been found there before. -/
theorem bindClass_declaredAs {t : Task} (hnew : p.binding.declarations.find? t.node.key = none) :
    ∃ s, DeclaredAs ((bindClass t).run p).2 t.node .class s := by
  have hinside := classInside_takes (φ := fun _ => True) (fun _ _ _ _ => trivial) (t := t) trivial
  -- A class expression with a name gets a scope for its name; any other class is declared where it
  -- stands.
  by_cases hnamed : t.node.is .classExpression = true ∧ (classNameOf t.node).2.isSome = true
  · rw [bindClass_eq hnamed.1 hnamed.2]
    exact ⟨_, (introduceWithin_declaredAs (d := classDeclared t.node) t.scope hnew).steps
      (hinside _ _ _).1⟩
  · have hdeclared : ∃ s, DeclaredAs ((declareClass t).run p).2 t.node .class s := by
      unfold declareClass
      dsimp only
      split
      · exact ⟨_, declare_declaredAs (d := classDeclared t.node) t.scope hnew⟩
      · exact ⟨_, introduce_declaredAs (d := classDeclared t.node) hnew⟩
    obtain ⟨s, hs⟩ := hdeclared
    refine ⟨s, hs.seq (φ := fun _ => True) (R := fun rest => ∀ t ∈ rest, True) fun symbol =>
      .seq openScope_goes fun inner => ?_⟩
    dsimp only
    rw [if_neg (by simpa using hnamed)]
    exact hinside symbol inner

end Bind

/-! ## Statements at the top of a file -/

variable {file : Source} {statement n : Node}

/-- A node of a tree that is laid out ends before an offset. -/
def EndsBefore (offset : Nat) (n : Node) : Prop :=
  n.tree.laidOut = true ∧ n.stop ≤ offset

/-- What is inside a node ends before the node does. -/
theorem passesDown_endsBefore (offset : Nat) : PassesDown (EndsBefore offset) :=
  fun _ hn c hc =>
    have hrow := Row.children hn.1
    ⟨hrow.laidOut c hc, Nat.le_trans (hrow.within c hc).2.2 hn.2⟩

/-- Whatever ends before a construct stands at another place, if the construct is not empty. -/
theorem EndsBefore.key_ne {m : Node} (h : EndsBefore n.start m) (hwidth : n.start < n.stop) :
    m.key ≠ n.key := by
  intro hkey
  have hstop : m.stop = n.stop := congrArg NodeKey.stop hkey
  exact absurd h.2 (Nat.not_le.mpr (hstop ▸ hwidth))

/-- A declaration is a statement by itself, or is exported where it stands. -/
inductive DeclaredIn (statement : Node) : Node → Prop
  | self : DeclaredIn statement statement
  | exported {n : Node} (hexport : statement.is .exportStatement = true)
      (hn : statement.child? .declaration = some n) : DeclaredIn statement n

/-- Exporting a declaration leaves it to be bound, and declares nothing. -/
theorem bindTask_exported {t : Task} (hexport : t.node.is .exportStatement = true)
    (hn : t.node.child? .declaration = some n) (p : Progress) :
    ∃ q, (∀ φ, Bind.Steps φ p q) ∧
      (Bind.bindTask t).run p = (tasks t.scope t.enclosing [n], q) := by
  let module := p.store.moduleScope t.scope
  let exposing := Bind.exposeDeclared module (t.node.hasToken "default") n
  refine ⟨(exposing.run p).2, fun φ => (Bind.exposeDeclared_goes p).1, ?_⟩
  -- Exporting comes to the declaration as what is left to bind.
  have hbind : (Bind.bindExport t.scope t.node).run p = ([n], (exposing.run p).2) := by
    unfold Bind.bindExport
    rw [Bind.run_get_bind, hn]
    rfl
  have htask : Bind.bindTask t = do
      return tasks t.scope t.enclosing (← Bind.bindExport t.scope t.node) := by
    unfold Bind.bindTask
    rw [Node.kind?_of_is hexport]
  rw [htask, StateT.run_bind, hbind]
  rfl

/-- The walk comes to a declaration at the top of a file when it has bound what stands before it,
and goes on when it has bound the declaration. -/
theorem exists_reached (hfile : file.tree.laidOut = true) (base : Store)
    (hstatement : statement ∈ file.root.children) (hn : DeclaredIn statement n) :
    let t : Task := ⟨n, ⟨base.scopes.size⟩, ⟨base.scopes.size⟩⟩
    ∃ p depth, Bind.Steps (EndsBefore n.start) (opened file base) p ∧
      Bind.Steps (fun _ => True) ((Bind.bindFrom (depth + 1) t).run p).2
        (boundUpTo file base file.root.children) := by
  intro t
  let module : ScopeId := ⟨base.scopes.size⟩
  let bindStatement (depth : Nat) : Bind Unit := Bind.bindFrom depth ⟨statement, module, module⟩
  obtain ⟨before, after, hsplit⟩ := List.append_of_mem hstatement
  have hrow : Row file.root file.root.children := Row.children hfile
  have hstart : statement.start ≤ n.start := by
    cases hn with
    | self => exact Nat.le_refl _
    | exported _ hn =>
      exact ((Row.children (hrow.laidOut _ hstatement)).within n (List.mem_of_find?_eq_some hn)).1
  -- The statements before this one end where it starts.
  have hbefore : ∀ m ∈ before, EndsBefore n.start m := fun m hm => by
    have hmem : m ∈ file.root.children := hsplit ▸ List.mem_append_left _ hm
    have hinOrder := hrow.inOrder
    rw [hsplit] at hinOrder
    exact ⟨hrow.laidOut m hmem,
      Nat.le_trans ((List.pairwise_append.mp hinOrder).2.2 m hm _ List.mem_cons_self) hstart⟩
  -- Whatever comes before and after the statement are steps, however they are bound.
  have hearlier := statements_go (passesDown_endsBefore n.start) hbefore module file.tree.size
    (opened file base)
  have hlater : ∀ q, Bind.Steps (fun _ => True) q (((tasks module module after).forM
      (Bind.bindFrom file.tree.size)).run q).2 := fun q =>
    (statements_go (fun _ _ _ _ => trivial) (fun _ _ => trivial) module file.tree.size q).1
  -- The file is bound in three parts: the statements before, this one, and those after it.
  have hdone : boundUpTo file base file.root.children = (((tasks module module after).forM
      (Bind.bindFrom file.tree.size)).run ((bindStatement file.tree.size).run
        (boundUpTo file base before)).2).2 := by
    rw [hsplit, boundUpTo_append]
    rfl
  rw [hdone]
  have hsize := Node.size_lt_of_mem_children hstatement
  cases hn with
  | self =>
    obtain ⟨depth, hdepth⟩ := Nat.exists_eq_add_one.mpr (Nat.zero_lt_of_lt hsize)
    have hdepth : file.tree.size = depth + 1 := hdepth
    refine ⟨boundUpTo file base before, depth, hearlier.1, ?_⟩
    rw [← hdepth]
    exact hlater _
  | exported hexport hn =>
    -- The declaration is bound one level further down.
    have hpart := Node.size_lt_of_mem_children (List.mem_of_find?_eq_some hn)
    obtain ⟨depth, hdepth⟩ : ∃ depth, file.tree.size = depth + 1 + 1 :=
      Nat.exists_eq_add_of_le' (Nat.lt_of_le_of_lt (Nat.zero_lt_of_lt hpart) hsize)
    obtain ⟨q, hexposed, htask⟩ := bindTask_exported (t := ⟨statement, module, module⟩) hexport hn
      (boundUpTo file base before)
    refine ⟨q, depth, hearlier.1.trans (hexposed _), ?_⟩
    have hinside : ((bindStatement (depth + 1 + 1)).run (boundUpTo file base before)).2 =
        ((Bind.bindFrom (depth + 1) t).run q).2 := by
      show ((Bind.bindFrom (depth + 1 + 1) ⟨statement, module, module⟩).run _).2 = _
      rw [Bind.bindFrom, StateT.run_bind, htask]
      rfl
    rw [hdepth, hinside, ← hdepth]
    exact hlater _

/-- What a declaration at the top of a file declares first is found there, once the file has been
bound. -/
theorem bind_declaredAs (hfile : file.tree.laidOut = true) (base : Store)
    (hstatement : statement ∈ file.root.children) (hn : DeclaredIn statement n)
    (hwidth : n.start < n.stop) {kind : DeclarationKind}
    (hdeclared : ∀ p : Progress, p.binding.declarations.find? n.key = none → ∃ s, Bind.DeclaredAs
      ((Bind.bindTask ⟨n, ⟨base.scopes.size⟩, ⟨base.scopes.size⟩⟩).run p).2 n kind s) :
    ∃ s, Bind.DeclaredAs (boundUpTo file base file.root.children) n kind s := by
  obtain ⟨p, depth, hbefore, hafter⟩ := exists_reached hfile base hstatement hn
  -- What has been bound so far is at other places, so the construct is new.
  have hnew := hbefore.find?_eq_none (fun m hm => hm.key_ne hwidth) (Table.find?_empty n.key)
  obtain ⟨s, hs⟩ := hdeclared p hnew
  have hinside : Bind.DeclaredAs ((Bind.bindFrom (depth + 1)
      ⟨n, ⟨base.scopes.size⟩, ⟨base.scopes.size⟩⟩).run p).2 n kind s := by
    rw [Bind.bindFrom]
    exact hs.seq (φ := fun _ => True) (R := fun _ => True) fun inside => .forM fun t _ =>
      Bind.bindFrom_goes (fun _ _ _ _ => trivial) depth trivial
  exact ⟨s, hinside.steps hafter⟩

/-- A class at the top of a file is found at its construct. -/
theorem bind_declaredAs_class (hfile : file.tree.laidOut = true) (base : Store)
    (hstatement : statement ∈ file.root.children) (hn : DeclaredIn statement n)
    (hwidth : n.start < n.stop) (hclass : isClassDeclaration n = true) :
    ∃ s, Bind.DeclaredAs (boundUpTo file base file.root.children) n .class s := by
  refine bind_declaredAs hfile base hstatement hn hwidth fun p hnew => ?_
  have htask : ∀ t : Task, t.node = n → Bind.bindTask t = Bind.bindClass t := fun t ht => by
    subst ht
    rw [isClassDeclaration, Node.isOneOf] at hclass
    obtain ⟨k, hk, hkind⟩ := List.any_eq_true.mp hclass
    simp only [List.mem_cons, List.not_mem_nil, or_false] at hk
    unfold Bind.bindTask
    rcases hk with rfl | rfl <;> rw [Node.kind?_of_is hkind]
  rw [htask _ rfl]
  exact Bind.bindClass_declaredAs hnew

end ScriptGraph.Binding
