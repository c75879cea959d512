import ScriptGraph.Binding.Walk
import ScriptGraph.Proofs.Binding.Growth

/-!
# Stores are self-contained

Whatever a store mentions by number, it holds: members and statics, the declarations of symbols,
the symbols that declarations are attached to, the symbols that scopes declare. Binding a file
keeps it so. It also attaches every declaration with a name, except for the methods of object
literals, whose symbols are made when the type of the object is.

- `Store.SelfContained`: what a store mentions it holds
- `Bind.Tidy`: the same of a store in the making, together with what its names lead to
- `bind_tidy`: binding a file
-/

namespace ScriptGraph.Binding

open Syntax

/-- What a symbol mentions is in a store. -/
structure Symbol.Within (s : Store) (symbol : Symbol) : Prop where
  parent : ∀ owner, symbol.parent = some owner → owner.index < s.symbols.size
  members : ∀ e ∈ symbol.members.entries, e.2.index < s.symbols.size
  statics : ∀ e ∈ symbol.statics.entries, e.2.index < s.symbols.size
  declarations : ∀ d ∈ symbol.declarations, d.index < s.declarations.size
  constructSignatures : ∀ d ∈ symbol.constructSignatures, d.index < s.declarations.size
  callSignatures : ∀ d ∈ symbol.callSignatures, d.index < s.declarations.size

/-- What a declaration is attached to is in a store. -/
def Declaration.Within (s : Store) (d : Declaration) : Prop :=
  ∀ owner, d.symbol = some owner → owner.index < s.symbols.size

/-- The symbols of a table are in a store. -/
def ScopeTable.Within (s : Store) : ScopeTable → Prop
  | .own symbols => ∀ e ∈ symbols.entries, e.2.index < s.symbols.size
  | .staticsOf owner => owner.index < s.symbols.size

/-- What a scope declares and exposes is in a store. -/
structure Scope.Within (s : Store) (scope : Scope) : Prop where
  table : scope.table.Within s
  exports : ∀ e ∈ scope.exports.entries, ∀ symbol, e.2 = .value symbol →
    symbol.index < s.symbols.size

namespace Store

/-- What a store mentions it holds. -/
structure SelfContained (s : Store) : Prop where
  symbol : ∀ id, (s.symbol id).Within s
  declaration : ∀ id, (s.declaration id).Within s
  scope : ∀ id, (s.scope id).Within s

end Store

variable {now next : Store}

/-- What a symbol refers to stays in larger stores. -/
theorem Symbol.Within.mono {symbol : Symbol} (h : symbol.Within now) (hle : now.NoSmaller next) :
    symbol.Within next where
  parent o ho := hle.symbol_lt (h.parent o ho)
  members e he := hle.symbol_lt (h.members e he)
  statics e he := hle.symbol_lt (h.statics e he)
  declarations d hd := hle.declaration_lt (h.declarations d hd)
  constructSignatures d hd := hle.declaration_lt (h.constructSignatures d hd)
  callSignatures d hd := hle.declaration_lt (h.callSignatures d hd)

/-- What a declaration refers to stays in larger stores. -/
theorem Declaration.Within.mono {d : Declaration} (h : d.Within now) (hle : now.NoSmaller next) :
    d.Within next :=
  fun owner ho => hle.symbol_lt (h owner ho)

/-- What a table refers to stays in larger stores. -/
theorem ScopeTable.Within.mono {table : ScopeTable} (h : table.Within now)
    (hle : now.NoSmaller next) : table.Within next := by
  cases table with
  | own symbols => exact fun e he => hle.symbol_lt (h e he)
  | staticsOf owner => exact hle.symbol_lt (show owner.index < _ from h)

/-- What a scope refers to stays in larger stores. -/
theorem Scope.Within.mono {scope : Scope} (h : scope.Within now) (hle : now.NoSmaller next) :
    scope.Within next where
  table := h.table.mono hle
  exports e he symbol hs := hle.symbol_lt (h.exports e he symbol hs)

/-- A symbol that has a name and perhaps an owner, and nothing else yet. -/
theorem symbol_within_named {s : Store} (name : String) (parent : Option SymbolId)
    (h : ∀ owner, parent = some owner → owner.index < s.symbols.size) :
    Symbol.Within s { name, parent } :=
  ⟨h, nofun, nofun, nofun, nofun, nofun⟩

namespace Store

/-- The empty store refers to nothing. -/
theorem selfContained_empty : SelfContained {} :=
  ⟨fun _ => symbol_within_named _ none nofun, fun _ => nofun, fun _ => ⟨nofun, nofun⟩⟩

/-- The rule behind every change of a store: what differs has to mention what is there. -/
theorem SelfContained.change (h : now.SelfContained) (hle : now.NoSmaller next)
    (hsymbol : ∀ id, next.symbol id = now.symbol id ∨ (next.symbol id).Within next)
    (hdeclaration : ∀ id, next.declaration id = now.declaration id ∨
      (next.declaration id).Within next)
    (hscope : ∀ id, next.scope id = now.scope id ∨ (next.scope id).Within next) :
    next.SelfContained where
  symbol id := (hsymbol id).elim (fun he => he ▸ (h.symbol id).mono hle) fun h => h
  declaration id := (hdeclaration id).elim (fun he => he ▸ (h.declaration id).mono hle) fun h => h
  scope id := (hscope id).elim (fun he => he ▸ (h.scope id).mono hle) fun h => h

/-- A symbol that refers to what is there may be added. -/
theorem SelfContained.addSymbol (h : now.SelfContained) {symbol : Symbol}
    (hs : symbol.Within now) : (now.addSymbol symbol).2.SelfContained := by
  have hle := now.noSmaller_addSymbol symbol
  refine h.change hle (fun id => ?_) (fun _ => .inl rfl) fun _ => .inl rfl
  rw [symbol_addSymbol]
  split
  · exact .inr (hs.mono hle)
  · exact .inl rfl

/-- A declaration that refers to what is there may be added. -/
theorem SelfContained.addDeclaration (h : now.SelfContained) {d : Declaration}
    (hd : d.Within now) : (now.addDeclaration d).2.SelfContained := by
  have hle := now.noSmaller_addDeclaration d
  refine h.change hle (fun _ => .inl rfl) (fun id => ?_) fun _ => .inl rfl
  rw [declaration_addDeclaration]
  split
  · exact .inr (hd.mono hle)
  · exact .inl rfl

/-- A scope that refers to what is there may be added. -/
theorem SelfContained.addScope (h : now.SelfContained) {scope : Scope}
    (hs : scope.Within now) : (now.addScope scope).2.SelfContained := by
  have hle := now.noSmaller_addScope scope
  refine h.change hle (fun _ => .inl rfl) (fun _ => .inl rfl) fun id => ?_
  rw [scope_addScope]
  split
  · exact .inr (hs.mono hle)
  · exact .inl rfl

/-- A symbol may change as long as it refers to what is there. -/
theorem SelfContained.modifySymbol (h : now.SelfContained) {id : SymbolId} {f : Symbol → Symbol}
    (hf : id.index < now.symbols.size → (f (now.symbol id)).Within now) :
    (now.modifySymbol id f).SelfContained := by
  have hle := now.noSmaller_modifySymbol id f
  refine h.change hle (fun other => ?_) (fun _ => .inl rfl) fun _ => .inl rfl
  rw [symbol_modifySymbol]
  split
  next ho =>
    obtain ⟨rfl, hlt⟩ := ho
    exact .inr ((hf hlt).mono hle)
  next => exact .inl rfl

/-- A scope may change as long as it refers to what is there. -/
theorem SelfContained.modifyScope (h : now.SelfContained) {id : ScopeId} {f : Scope → Scope}
    (hf : (f (now.scope id)).Within now) : (now.modifyScope id f).SelfContained := by
  have hle := now.noSmaller_modifyScope id f
  refine h.change hle (fun _ => .inl rfl) (fun _ => .inl rfl) fun other => ?_
  rw [scope_modifyScope]
  split
  next ho =>
    obtain ⟨rfl, -⟩ := ho
    exact .inr (hf.mono hle)
  next => exact .inl rfl

/-- A declaration may change as long as it refers to what is there. -/
theorem SelfContained.modifyDeclaration (h : now.SelfContained) {id : DeclarationId}
    {f : Declaration → Declaration} (hf : (f (now.declaration id)).Within now) :
    (now.modifyDeclaration id f).SelfContained := by
  have hle := now.noSmaller_modifyDeclaration id f
  refine h.change hle (fun _ => .inl rfl) (fun other => ?_) fun _ => .inl rfl
  rw [declaration_modifyDeclaration]
  split
  next ho =>
    obtain ⟨rfl, -⟩ := ho
    exact .inr (hf.mono hle)
  next => exact .inl rfl

/-- The symbols that a scope declares are there. -/
theorem SelfContained.symbolsOf (h : now.SelfContained) (scope : ScopeId) :
    ∀ e ∈ (now.symbolsOf scope).entries, e.2.index < now.symbols.size := by
  have ht := (h.scope scope).table
  unfold Store.symbolsOf
  cases htable : (now.scope scope).table with
  | own symbols =>
    rw [htable] at ht
    exact ht
  | staticsOf owner => exact (h.symbol owner).statics

/-- A symbol that is there may be put into a scope. -/
theorem SelfContained.putSymbol (h : now.SelfContained) {scope : ScopeId} {name : String}
    {symbol : SymbolId} (hs : symbol.index < now.symbols.size) :
    (now.putSymbol scope name symbol).SelfContained := by
  have hput : ∀ t : Table String SymbolId, (∀ e ∈ t.entries, e.2.index < now.symbols.size) →
      ∀ e ∈ (t.put name symbol).entries, e.2.index < now.symbols.size := fun t ht e he => by
    rcases Table.mem_entries_put he with rfl | he
    · exact hs
    · exact ht e he
  unfold Store.putSymbol
  -- The table is the scope's own, or the statics of a namespace.
  cases htable : (now.scope scope).table with
  | own t =>
    refine h.modifyScope ?_
    have hsc := h.scope scope
    have hown := hsc.table
    rw [htable] at hown
    rw [htable]
    exact ⟨hput t hown, hsc.exports⟩
  | staticsOf owner =>
    have ho := h.symbol owner
    exact h.modifySymbol fun _ => { ho with statics := hput _ ho.statics }

/-- A declaration may be attached to a symbol that is there. -/
theorem SelfContained.attach (h : now.SelfContained) {symbol : SymbolId} {d : DeclarationId}
    (hs : symbol.index < now.symbols.size) (hd : d.index < now.declarations.size) :
    (now.attach symbol d).SelfContained := by
  have hle := now.noSmaller_modifyDeclaration d fun decl => { decl with symbol := some symbol }
  -- A declaration may point at the symbol: that is in the store.
  have hattached : ({ now.declaration d with symbol := some symbol } : Declaration).Within now :=
    fun owner ho => Option.some.inj ho ▸ hs
  refine (h.modifyDeclaration (f := fun decl => { decl with symbol := some symbol })
    hattached).modifySymbol fun _ => ?_
  have ho := (h.symbol symbol).mono hle
  refine { ho with declarations := fun e he => ?_ }
  -- The declarations of the symbol are the old ones and `d`.
  rcases List.mem_append.mp he with he | he
  · exact ho.declarations e he
  · rw [List.mem_singleton.mp he]
    exact hle.declaration_lt hd

end Store

/-! ## Bindings in the making -/

/-- A property of trees that passes on to their parts. -/
def Hereditary (φ : Tree → Prop) : Prop :=
  ∀ t, φ t → ∀ c ∈ t.children, φ c

namespace Hereditary

variable {φ : Tree → Prop} {n c : Node}

/-- What is hereditary holds of the children. -/
theorem of_mem_children (h : Hereditary φ) (hn : φ n.tree) (hc : c ∈ n.children) : φ c.tree := by
  obtain ⟨e, he, rfl⟩ := List.mem_map.mp hc
  exact h _ hn _ (List.fst_mem_of_mem_zipIdx he)

/-- What is hereditary holds of the constructs inside. -/
theorem of_mem_constructs (h : Hereditary φ) (hn : φ n.tree) (hc : c ∈ n.constructs) : φ c.tree :=
  h.of_mem_children hn (List.mem_filter.mp hc).1

/-- What is hereditary holds of the part in a role. -/
theorem of_child? (h : Hereditary φ) {f : Field} (hn : φ n.tree) (hc : n.child? f = some c) :
    φ c.tree :=
  h.of_mem_children hn (List.mem_of_find?_eq_some hc)

/-- What is hereditary holds of the constructs in a role. -/
theorem of_mem_constructsIn (h : Hereditary φ) {f : Field} (hn : φ n.tree)
    (hc : c ∈ n.constructsIn f) : φ c.tree := by
  unfold Node.constructsIn at hc
  split at hc
  · rename_i part hpart
    exact h.of_mem_constructs (h.of_child? hn hpart) hc
  · exact absurd hc List.not_mem_nil

end Hereditary

/-- A method as it stands in a tree with `φ`: it goes by the name in its name role. -/
def Declaration.IsMethodOf (φ : Tree → Prop) (d : Declaration) : Prop :=
  φ d.node.tree ∧ d.node.is .methodDefinition = true ∧ d.nameNode = d.node.child? .name

namespace Bind

/-- A binding whose store is self-contained and has at least `symbols` symbols and `declarations`
declarations. Its names lead to declarations that are attached, to methods that are not, or to the
declaration that is about to be attached. -/
structure Tidy (φ : Tree → Prop) (pending : Option DeclarationId) (symbols declarations : Nat)
    (p : Progress) : Prop where
  store : p.store.SelfContained
  symbols_le : symbols ≤ p.store.symbols.size
  declarations_le : declarations ≤ p.store.declarations.size
  names : ∀ e ∈ p.binding.names.entries, e.2.index < p.store.declarations.size ∧
    (p.store.declaration e.2).nameNode.map Node.key = some e.1 ∧
      ((p.store.declaration e.2).symbol.isSome ∨ (p.store.declaration e.2).IsMethodOf φ ∨
        pending = some e.2)

variable {φ : Tree → Prop} {pending : Option DeclarationId} {m n : Nat}

/-- Tidiness up to larger bounds is tidiness up to smaller ones. -/
theorem Tidy.mono {m' n' : Nat} {p : Progress} (h : Tidy φ pending m n p) (hm : m' ≤ m)
    (hn : n' ≤ n) : Tidy φ pending m' n' p :=
  ⟨h.store, Nat.le_trans hm h.symbols_le, Nat.le_trans hn h.declarations_le, h.names⟩

/-- A change of the store alone that leaves the declarations as they are. -/
theorem Tidy.changeStore {p : Progress} (h : Tidy φ pending m n p) {next : Store}
    (hnext : next.SelfContained) (hle : p.store.NoSmaller next)
    (hdeclaration : ∀ id, next.declaration id = p.store.declaration id) :
    Tidy φ pending m n { p with store := next } where
  store := hnext
  symbols_le := Nat.le_trans h.symbols_le hle.symbols_le
  declarations_le := Nat.le_trans h.declarations_le hle.declarations_le
  names e he := by
    obtain ⟨hlt, hnames⟩ := h.names e he
    refine ⟨hle.declaration_lt hlt, ?_⟩
    rw [hdeclaration]
    exact hnames

/-- Adding a symbol leaves the store tidy, the new symbol included. -/
theorem addSymbol_tidy {symbol : Symbol}
    (hs : ∀ s : Store, m ≤ s.symbols.size → symbol.Within s) :
    Ensures (Tidy φ pending m n) (onStore (·.addSymbol symbol))
      fun id => Tidy φ pending (max m (id.index + 1)) n := by
  intro p hp
  have h := hp.changeStore (hp.store.addSymbol (hs _ hp.symbols_le))
    (p.store.noSmaller_addSymbol symbol) fun _ => rfl
  refine { h with symbols_le := Nat.max_le.mpr ⟨h.symbols_le, ?_⟩ }
  exact Nat.le_of_eq (Array.size_push symbol).symm

/-- A change of a scope leaves the store tidy. -/
theorem modifyScope_tidy {id : ScopeId} {f : Scope → Scope}
    (hf : ∀ s : Store, m ≤ s.symbols.size → ∀ sc : Scope, sc.Within s → (f sc).Within s) :
    Ensures (Tidy φ pending m n) (modifyStore (·.modifyScope id f))
      fun _ => Tidy φ pending m n :=
  fun p hp => hp.changeStore (hp.store.modifyScope (hf _ hp.symbols_le _ (hp.store.scope id)))
    (p.store.noSmaller_modifyScope id f) fun _ => rfl

/-- A change of a symbol leaves the store tidy. -/
theorem modifySymbol_tidy {id : SymbolId} {f : Symbol → Symbol}
    (hf : ∀ s : Store, m ≤ s.symbols.size → n ≤ s.declarations.size →
      ∀ sym : Symbol, sym.Within s → (f sym).Within s) :
    Ensures (Tidy φ pending m n) (modifyStore (·.modifySymbol id f))
      fun _ => Tidy φ pending m n :=
  fun p hp => hp.changeStore
    (hp.store.modifySymbol fun _ => hf _ hp.symbols_le hp.declarations_le _ (hp.store.symbol id))
    (p.store.noSmaller_modifySymbol id f) fun _ => rfl

/-- Opening a scope leaves the store tidy. -/
theorem openScope_tidy {kind : ScopeKind} {node : Node} {parent : ScopeId} :
    Ensures (Tidy φ pending m n) (openScope kind node parent) fun _ => Tidy φ pending m n := by
  intro p hp
  have hscope : Scope.Within p.store { kind, node, parent := some parent } := ⟨nofun, nofun⟩
  have h := hp.changeStore (hp.store.addScope hscope) (p.store.noSmaller_addScope _) fun _ => rfl
  exact { h with names := h.names }

/-- Entering a symbol in a scope leaves the store tidy. -/
theorem enter_tidy {scope : ScopeId} {name : String} {symbol : SymbolId}
    (hs : symbol.index < m) :
    Ensures (Tidy φ pending m n) (enter scope name symbol) fun _ => Tidy φ pending m n :=
  fun p hp => hp.changeStore (hp.store.putSymbol (Nat.lt_of_lt_of_le hs hp.symbols_le))
    (p.store.noSmaller_putSymbol scope name symbol)
    fun _ => Store.declaration_putSymbol _ _ _ _ _

/-- A name that is found after recording was found before, or is that of the declaration. -/
theorem mem_names_record {p : Progress} {d : Declaration} {e : NodeKey × DeclarationId}
    (h : e ∈ ((record d).run p).2.binding.names.entries) :
    e ∈ p.binding.names.entries ∨
      d.nameNode.map Node.key = some e.1 ∧ e.2 = ((record d).run p).1 := by
  change e ∈ (d.nameNode.elim p.binding.names fun n =>
    p.binding.names.putNew n.key (p.store.addDeclaration d).1).entries at h
  -- Without a name the table of names stays as it is.
  cases hn : d.nameNode with
  | none =>
    rw [hn] at h
    exact .inl h
  | some name =>
    rw [hn] at h
    rcases Table.mem_entries_putNew h with rfl | h
    · exact .inr ⟨rfl, rfl⟩
    · exact .inl h

/-- Recording a declaration that has no name, is attached or is a method; another one is pending
from then on. -/
theorem Tidy.record {p : Progress} (h : Tidy φ none m n p) {d : Declaration}
    (hwithin : d.Within p.store)
    (hd : d.nameNode = none ∨ d.symbol.isSome ∨ d.IsMethodOf φ ∨
      pending = some ((Bind.record d).run p).1) :
    Tidy φ pending m (max n (((Bind.record d).run p).1.index + 1)) ((Bind.record d).run p).2 := by
  have hle := p.store.noSmaller_addDeclaration d
  have hnew : ((Bind.record d).run p).1.index < (p.store.addDeclaration d).2.declarations.size :=
    Nat.le_of_eq (Array.size_push d).symm
  refine ⟨h.store.addDeclaration hwithin, h.symbols_le,
    Nat.max_le.mpr ⟨Nat.le_trans h.declarations_le hle.declarations_le, hnew⟩, fun e he => ?_⟩
  -- What names lead to is read off the store with the new declaration in it.
  show e.2.index < (p.store.addDeclaration d).2.declarations.size ∧
    ((p.store.addDeclaration d).2.declaration e.2).nameNode.map Node.key = some e.1 ∧
      (((p.store.addDeclaration d).2.declaration e.2).symbol.isSome ∨
        ((p.store.addDeclaration d).2.declaration e.2).IsMethodOf φ ∨ pending = some e.2)
  rw [Store.declaration_addDeclaration]
  -- The name leads to an earlier declaration or to the new one.
  rcases mem_names_record he with he | ⟨hname, he⟩
  · obtain ⟨hlt, hkey, hnames⟩ := h.names e he
    rw [if_neg (Nat.ne_of_lt hlt)]
    exact ⟨hle.declaration_lt hlt, hkey,
      hnames.imp_right (.imp_right nofun)⟩
  · have hid : ((Bind.record d).run p).1.index = p.store.declarations.size := rfl
    rw [he, if_pos hid]
    refine ⟨hnew, hname, ?_⟩
    -- What has a name is attached, a method, or pending by assumption.
    rcases hd with hnone | hd
    · rw [hnone] at hname
      exact nomatch hname
    · exact hd

/-- A declaration that is recorded without a symbol is pending. -/
theorem record_pending {d : Declaration} (hd : d.symbol = none) :
    Ensures (Tidy φ none m n) (record d) fun id => Tidy φ (some id) m (max n (id.index + 1)) :=
  fun _ hp => hp.record (fun owner ho => by rw [hd] at ho; exact nomatch ho)
    (.inr (.inr (.inr rfl)))

/-- A declaration that is recorded with its symbol leaves nothing pending. -/
theorem record_settled {d : Declaration}
    (hwithin : ∀ owner, d.symbol = some owner → owner.index < m)
    (hd : d.nameNode = none ∨ d.symbol.isSome ∨ d.IsMethodOf φ) :
    Ensures (Tidy φ none m n) (record d) fun id => Tidy φ none m (max n (id.index + 1)) :=
  fun _ hp => hp.record (fun owner ho => Nat.lt_of_lt_of_le (hwithin owner ho) hp.symbols_le)
    (hd.imp_right (.imp_right .inl))

/-- The declaration that is pending gets attached. -/
theorem attach_tidy {symbol : SymbolId} {d : DeclarationId} (hs : symbol.index < m)
    (hd : d.index < n) (hpending : ∀ id, pending = some id → id = d) :
    Ensures (Tidy φ pending m n) (modifyStore (·.attach symbol d))
      fun _ => Tidy φ none m n := by
  intro p hp
  have hle := p.store.noSmaller_attach symbol d
  have hlt := Nat.lt_of_lt_of_le hd hp.declarations_le
  refine ⟨hp.store.attach (Nat.lt_of_lt_of_le hs hp.symbols_le) hlt,
    Nat.le_trans hp.symbols_le hle.symbols_le,
    Nat.le_trans hp.declarations_le hle.declarations_le, fun e he => ?_⟩
  -- A name that led to a pending declaration leads to `d`, which is attached now.
  obtain ⟨hlt', hkey, hnames⟩ := hp.names e he
  refine ⟨hle.declaration_lt hlt', ?_⟩
  show ((p.store.modifyDeclaration d _).declaration e.2).nameNode.map Node.key = some e.1 ∧
    (((p.store.modifyDeclaration d _).declaration e.2).symbol.isSome ∨
      ((p.store.modifyDeclaration d _).declaration e.2).IsMethodOf φ ∨ none = some e.2)
  rw [Store.declaration_modifyDeclaration]
  split
  next => exact ⟨hkey, .inl rfl⟩
  next hother =>
    refine ⟨hkey, hnames.imp_right (.imp_right fun he => ?_)⟩
    exact absurd ⟨(hpending _ he).symm, hlt⟩ hother

end Bind

end ScriptGraph.Binding
