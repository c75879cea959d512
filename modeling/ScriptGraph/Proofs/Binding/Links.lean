import Mathlib.Data.List.Nodup
import ScriptGraph.Proofs.Binding.Changes

/-!
# Symbols and declarations lead to each other

A symbol lists its declarations, and each of them points back at it; a table has a symbol under
the symbol's own name; a member has its owner as parent. Binding adds to each of these lists and
tables in several ways: in a scope, among the members of a symbol, for a symbol that no scope
knows, in the scope that a named expression opens. Every step of binding leaves the links complete.

- `Store.Linked`: the links of a store are complete
- `Bind.Step.linked`: one step of binding
- `bindAll_linked`: binding any number of files
-/

namespace ScriptGraph.Binding

open Syntax

namespace Store

/-- A symbol stands under a name: it goes by the name, and has been declared. -/
def StandsUnder (s : Store) (name : String) (id : SymbolId) : Prop :=
  (s.symbol id).name = name ∧ (s.symbol id).declarations ≠ []

/-- What a symbol lists in a store leads back to the symbol. -/
structure LinkedAt (s : Store) (id : SymbolId) (symbol : Symbol) : Prop where
  members : ∀ e ∈ symbol.members.entries,
    s.StandsUnder e.1 e.2 ∧ (s.symbol e.2).parent = some id
  statics : ∀ e ∈ symbol.statics.entries, s.StandsUnder e.1 e.2
  declarations : ∀ d ∈ symbol.declarations,
    (s.declaration d).name = symbol.name ∧ (s.declaration d).symbol = some id
  declarations_nodup : symbol.declarations.Nodup
  constructSignatures : ∀ d ∈ symbol.constructSignatures, (s.declaration d).symbol = some id
  callSignatures : ∀ d ∈ symbol.callSignatures, (s.declaration d).symbol = some id
  typeParameters_nodup : symbol.typeParameters.Nodup

/-- The links of a store are complete: what its symbols list leads back to them, and its scopes
have symbols under their own names. -/
structure Linked (s : Store) : Prop where
  symbol : ∀ id, s.LinkedAt id (s.symbol id)
  own : ∀ id t, (s.scope id).table = .own t → ∀ e ∈ t.entries, s.StandsUnder e.1 e.2

variable {s next : Store} {name : String} {x : SymbolId} {d : DeclarationId}

/-- The scopes that share the statics of a namespace are no exception. -/
theorem Linked.standsUnder (h : s.Linked) (id : ScopeId) :
    ∀ e ∈ (s.symbolsOf id).entries, s.StandsUnder e.1 e.2 := by
  unfold symbolsOf
  cases htable : (s.scope id).table with
  | own t => exact h.own id t htable
  | staticsOf owner => exact (h.symbol owner).statics

/-- No declaration is one of two symbols. -/
theorem Linked.eq_of_mem_declarations (h : s.Linked) {y : SymbolId}
    (hx : d ∈ (s.symbol x).declarations) (hy : d ∈ (s.symbol y).declarations) : x = y :=
  Option.some.inj
    (((h.symbol x).declarations d hx).2.symm.trans ((h.symbol y).declarations d hy).2)

/-- A symbol that has only a name lists nothing. -/
theorem linkedAt_new (s : Store) (name : String) (parent : Option SymbolId) (id : SymbolId) :
    s.LinkedAt id { name, parent } :=
  ⟨nofun, nofun, nofun, List.nodup_nil, nofun, nofun, List.nodup_nil⟩

/-- The empty store lists nothing. -/
theorem linked_empty : Linked {} :=
  ⟨fun id => linkedAt_new _ _ none id, fun _ _ ht => ScopeTable.own.inj ht ▸ nofun⟩

/-! ## One change -/

/-- A symbol that stands under a name is in the store. -/
theorem StandsUnder.index_lt (h : s.StandsUnder name x) : x.index < s.symbols.size := by
  refine Nat.lt_of_not_le fun hge => h.2 ?_
  rw [symbol, Array.getD_eq_getD_getElem?, Array.getElem?_eq_none hge]
  rfl

/-- Only declarations of a store are attached. -/
theorem index_lt_of_symbol_eq (h : (s.declaration d).symbol = some x) :
    d.index < s.declarations.size := by
  refine Nat.lt_of_not_le fun hge => ?_
  rw [declaration, Array.getD_eq_getD_getElem?, Array.getElem?_eq_none hge] at h
  exact Option.some_ne_none x h.symm

/-- Symbols that stand under a name and declarations that are attached are kept. -/
structure KeepsLinks (old new : Store) : Prop where
  standsUnder : ∀ name x, old.StandsUnder name x → new.StandsUnder name x
  parent_eq : ∀ name x, old.StandsUnder name x → (new.symbol x).parent = (old.symbol x).parent
  name_eq : ∀ d x, (old.declaration d).symbol = some x →
    (new.declaration d).name = (old.declaration d).name
  symbol_eq : ∀ d x, (old.declaration d).symbol = some x → (new.declaration d).symbol = some x

/-- What a symbol lists still leads back to it after a change that keeps links. -/
theorem LinkedAt.kept {symbol : Symbol} (h : s.LinkedAt x symbol) (hk : s.KeepsLinks next) :
    next.LinkedAt x symbol where
  members e he := by
    obtain ⟨hstands, hparent⟩ := h.members e he
    exact ⟨hk.standsUnder _ _ hstands, (hk.parent_eq _ _ hstands).trans hparent⟩
  statics e he := hk.standsUnder _ _ (h.statics e he)
  declarations d hd := by
    obtain ⟨hname, hsymbol⟩ := h.declarations d hd
    exact ⟨(hk.name_eq d x hsymbol).trans hname, hk.symbol_eq d x hsymbol⟩
  declarations_nodup := h.declarations_nodup
  constructSignatures d hd := hk.symbol_eq d x (h.constructSignatures d hd)
  callSignatures d hd := hk.symbol_eq d x (h.callSignatures d hd)
  typeParameters_nodup := h.typeParameters_nodup

/-- The rule behind every change of a store: the links are kept, and those of what differs are
complete. -/
theorem Linked.change (h : s.Linked) (hk : s.KeepsLinks next)
    (hsymbol : ∀ id, next.symbol id = s.symbol id ∨ next.LinkedAt id (next.symbol id))
    (hscope : ∀ id, (next.scope id).table = (s.scope id).table ∨
      ∀ t, (next.scope id).table = .own t → ∀ e ∈ t.entries, next.StandsUnder e.1 e.2) :
    next.Linked where
  symbol id := (hsymbol id).elim (fun he => he ▸ (h.symbol id).kept hk) fun h => h
  own id t ht := (hscope id).elim
    (fun he e hmem => hk.standsUnder _ _ (h.own id t (he ▸ ht) e hmem)) fun h => h t ht

/-- A new symbol lists nothing yet. -/
theorem Linked.addSymbol (h : s.Linked) (name : String) (parent : Option SymbolId) :
    (s.addSymbol { name, parent }).2.Linked := by
  -- The symbols that stand somewhere are old ones.
  have hold : ∀ k x, s.StandsUnder k x →
      (s.addSymbol { name, parent }).2.symbol x = s.symbol x := fun k x hx => by
    rw [symbol_addSymbol, if_neg (Nat.ne_of_lt hx.index_lt)]
  refine h.change ⟨fun k x hx => ?_, fun k x hx => ?_, fun _ _ _ => rfl, fun _ _ h => h⟩
    (fun id => ?_) fun _ => .inl rfl
  · rw [StandsUnder, hold k x hx]
    exact hx
  · rw [hold k x hx]
  · rw [symbol_addSymbol]
    split
    · exact .inr (linkedAt_new _ name parent id)
    · exact .inl rfl

/-- A declaration that is added is listed nowhere yet. -/
theorem Linked.addDeclaration (h : s.Linked) (d : Declaration) :
    (s.addDeclaration d).2.Linked := by
  have hold : ∀ id x, (s.declaration id).symbol = some x →
      (s.addDeclaration d).2.declaration id = s.declaration id := fun id x hx => by
    rw [declaration_addDeclaration, if_neg (Nat.ne_of_lt (index_lt_of_symbol_eq hx))]
  refine h.change ⟨fun _ _ h => h, fun _ _ _ => rfl, fun id x hx => ?_, fun id x hx => ?_⟩
    (fun _ => .inl rfl) fun _ => .inl rfl
  · rw [hold id x hx]
  · rw [hold id x hx, hx]

/-- A new scope knows no names yet. -/
theorem Linked.addScope (h : s.Linked) (kind : ScopeKind) (node : Node) (parent : Option ScopeId) :
    (s.addScope { kind, node, parent }).2.Linked := by
  refine h.change ⟨fun _ _ h => h, fun _ _ _ => rfl, fun _ _ _ => rfl, fun _ _ h => h⟩
    (fun _ => .inl rfl) fun id => ?_
  rw [scope_addScope]
  split
  · exact .inr fun t ht => ScopeTable.own.inj ht ▸ nofun
  · exact .inl rfl

/-- A change of what a symbol lists apart from its declarations. -/
theorem Linked.modifySymbol (h : s.Linked) {f : Symbol → Symbol}
    (hname : ∀ o, (f o).name = o.name) (hparent : ∀ o, (f o).parent = o.parent)
    (hdeclarations : ∀ o, (f o).declarations = o.declarations)
    (hf : s.LinkedAt x (f (s.symbol x))) : (s.modifySymbol x f).Linked := by
  -- Which symbols stand where is a matter of names and declarations, so nothing is lost.
  have hk : s.KeepsLinks (s.modifySymbol x f) := by
    refine ⟨fun name y hy => ?_, fun name y hy => ?_, fun _ _ _ => rfl, fun _ _ h => h⟩
    · rw [StandsUnder, symbol_modifySymbol]
      split
      · rw [hname, hdeclarations]
        exact hy
      · exact hy
    · rw [symbol_modifySymbol]
      split
      · exact hparent _
      · rfl
  refine h.change hk (fun id => ?_) fun _ => .inl rfl
  rw [symbol_modifySymbol]
  split
  next hid =>
    obtain ⟨rfl, -⟩ := hid
    exact .inr (hf.kept hk)
  next => exact .inl rfl

/-- A scope may change if its names lead to symbols that stand under them. -/
theorem Linked.modifyScope (h : s.Linked) {id : ScopeId} {f : Scope → Scope}
    (hf : ∀ t, (f (s.scope id)).table = .own t → ∀ e ∈ t.entries, s.StandsUnder e.1 e.2) :
    (s.modifyScope id f).Linked := by
  refine h.change ⟨fun _ _ h => h, fun _ _ _ => rfl, fun _ _ _ => rfl, fun _ _ h => h⟩
    (fun _ => .inl rfl) fun other => ?_
  rw [scope_modifyScope]
  split
  next hid =>
    obtain ⟨rfl, -⟩ := hid
    exact .inr hf
  next => exact .inl rfl

/-- A table goes on to have symbols under their own names when one is put there. -/
theorem standsUnder_put {t : Table String SymbolId}
    (ht : ∀ e ∈ t.entries, s.StandsUnder e.1 e.2) (hx : s.StandsUnder name x) :
    ∀ e ∈ (t.put name x).entries, s.StandsUnder e.1 e.2 := fun e he => by
  rcases Table.mem_entries_put he with rfl | he
  · exact hx
  · exact ht e he

/-- A symbol may be put into a scope under the name it stands under. -/
theorem Linked.putSymbol (h : s.Linked) (scope : ScopeId) (hx : s.StandsUnder name x) :
    (s.putSymbol scope name x).Linked := by
  unfold Store.putSymbol
  -- The table is the scope's own, or the statics of a namespace.
  cases htable : (s.scope scope).table with
  | own t =>
    refine h.modifyScope ?_
    rw [htable]
    exact fun _ hu => ScopeTable.own.inj hu ▸ standsUnder_put (h.own scope t htable) hx
  | staticsOf owner =>
    have howner := h.symbol owner
    exact h.modifySymbol (fun _ => rfl) (fun _ => rfl) (fun _ => rfl)
      { howner with statics := standsUnder_put howner.statics hx }

/-- A declaration that has no symbol yet can become one of a symbol of its name. -/
theorem Linked.attach (h : s.Linked) (hd : d.index < s.declarations.size)
    (hnone : (s.declaration d).symbol = none) (hname : (s.declaration d).name = (s.symbol x).name) :
    (s.attach x d).Linked := by
  -- The declaration is none of those that symbols list already.
  have hfree : ∀ e y, (s.declaration e).symbol = some y → d ≠ e := fun e y he hde => by
    rw [hde, he] at hnone
    exact nomatch hnone
  have hk : s.KeepsLinks (s.attach x d) := by
    refine ⟨fun name y hy => ?_, fun name y hy => ?_, fun e y he => ?_, fun e y he => ?_⟩
    · rw [StandsUnder, symbol_attach]
      split
      · exact ⟨hy.1, List.append_ne_nil_of_left_ne_nil hy.2 _⟩
      · exact hy
    · rw [symbol_attach]
      split <;> rfl
    · rw [declaration_attach, if_neg fun hde => hfree e y he hde.1]
    · rw [declaration_attach, if_neg fun hde => hfree e y he hde.1, he]
  refine h.change hk (fun id => ?_) fun _ => .inl rfl
  rw [symbol_attach]
  split
  next hid =>
    obtain ⟨rfl, -⟩ := hid
    have hlinked := (h.symbol x).kept hk
    have hnew : ((s.attach x d).declaration d).name = (s.symbol x).name ∧
        ((s.attach x d).declaration d).symbol = some x := by
      rw [declaration_attach, if_pos ⟨rfl, hd⟩]
      exact ⟨hname, rfl⟩
    -- The list grows by a declaration of the same name, which it did not have.
    refine .inr { hlinked with declarations := fun e he => ?_, declarations_nodup := ?_ }
    · rcases List.mem_append.mp he with he | he
      · exact hlinked.declarations e he
      · exact List.mem_singleton.mp he ▸ hnew
    · rw [← List.concat_eq_append]
      exact hlinked.declarations_nodup.concat fun hd =>
        hfree d x ((h.symbol x).declarations d hd).2 rfl
  next => exact .inl rfl

/-- Once it is attached to, a symbol stands under its name. -/
theorem standsUnder_attach (hx : x.index < s.symbols.size) (d : DeclarationId) :
    (s.attach x d).StandsUnder (s.symbol x).name x := by
  rw [StandsUnder, symbol_attach, if_pos ⟨rfl, hx⟩]
  exact ⟨rfl, List.append_ne_nil_of_right_ne_nil _ (List.cons_ne_nil _ _)⟩

/-- A symbol is added together with its first declaration. -/
structure AddsDeclared (s : Store) (name : String) (parent : Option SymbolId) (next : Store) :
    Prop where
  linked : next.Linked
  standsUnder : next.StandsUnder name ⟨s.symbols.size⟩
  parent_eq : (next.symbol ⟨s.symbols.size⟩).parent = parent

/-- A new symbol stands under its name once its declaration is attached. -/
theorem Linked.addDeclared (h : s.Linked) (parent : Option SymbolId)
    (hd : d.index < s.declarations.size) (hnone : (s.declaration d).symbol = none)
    (hname : (s.declaration d).name = name) :
    s.AddsDeclared name parent ((s.addSymbol { name, parent }).2.attach ⟨s.symbols.size⟩ d) := by
  -- The order does not matter: the new symbol has nothing but its name and its parent.
  have hnew : (s.addSymbol { name, parent }).2.symbol ⟨s.symbols.size⟩ = { name, parent } := by
    rw [symbol_addSymbol, if_pos rfl]
  have hlt : s.symbols.size < (s.addSymbol { name, parent }).2.symbols.size := by
    simp [Store.addSymbol]
  refine ⟨(h.addSymbol name parent).attach hd hnone ?_, ?_, ?_⟩
  · rw [hnew]
    exact hname
  · have hstands := standsUnder_attach (x := ⟨s.symbols.size⟩) hlt d
    rwa [hnew] at hstands
  · rw [symbol_attach, if_pos ⟨rfl, hlt⟩, hnew]

/-! ## What is put into a table and attached to -/

/-- Two changes of what symbols list may be made in either order if neither sees the other. -/
theorem modifySymbol_comm (s : Store) (x y : SymbolId) {f g : Symbol → Symbol}
    (hfg : ∀ o, f (g o) = g (f o)) :
    (s.modifySymbol x f).modifySymbol y g = (s.modifySymbol y g).modifySymbol x f := by
  unfold modifySymbol
  congr 1
  apply Array.ext
  · simp
  · intro i _ _
    simp only [Array.getElem_modify]
    split <;> split <;> simp [hfg]

/-- Attaching a declaration and changing another part of symbols may change places. -/
theorem attach_modifySymbol (s : Store) (x y : SymbolId) (d : DeclarationId) {f : Symbol → Symbol}
    (hf : ∀ o : Symbol, f { o with declarations := o.declarations ++ [d] } =
      { f o with declarations := (f o).declarations ++ [d] }) :
    (s.modifySymbol x f).attach y d = (s.attach y d).modifySymbol x f :=
  modifySymbol_comm (s.modifyDeclaration d fun decl => { decl with symbol := some y }) x y hf

/-- A symbol may be put into a scope before or after it is attached to. -/
theorem attach_putSymbol (s : Store) (scope : ScopeId) (name : String) (x y : SymbolId)
    (d : DeclarationId) :
    (s.putSymbol scope name x).attach y d = (s.attach y d).putSymbol scope name x := by
  have hscope : (s.attach y d).scope scope = s.scope scope := rfl
  unfold putSymbol
  rw [hscope]
  cases (s.scope scope).table with
  | own t => rfl
  | staticsOf owner => exact attach_modifySymbol s owner y d fun _ => rfl

/-- Puts a symbol among the members of its owner, or among the statics. -/
def putMember (s : Store) (owner : SymbolId) (isStatic : Bool) (name : String) (x : SymbolId) :
    Store :=
  s.modifySymbol owner fun o =>
    if isStatic then { o with statics := o.statics.put name x }
    else { o with members := o.members.put name x }

/-- Attaching a declaration and putting a member may change places. -/
theorem attach_putMember (s : Store) (owner : SymbolId) (isStatic : Bool) (name : String)
    (x y : SymbolId) (d : DeclarationId) :
    (s.putMember owner isStatic name x).attach y d =
      (s.attach y d).putMember owner isStatic name x :=
  attach_modifySymbol s owner y d fun _ => by split <;> rfl

/-- A symbol may be put among the members of its parent under its name. -/
theorem Linked.putMember (h : s.Linked) {owner : SymbolId} (isStatic : Bool)
    (hx : s.StandsUnder name x) (hparent : (s.symbol x).parent = some owner) :
    (s.putMember owner isStatic name x).Linked := by
  have howner := h.symbol owner
  unfold Store.putMember
  cases isStatic with
  | true =>
    -- Statics need to stand under their names; members have the owner as their parent as well.
    exact h.modifySymbol (fun _ => rfl) (fun _ => rfl) (fun _ => rfl)
      { howner with statics := standsUnder_put howner.statics hx }
  | false =>
    refine h.modifySymbol (fun _ => rfl) (fun _ => rfl) (fun _ => rfl)
      { howner with members := fun e he => ?_ }
    rcases Table.mem_entries_put he with rfl | he
    · exact ⟨hx, hparent⟩
    · exact howner.members e he

/-- A declaration that names a symbol from the start may be listed by the symbol. -/
theorem Linked.addSignature (h : s.Linked) {owner : SymbolId} (decl : Declaration)
    {f : Symbol → Symbol} (hname : ∀ o, (f o).name = o.name)
    (hparent : ∀ o, (f o).parent = o.parent)
    (hdeclarations : ∀ o, (f o).declarations = o.declarations)
    (hf : ∀ (now : Store) (o : Symbol),
      (now.declaration ⟨s.declarations.size⟩).symbol = some owner →
      now.LinkedAt owner o → now.LinkedAt owner (f o)) :
    ((s.addDeclaration { decl with symbol := some owner }).2.modifySymbol owner f).Linked := by
  have hnow := h.addDeclaration { decl with symbol := some owner }
  refine hnow.modifySymbol hname hparent hdeclarations (hf _ _ ?_ (hnow.symbol owner))
  rw [declaration_addDeclaration, if_pos rfl]

end Store

namespace Bind

open Store

variable {p q : Progress} {scope : ScopeId} {name : String} {d : DeclarationId}

/-! ## One step -/

/-- What an action does after a look at what has been bound so far. -/
theorem run_get_bind {α : Type} (f : Progress → Bind α) (p : Progress) :
    (MonadState.get >>= f).run p = (f p).run p :=
  rfl

/-- The store after a declaration has been attached in a scope. -/
theorem attachIn_store (p : Progress) (scope : ScopeId) (name : String) (d : DeclarationId) :
    ((attachIn scope name d).run p).2.store =
      match (p.store.symbolsOf scope).find? name with
      | some x => p.store.attach x d
      | none =>
        let (x, s) := p.store.addSymbol { name }
        (s.putSymbol scope name x).attach x d := by
  unfold attachIn
  rw [run_get_bind]
  dsimp only
  cases (p.store.symbolsOf scope).find? name <;> rfl

/-- A declaration of a name may be attached under this name in a scope. -/
theorem attachIn_linked (h : p.store.Linked) (hd : d.index < p.store.declarations.size)
    (hnone : (p.store.declaration d).symbol = none)
    (hname : (p.store.declaration d).name = name) :
    ((attachIn scope name d).run p).2.store.Linked := by
  rw [attachIn_store]
  cases hfind : (p.store.symbolsOf scope).find? name with
  | some x =>
    have hx : p.store.StandsUnder name x :=
      h.standsUnder scope _ (Table.mem_entries_of_find? hfind)
    exact h.attach hd hnone (hname.trans hx.1.symm)
  | none =>
    have hnew := h.addDeclared none hd hnone hname
    -- The entry is made before the declaration is attached; the other order gives the same store.
    dsimp only
    rw [attach_putSymbol]
    exact hnew.linked.putSymbol scope hnew.standsUnder

/-- The store after a member has been declared. -/
theorem declareMember_store (p : Progress) (owner : SymbolId) (decl : Declaration) :
    ((declareMember owner decl).run p).2.store =
      let (d, s) := p.store.addDeclaration decl
      match (if decl.isStatic then (s.symbol owner).statics
        else (s.symbol owner).members).find? decl.name with
      | some x => s.attach x d
      | none =>
        let (x, s) := s.addSymbol { name := decl.name, parent := some owner }
        (s.putMember owner decl.isStatic decl.name x).attach x d := by
  -- Recording comes first, and what follows sees the store after it.
  have hrecord : ∀ f : DeclarationId → Bind Unit,
      (record decl >>= f).run p = (f ((record decl).run p).1).run ((record decl).run p).2 :=
    fun _ => rfl
  unfold declareMember
  rw [hrecord, run_get_bind]
  have hstore : ((record decl).run p).2.store = (p.store.addDeclaration decl).2 := rfl
  dsimp only
  rw [hstore]
  cases (if decl.isStatic then ((p.store.addDeclaration decl).2.symbol owner).statics
    else ((p.store.addDeclaration decl).2.symbol owner).members).find? decl.name <;> rfl

/-- A declaration that has just been recorded. -/
theorem recorded (s : Store) {decl : Declaration} (hdecl : decl.symbol = none) :
    let (d, next) := s.addDeclaration decl
    d.index < next.declarations.size ∧ (next.declaration d).symbol = none ∧
      (next.declaration d).name = decl.name := by
  have hnew : (s.addDeclaration decl).2.declaration ⟨s.declarations.size⟩ = decl := by
    rw [declaration_addDeclaration, if_pos rfl]
  refine ⟨by simp, ?_, ?_⟩
  · exact (congrArg Declaration.symbol hnew).trans hdecl
  · exact congrArg Declaration.name hnew

/-- Declaring a member keeps links complete. -/
theorem declareMember_linked (h : p.store.Linked) (owner : SymbolId) {decl : Declaration}
    (hdecl : decl.symbol = none) : ((declareMember owner decl).run p).2.store.Linked := by
  obtain ⟨hlt, hnone, hname⟩ := recorded p.store hdecl
  have hnow := h.addDeclaration decl
  rw [declareMember_store]
  dsimp only
  cases hfind : (if decl.isStatic then ((p.store.addDeclaration decl).2.symbol owner).statics
    else ((p.store.addDeclaration decl).2.symbol owner).members).find? decl.name with
  | some x =>
    have hx : (p.store.addDeclaration decl).2.StandsUnder decl.name x := by
      have hmem := Table.mem_entries_of_find? hfind
      have howner := hnow.symbol owner
      split at hmem
      · exact howner.statics _ hmem
      · exact (howner.members _ hmem).1
    exact hnow.attach hlt hnone (hname.trans hx.1.symm)
  | none =>
    have hnew := hnow.addDeclared (some owner) hlt hnone hname
    dsimp only
    -- Here, too, the order of the last two changes does not matter.
    rw [attach_putMember]
    exact hnew.linked.putMember decl.isStatic hnew.standsUnder hnew.parent_eq

/-- A step of binding leaves the links complete. -/
theorem Step.linked {φ : Node → Prop} (hstep : Step φ p q) (h : p.store.Linked) :
    q.store.Linked := by
  cases hstep with
  | scope kind node parent => exact h.addScope kind node (some parent)
  | declare scope decl hd =>
    -- What has just been recorded has no symbol yet, so it can be attached.
    obtain ⟨hlt, hnone, hname⟩ := recorded p.store hd
    have hrun : ((Bind.declare scope decl).run p).2 =
        ((attachIn scope decl.name ((record decl).run p).1).run ((record decl).run p).2).2 := rfl
    rw [hrun]
    exact attachIn_linked (h.addDeclaration decl) hlt hnone hname
  | within scope decl hd =>
    obtain ⟨hlt, hnone, hname⟩ := recorded p.store hd
    let opened := (openScope .function decl.node scope).run ((record decl).run p).2
    have hrun : ((declareWithin scope decl).run p).2 =
        ((attachIn opened.1 decl.name ((record decl).run p).1).run opened.2).2 := rfl
    rw [hrun]
    exact attachIn_linked ((h.addDeclaration decl).addScope .function decl.node (some scope)) hlt
      hnone hname
  | introduced decl hd =>
    obtain ⟨hlt, hnone, hname⟩ := recorded p.store hd
    exact ((h.addDeclaration decl).addDeclared none hlt hnone hname).linked
  | introducedWithin scope decl hd =>
    obtain ⟨hlt, hnone, hname⟩ := recorded p.store hd
    have hnew := (h.addDeclaration decl).addDeclared none hlt hnone hname
    exact (hnew.linked.addScope .class decl.node (some scope)).putSymbol _ hnew.standsUnder
  | unattached decl => exact h.addDeclaration decl
  | member owner decl hd => exact declareMember_linked h owner hd
  | constructs owner decl =>
    refine h.addSignature decl (fun _ => rfl) (fun _ => rfl) (fun _ => rfl) fun now o hnew ho =>
      { ho with constructSignatures := fun d hd => ?_ }
    -- The signatures are the old ones and the new one.
    rcases List.mem_append.mp hd with hd | hd
    · exact ho.constructSignatures d hd
    · exact List.mem_singleton.mp hd ▸ hnew
  | calls owner decl =>
    refine h.addSignature decl (fun _ => rfl) (fun _ => rfl) (fun _ => rfl) fun now o hnew ho =>
      { ho with callSignatures := fun d hd => ?_ }
    rcases List.mem_append.mp hd with hd | hd
    · exact ho.callSignatures d hd
    · exact List.mem_singleton.mp hd ▸ hnew
  -- A parameter is added only if its name is new, so names do not repeat.
  | typeParameter owner name =>
    have howner := h.symbol owner
    refine h.modifySymbol (fun o => ?_) (fun o => ?_) (fun o => ?_) ?_
    · split <;> rfl
    · split <;> rfl
    · split <;> rfl
    · split
      next => exact howner
      next hnew =>
        refine { howner with typeParameters_nodup := ?_ }
        have hnotmem : name ∉ (p.store.symbol owner).typeParameters := by simpa using hnew
        rw [← List.concat_eq_append]
        exact howner.typeParameters_nodup.concat hnotmem
  | exposed module => exact h.modifyScope fun t ht => h.own module t ht
  | star module => exact h.modifyScope fun t ht => h.own module t ht
  | ambient module => exact h.modifyScope fun t ht => h.own module t ht
  | block => exact h.modifyScope fun t ht => nomatch ht
  | quoted => exact h

/-- Any number of steps keeps links complete. -/
theorem Steps.linked {φ : Node → Prop} (hsteps : Steps φ p q) (h : p.store.Linked) :
    q.store.Linked := by
  induction hsteps with
  | refl => exact h
  | tail _ hlast ih => exact hlast.linked ih

end Bind

/-- Binding a file leaves the links of a store complete. -/
theorem bind_linked (file : Source) {base : Store} (h : base.Linked) :
    (bind file base).2.Linked := by
  rw [bind_eq]
  exact (opened_steps file base file.root.children).linked (h.addScope .module file.root none)

/-- Binds files one after the other, adding to a store. -/
def bindAll (files : List Source) (base : Store) : Store :=
  files.foldl (fun store file => (bind file store).2) base

/-- Binding files one after the other keeps links complete. -/
theorem linked_bindAll (files : List Source) {base : Store} (h : base.Linked) :
    (bindAll files base).Linked := by
  induction files generalizing base with
  | nil => exact h
  | cons file rest ih => exact ih (bind_linked file h)

/-- However many files are bound, whatever their trees are: a table has a symbol under the symbol's
own name, and the symbol has been declared; the declarations of a symbol, each listed once, go by
its name and point back to it, and no other symbol lists them; its signatures point back to it, its
members have it as parent, and its type parameters are listed once. -/
theorem bindAll_linked (files : List Source) :
    let s := bindAll files {}
    (∀ scope, ∀ e ∈ (s.symbolsOf scope).entries, s.StandsUnder e.1 e.2) ∧
      (∀ id, s.LinkedAt id (s.symbol id)) ∧
      ∀ x y, ∀ d ∈ (s.symbol x).declarations, d ∈ (s.symbol y).declarations → x = y := by
  have hlinked := linked_bindAll files Store.linked_empty
  exact ⟨hlinked.standsUnder, hlinked.symbol, fun _ _ _ hx hy =>
    hlinked.eq_of_mem_declarations hx hy⟩

end ScriptGraph.Binding
