import Mathlib.Data.List.Basic
import ScriptGraph.Proofs.Syntax.Kinds
import ScriptGraph.Proofs.Syntax.Layout

/-!
# Declarations are listed in source order

A symbol lists its declarations in the order in which they are attached to it. The binder goes
through a file from the top to the end, but it declares the members of a class before it goes on
inside them. So the declarations with parameters that a symbol lists stand in the order of the
text, except that members of a class come before whatever is declared inside that class.

- `ListedBefore`: the order of the declarations of one symbol
- `Store.Lists`: what a file lists follows the constructs that have been gone through
- `Bind.bindTask_along`: one construct and what it leaves to be bound
- `Store.BoundWith.inSourceOrder`: the symbols of a file
-/

namespace ScriptGraph.Binding

open Syntax

/-- The constructs that `bindClass` is for. -/
def classKinds : List Kind :=
  [.classDeclaration, .abstractClassDeclaration, .classExpression]

/-- A declaration comes first in the text, or it is a member of a class that the other one stands
in. -/
def ListedBefore (a b : Node) : Prop :=
  a.start ≤ b.start ∨
    ∃ c : Node, c.isOneOf classKinds = true ∧ a ∈ c.constructsIn .body ∧ b.Within c

/-- The construct of a declaration that has parameters. -/
def Declaration.listed (d : Declaration) : List Node :=
  if d.kind.isCallable then [d.node] else []

namespace Store

/-- The constructs with parameters that some declarations are. -/
def listed (s : Store) (ids : List DeclarationId) : List Node :=
  ids.flatMap fun d => (s.declaration d).listed

/-- Some declarations are in a store, and what they list are some of the given constructs, in their
order. -/
structure Follows (s : Store) (gone : List Node) (ids : List DeclarationId) : Prop where
  within : ∀ d ∈ ids, d.index < s.declarations.size
  sublist : (s.listed ids).Sublist gone

/-- Such declarations of which all have parameters. -/
def FollowsAll (s : Store) (gone : List Node) (ids : List DeclarationId) : Prop :=
  s.Follows gone ids ∧ ∀ d ∈ ids, (s.declaration d).kind.isCallable = true

/-- The symbols that `base` does not have list constructs that have been gone through, in their
order. -/
structure Lists (base : Store) (gone : List Node) (s : Store) : Prop where
  declarations : ∀ id : SymbolId, base.symbols.size ≤ id.index →
    s.Follows gone (s.symbol id).declarations
  constructSignatures : ∀ id : SymbolId, base.symbols.size ≤ id.index →
    s.FollowsAll gone (s.symbol id).constructSignatures

/-- Another store has the declarations of a store, with the same kinds and constructs. -/
structure KeepsListed (old new : Store) : Prop where
  size_le : old.declarations.size ≤ new.declarations.size
  kind_eq : ∀ d : DeclarationId, d.index < old.declarations.size →
    (new.declaration d).kind = (old.declaration d).kind
  node_eq : ∀ d : DeclarationId, d.index < old.declarations.size →
    (new.declaration d).node = (old.declaration d).node

variable {base s next : Store} {gone more : List Node} {ids : List DeclarationId}

/-! ## One change -/

/-- A store with the same declarations keeps what is listed. -/
theorem KeepsListed.of_eq (h : next.declarations = s.declarations) : s.KeepsListed next where
  size_le := Nat.le_of_eq (congrArg Array.size h.symm)
  kind_eq d _ := by rw [declaration, h, declaration]
  node_eq d _ := by rw [declaration, h, declaration]

/-- An empty list follows any order. -/
theorem Follows.nil : s.Follows gone [] :=
  ⟨nofun, List.nil_sublist gone⟩

/-- More may have gone before. -/
theorem Follows.mono (h : s.Follows gone ids) (hmore : gone.Sublist more) : s.Follows more ids :=
  ⟨h.within, h.sublist.trans hmore⟩

/-- A change that keeps what is listed keeps the order. -/
theorem Follows.kept (h : s.Follows gone ids) (hnext : s.KeepsListed next) :
    next.Follows gone ids where
  within d hd := Nat.lt_of_lt_of_le (h.within d hd) hnext.size_le
  sublist := by
    have hlisted : next.listed ids = s.listed ids := by
      unfold listed Declaration.listed
      rw [List.flatMap_def, List.flatMap_def]
      refine congrArg List.flatten (List.map_congr_left fun d hd => ?_)
      rw [hnext.kind_eq d (h.within d hd), hnext.node_eq d (h.within d hd)]
    rw [hlisted]
    exact h.sublist

/-- One more declaration follows one more construct, if it has parameters. -/
theorem Follows.append (h : s.Follows gone ids) {d : DeclarationId}
    (hd : d.index < s.declarations.size) :
    s.Follows (gone ++ (s.declaration d).listed) (ids ++ [d]) where
  within e he := (List.mem_append.mp he).elim (h.within e) fun he => List.mem_singleton.mp he ▸ hd
  sublist := by
    rw [listed, List.flatMap_append, List.flatMap_singleton]
    exact h.sublist.append (.refl _)

/-- More may have gone before. -/
theorem FollowsAll.mono (h : s.FollowsAll gone ids) (hmore : gone.Sublist more) :
    s.FollowsAll more ids :=
  ⟨h.1.mono hmore, h.2⟩

/-- A change that keeps what is listed keeps the order of callables. -/
theorem FollowsAll.kept (h : s.FollowsAll gone ids) (hnext : s.KeepsListed next) :
    next.FollowsAll gone ids :=
  ⟨h.1.kept hnext, fun d hd =>
    (congrArg _ (hnext.kind_eq d (h.1.within d hd))).trans (h.2 d hd)⟩

/-- More may have gone before. -/
theorem Lists.mono (h : base.Lists gone s) (hmore : gone.Sublist more) : base.Lists more s where
  declarations id hid := (h.declarations id hid).mono hmore
  constructSignatures id hid := (h.constructSignatures id hid).mono hmore

/-- A change that leaves the symbols as they are. -/
theorem Lists.kept (h : base.Lists gone s) (hnext : s.KeepsListed next)
    (hsymbol : ∀ id, next.symbol id = s.symbol id) : base.Lists gone next where
  declarations id hid := by
    rw [hsymbol]
    exact (h.declarations id hid).kept hnext
  constructSignatures id hid := by
    rw [hsymbol]
    exact (h.constructSignatures id hid).kept hnext

/-- A change of a symbol that follows what has been gone through then. -/
theorem Lists.modifySymbol (h : base.Lists gone s) {id : SymbolId} {f : Symbol → Symbol}
    (hmore : gone.Sublist more)
    (hdeclarations : ∀ o : Symbol, s.Follows gone o.declarations →
      s.Follows more (f o).declarations)
    (hconstructSignatures : ∀ o : Symbol, s.FollowsAll gone o.constructSignatures →
      s.FollowsAll more (f o).constructSignatures) :
    base.Lists more (s.modifySymbol id f) := by
  have hkept : s.KeepsListed (s.modifySymbol id f) :=
    .of_eq rfl
  -- What other symbols list has not changed; a list that follows the shorter prefix follows the
  -- longer one.
  refine ⟨fun other hother => ?_, fun other hother => ?_⟩
  · rw [symbol_modifySymbol]
    split
    · exact (hdeclarations _ (h.declarations other hother)).kept hkept
    · exact ((h.declarations other hother).mono hmore).kept hkept
  · rw [symbol_modifySymbol]
    split
    · exact (hconstructSignatures _ (h.constructSignatures other hother)).kept hkept
    · exact ((h.constructSignatures other hother).mono hmore).kept hkept

/-- Nothing has been gone through, and there are no symbols yet. -/
theorem Lists.start (base : Store) : base.Lists [] base := by
  have hnew : ∀ id : SymbolId, base.symbols.size ≤ id.index → base.symbol id = default := by
    intro id hid
    rw [symbol, Array.getD_eq_getD_getElem?, Array.getElem?_eq_none hid]
    rfl
  refine ⟨fun id hid => ?_, fun id hid => ?_⟩
  · rw [hnew id hid]
    exact .nil
  · rw [hnew id hid]
    exact ⟨.nil, fun _ hd => absurd hd List.not_mem_nil⟩

/-- A new symbol lists nothing. -/
theorem Lists.addSymbol (h : base.Lists gone s) (name : String) (parent : Option SymbolId) :
    base.Lists gone (s.addSymbol { name, parent }).2 := by
  have hkept : s.KeepsListed (s.addSymbol { name, parent }).2 :=
    .of_eq rfl
  refine ⟨fun id hid => ?_, fun id hid => ?_⟩
  · rw [symbol_addSymbol]
    split
    · exact .nil
    · exact (h.declarations id hid).kept hkept
  · rw [symbol_addSymbol]
    split
    · exact ⟨.nil, nofun⟩
    · exact (h.constructSignatures id hid).kept hkept

/-- A declaration that is attached to nothing is listed nowhere. -/
theorem Lists.addDeclaration (h : base.Lists gone s) (d : Declaration) :
    base.Lists gone (s.addDeclaration d).2 := by
  have hsame : ∀ id : DeclarationId, id.index < s.declarations.size →
      (s.addDeclaration d).2.declaration id = s.declaration id := fun id hid => by
    rw [declaration_addDeclaration, if_neg (Nat.ne_of_lt hid)]
  exact h.kept ⟨(s.noSmaller_addDeclaration d).declarations_le, fun id hid => by rw [hsame id hid],
    fun id hid => by rw [hsame id hid]⟩ fun _ => rfl

/-- Scopes list no declarations. -/
theorem Lists.modifyScope (h : base.Lists gone s) (id : ScopeId) (f : Scope → Scope) :
    base.Lists gone (s.modifyScope id f) :=
  h.kept (.of_eq rfl) fun _ => rfl

/-- Putting a symbol into a scope lists nothing. -/
theorem Lists.putSymbol (h : base.Lists gone s) (scope : ScopeId) (name : String)
    (symbol : SymbolId) : base.Lists gone (s.putSymbol scope name symbol) := by
  unfold Store.putSymbol
  split
  · exact h.modifyScope _ _
  · exact h.modifySymbol (.refl _) (fun _ ho => ho) fun _ ho => ho

/-- A declaration that is attached to a symbol is one that has been gone through. -/
theorem Lists.attach (h : base.Lists gone s) (symbol : SymbolId) {d : DeclarationId}
    (hd : d.index < s.declarations.size) :
    base.Lists (gone ++ (s.declaration d).listed) (s.attach symbol d) := by
  let f : Declaration → Declaration := fun decl => { decl with symbol := some symbol }
  -- Attaching changes the symbol of the declaration, not what it lists.
  have hsame : ∀ id, ((s.modifyDeclaration d f).declaration id).kind = (s.declaration id).kind ∧
      ((s.modifyDeclaration d f).declaration id).node = (s.declaration id).node := by
    intro id
    rw [declaration_modifyDeclaration]
    split <;> exact ⟨rfl, rfl⟩
  have hkept := (s.noSmaller_modifyDeclaration d f).declarations_le
  have hlisted : ((s.modifyDeclaration d f).declaration d).listed = (s.declaration d).listed := by
    rw [Declaration.listed, (hsame d).1, (hsame d).2, Declaration.listed]
  have hattached : base.Lists gone (s.modifyDeclaration d f) :=
    h.kept ⟨hkept, fun id _ => (hsame id).1, fun id _ => (hsame id).2⟩ fun _ => rfl
  refine hattached.modifySymbol (List.sublist_append_left _ _) (fun o ho => ?_)
    fun o ho => ho.mono (List.sublist_append_left _ _)
  rw [← hlisted]
  exact ho.append (Nat.lt_of_lt_of_le hd hkept)

end Store

namespace Bind

/-- What the symbols of a file list when some constructs have been gone through. -/
abbrev Along (base : Store) (gone : List Node) (p : Progress) : Prop :=
  base.Lists gone p.store

/-- At the same time a declaration has been recorded under a number, to be attached. -/
structure Pending (base : Store) (gone : List Node) (d : Declaration) (id : DeclarationId)
    (p : Progress) : Prop where
  along : Along base gone p
  index_lt : id.index < p.store.declarations.size
  kind_eq : (p.store.declaration id).kind = d.kind
  node_eq : (p.store.declaration id).node = d.node

variable {base : Store} {gone : List Node} {d : Declaration} {id : DeclarationId}

/-- More constructs may have gone before. -/
theorem Along.append {p : Progress} (h : Along base gone p) (more : List Node) :
    Along base (gone ++ more) p :=
  h.mono (List.sublist_append_left _ _)

/-- A declaration without parameters lists nothing. -/
theorem Along.of_plain {p : Progress} (hd : d.kind.isCallable = false)
    (h : Along base (gone ++ d.listed) p) : Along base gone p := by
  rwa [Declaration.listed, hd, if_neg Bool.false_ne_true, List.append_nil] at h

/-- A declaration that is still to be attached lists what it has been recorded with. -/
theorem Pending.listed_eq {p : Progress} (h : Pending base gone d id p) :
    (p.store.declaration id).listed = d.listed := by
  rw [Declaration.listed, h.kind_eq, h.node_eq, Declaration.listed]

/-- Changes that leave the declarations as they are. -/
theorem Pending.kept {p next : Progress} (h : Pending base gone d id p)
    (hnext : Along base gone next) (hkept : p.store.KeepsListed next.store) :
    Pending base gone d id next where
  along := hnext
  index_lt := Nat.lt_of_lt_of_le h.index_lt hkept.size_le
  kind_eq := (hkept.kind_eq id h.index_lt).trans h.kind_eq
  node_eq := (hkept.node_eq id h.index_lt).trans h.node_eq

/-! ## Scopes, declarations and members -/

/-- Opening a scope lists no callable. -/
theorem openScope_along {kind : ScopeKind} {node : Node} {parent : ScopeId} :
    Ensures (Along base gone) (openScope kind node parent) fun _ => Along base gone :=
  fun _ hp => hp.kept (.of_eq rfl) fun _ => rfl

/-- Opening a scope leaves a declaration pending. -/
theorem openScope_pending {kind : ScopeKind} {node : Node} {parent : ScopeId} :
    Ensures (Pending base gone d id) (openScope kind node parent) fun _ => Pending base gone d id :=
  fun p hp => hp.kept (openScope_along p hp.along)
    (.of_eq rfl)

/-- A declaration is pending after it has been recorded. -/
theorem record_pending_along :
    Ensures (Along base gone) (record d) fun id => Pending base gone d id := by
  intro p hp
  have hnew : (p.store.addDeclaration d).2.declaration (p.store.addDeclaration d).1 = d := by
    rw [Store.declaration_addDeclaration]
    exact if_pos rfl
  exact ⟨hp.addDeclaration d, Nat.lt_of_lt_of_eq (Nat.lt_succ_self _) (Array.size_push d).symm,
    congrArg Declaration.kind hnew, congrArg Declaration.node hnew⟩

/-- Recording a declaration lists no callable. -/
theorem record_along : Ensures (Along base gone) (record d) fun _ => Along base gone :=
  record_pending_along.weaken fun _ _ hp => hp.along

/-- Entering a symbol in a scope lists no callable. -/
theorem enter_along {scope : ScopeId} {name : String} {symbol : SymbolId} :
    Ensures (Along base gone) (enter scope name symbol) fun _ => Along base gone :=
  fun _ hp => hp.putSymbol scope name symbol

/-- Adding a symbol lists no callable. -/
theorem addSymbol_along {name : String} {parent : Option SymbolId} :
    Ensures (Along base gone) (onStore (·.addSymbol { name, parent })) fun _ => Along base gone :=
  fun _ hp => hp.addSymbol name parent

/-- Attaching a declaration to a symbol lists it after what has gone before, if it is callable. -/
theorem attach_along {symbol : SymbolId} :
    Ensures (Pending base gone d id) (modifyStore (·.attach symbol id))
      fun _ => Along base (gone ++ d.listed) :=
  fun _ hp => hp.listed_eq ▸ hp.along.attach symbol hp.index_lt

/-- Attaching a declaration in a scope lists it after what has gone before, if it is callable. -/
theorem attachIn_along {scope : ScopeId} {name : String} :
    Ensures (Pending base gone d id) (attachIn scope name id)
      fun _ => Along base (gone ++ d.listed) := by
  -- Either way the declaration is attached last, and its node comes after what has been listed.
  have hattach : ∀ symbol : SymbolId, Ensures (Pending base gone d id)
      (do modifyStore (·.attach symbol id); return symbol)
      fun _ => Along base (gone ++ d.listed) :=
    fun _ => .bind attach_along fun _ => .pure fun _ hp => hp
  refine .get fun now => .of_imp (P := Pending base gone d id) ?_ fun _ hp => hp.1
  dsimp only
  split
  · exact hattach _
  · refine .bind (R := fun _ => Pending base gone d id) (fun p hp =>
      hp.kept (addSymbol_along p hp.along) (.of_eq rfl))
      fun symbol => .bind (R := fun _ => Pending base gone d id) (fun p hp =>
        hp.kept (enter_along p hp.along) ?_) fun _ => hattach symbol
    -- Entering a name into a table changes no declaration.
    exact ⟨(p.store.noSmaller_putSymbol scope name symbol).declarations_le,
      fun _ _ => congrArg Declaration.kind (Store.declaration_putSymbol _ _ _ _ _),
      fun _ _ => congrArg Declaration.node (Store.declaration_putSymbol _ _ _ _ _)⟩

/-- Declaring a name in a scope lists it after what has gone before, if it is callable. -/
theorem declare_along {scope : ScopeId} :
    Ensures (Along base gone) (declare scope d) fun _ => Along base (gone ++ d.listed) :=
  .bind record_pending_along fun _ => attachIn_along

/-- Declaring a name in a scope lists nothing if it is not callable. -/
theorem declare_along_plain {scope : ScopeId} (hd : d.kind.isCallable = false) :
    Ensures (Along base gone) (declare scope d) fun _ => Along base gone :=
  declare_along.weaken fun _ _ hp => hp.of_plain hd

/-- Declaring a member lists it after what has gone before, if it is callable. -/
theorem declareMember_along {owner : SymbolId} :
    Ensures (Along base gone) (declareMember owner d) fun _ => Along base (gone ++ d.listed) := by
  refine .bind record_pending_along fun id => .get fun now =>
    .of_imp (P := Pending base gone d id) ?_ fun _ hp => hp.1
  dsimp only
  split
  · exact attach_along
  -- The new symbol and its entry list no callable; attaching does.
  · refine .bind (R := fun _ => Pending base gone d id) (fun p hp =>
      hp.kept (addSymbol_along p hp.along) (.of_eq rfl))
      fun symbol => .bind (R := fun _ => Pending base gone d id) (fun p hp =>
        hp.kept (hp.along.modifySymbol (.refl _) ?_ ?_) (.of_eq rfl))
          fun _ => attach_along
    · intro o ho
      split <;> exact ho
    · intro o ho
      split <;> exact ho

/-- Declaring a member lists nothing if it is not callable. -/
theorem declareMember_along_plain {owner : SymbolId} (hd : d.kind.isCallable = false) :
    Ensures (Along base gone) (declareMember owner d) fun _ => Along base gone :=
  declareMember_along.weaken fun _ _ hp => hp.of_plain hd

/-- Adding a construct signature puts it after all that has been listed. -/
theorem addConstructSignature_along {owner : SymbolId} (hd : d.kind.isCallable = true) :
    Ensures (Along base gone) (addConstructSignature owner d)
      fun _ => Along base (gone ++ [d.node]) := by
  refine .bind record_pending_along fun id p hp => ?_
  have hlisted : (p.store.declaration id).listed = [d.node] := by
    rw [hp.listed_eq, Declaration.listed, hd]
    rfl
  refine hp.along.modifySymbol (List.sublist_append_left _ _)
    (fun o ho => ho.mono (List.sublist_append_left _ _)) fun o ho => ⟨?_, ?_⟩
  · exact hlisted ▸ ho.1.append hp.index_lt
  · exact List.forall_mem_append.mpr ⟨ho.2, List.forall_mem_singleton.mpr (hp.kind_eq ▸ hd)⟩

/-- Adding a call signature lists no callable. -/
theorem addCallSignature_along {owner : SymbolId} :
    Ensures (Along base gone) (addCallSignature owner d) fun _ => Along base gone :=
  .bind record_along fun _ _ hp => hp.modifySymbol (.refl _) (fun _ ho => ho) fun _ ho => ho

/-- Declaring type parameters lists no callable. -/
theorem declareTypeParameters_along {node : Node} {scope : ScopeId} {owner : Option SymbolId} :
    Ensures (Along base gone) (declareTypeParameters node scope owner)
      fun _ => Along base gone := by
  refine .forM fun param _ => ?_
  split
  · exact .pure fun _ hp => hp
  · refine .bind (declare_along_plain rfl) fun _ => ?_
    split
    · exact .pure fun _ hp => hp
    · refine fun p hp => hp.modifySymbol (.refl _) (fun o ho => ?_) fun o ho => ?_
      · split <;> exact ho
      · split <;> exact ho

/-- Declaring the properties among the parameters of a constructor lists no callable. -/
theorem declareParameterProperties_along {owner : SymbolId} {ctor : Node} :
    Ensures (Along base gone) (declareParameterProperties owner ctor) fun _ => Along base gone := by
  refine .forM fun param _ => ?_
  split
  · split
    · split
      · exact declareMember_along_plain rfl
      · exact .pure fun _ hp => hp
    · exact .pure fun _ hp => hp
  · exact .pure fun _ hp => hp

/-- Declaring a method puts it after all that has been listed. -/
theorem declareMethod_along {owner : SymbolId} {member : Node} :
    Ensures (Along base gone) (declareMethod owner member)
      fun _ => Along base (gone ++ [member]) := by
  unfold declareMethod
  dsimp only
  split
  · exact .pure fun _ hp => hp.append _
  · split
    · exact .bind (addConstructSignature_along rfl) fun _ => declareParameterProperties_along
    · refine declareMember_along.weaken fun _ _ hp => ?_
      -- A method has parameters whether it has a body or not.
      split at hp <;> exact hp

/-- Declaring a field puts it after all that has been listed. -/
theorem declareField_along {owner : SymbolId} {member : Node} :
    Ensures (Along base gone) (declareField owner member)
      fun _ => Along base (gone ++ [member]) := by
  unfold declareField
  dsimp only
  split
  · exact .pure fun _ hp => hp.append _
  · exact (declareMember_along_plain rfl).weaken fun _ _ hp => hp.append _

/-- Declaring a member of a class puts it after all that has been listed. -/
theorem declareClassMember_along {owner : SymbolId} {member : Node} :
    Ensures (Along base gone) (declareClassMember owner member)
      fun _ => Along base (gone ++ [member]) := by
  unfold declareClassMember
  split
  · exact declareMethod_along
  · split
    · exact declareField_along
    · exact .pure fun _ hp => hp.append _

/-- Declaring a part of an object type puts it after all that has been listed. -/
theorem declareTypeMember_along {owner : SymbolId} {scope : ScopeId} {member : Node} :
    Ensures (Along base gone) (declareTypeMember owner scope member)
      fun _ => Along base (gone ++ [member]) := by
  -- The type parameters are declared after the part itself, and are no callables.
  have hown : ∀ {gone : List Node}, Ensures (Along base gone)
      (if (member.child? .typeParameters).isSome then do
          let inner ← openScope .function member scope
          declareTypeParameters member inner none
        else pure ()) fun _ => Along base gone := by
    intro gone
    split
    · exact .bind openScope_along fun _ => declareTypeParameters_along
    · exact .pure fun _ hp => hp
  unfold declareTypeMember
  dsimp only
  split
  · exact .bind (declareMember_along_plain rfl) fun _ => hown.weaken fun _ _ hp => hp.append _
  · exact .bind declareMember_along fun _ => hown
  · exact .bind (addConstructSignature_along rfl) fun _ => hown
  · exact .bind addCallSignature_along fun _ => hown.weaken fun _ _ hp => hp.append _
  · exact .pure fun _ hp => hp.append _

/-- Declaring a member of an enumeration lists no callable. -/
theorem declareEnumMember_along {owner : SymbolId} {member : Node} :
    Ensures (Along base gone) (declareEnumMember owner member) fun _ => Along base gone := by
  unfold declareEnumMember
  -- Which construct the name is does not matter.
  generalize (if member.is .enumAssignment then member.child? .name else some member) = nameNode
  dsimp only
  split
  · exact .pure fun _ hp => hp
  · exact declareMember_along_plain rfl

/-! ## Imports and exports -/

/-- Declaring an imported name lists no callable. -/
theorem declareAlias_along {scope : ScopeId} {specifier imported name : String}
    {node nameNode : Node} :
    Ensures (Along base gone) (declareAlias scope specifier imported name node nameNode)
      fun _ => Along base gone :=
  .bind (declare_along_plain rfl) fun _ => .pure fun _ hp => hp

/-- Binding a part of an import clause lists no callable. -/
theorem bindImportPart_along {scope : ScopeId} {specifier : String} {part : Node} :
    Ensures (Along base gone) (bindImportPart scope specifier part) fun _ => Along base gone := by
  unfold bindImportPart
  split
  -- The whole module, its default export, a list of names.
  · exact declareAlias_along
  · split
    · exact declareAlias_along
    · exact .pure fun _ hp => hp
  · refine .forM fun item _ => ?_
    split
    · dsimp only
      split
      · exact declareAlias_along
      · exact .pure fun _ hp => hp
    · exact .pure fun _ hp => hp
  · exact .pure fun _ hp => hp

/-- Binding an import statement lists no callable. -/
theorem bindImport_along {scope : ScopeId} {node : Node} :
    Ensures (Along base gone) (bindImport scope node) fun _ => Along base gone := by
  refine .forM fun child _ => ?_
  split
  · exact .forM fun _ _ => bindImportPart_along
  · split
    · exact declareAlias_along
    · exact .pure fun _ hp => hp
  · exact .pure fun _ hp => hp

/-- Exposing a name lists no callable. -/
theorem expose_along {module : ScopeId} {name : String} {entry : ExportEntry} :
    Ensures (Along base gone) (expose module name entry) fun _ => Along base gone :=
  fun _ hp => hp.modifyScope module _

/-- Exposing what is declared lists no callable. -/
theorem exposeDeclared_along {module : ScopeId} {isDefault : Bool} {declaration : Node} :
    Ensures (Along base gone) (exposeDeclared module isDefault declaration)
      fun _ => Along base gone := by
  unfold exposeDeclared
  split
  · split
    · exact expose_along
    · exact .pure fun _ hp => hp
  · exact .forM fun _ _ => expose_along

/-- Exposing a value lists no callable. -/
theorem exposeValue_along {module : ScopeId} {name : String} {value : Node} :
    Ensures (Along base gone) (exposeValue module name value) fun _ => Along base gone := by
  unfold exposeValue
  split
  · exact expose_along
  · refine .bind addSymbol_along fun _ => .bind record_pending_along fun _ =>
      .bind (attach_along.weaken fun _ _ hp => hp.of_plain rfl) fun _ => expose_along

/-- Exposing the name of a specifier lists no callable. -/
theorem exposeSpecifier_along {module : ScopeId} {specifier : Option String} {item : Node} :
    Ensures (Along base gone) (exposeSpecifier module specifier item) fun _ => Along base gone := by
  unfold exposeSpecifier
  split
  · dsimp only
    split
    · split
      · exact expose_along
      · exact expose_along
    · exact .pure fun _ hp => hp
  · exact .pure fun _ hp => hp

/-- Exposing the names of a list lists no callable. -/
theorem exposeNames_along {module : ScopeId} {node : Node} :
    Ensures (Along base gone) (exposeNames module node) fun _ => Along base gone := by
  unfold exposeNames
  dsimp only
  split
  -- A list of names, a star under a name, a plain star.
  · exact .forM fun _ _ => exposeSpecifier_along
  · split
    · split
      · exact expose_along
      · exact .pure fun _ hp => hp
    · exact .pure fun _ hp => hp
    · split
      · exact fun _ hp => hp.modifyScope module _
      · exact .pure fun _ hp => hp
    · exact .pure fun _ hp => hp

/-! ## One construct -/

/-- What a construct declares itself comes before what is declared inside the parts that are still
to be bound, and these stand in a row. -/
structure Opens (n : Node) (own inside : List Node) : Prop where
  inOrder : own.Pairwise ListedBefore
  within : ∀ m ∈ own, m.Within n
  row : Row n inside
  before : ∀ m ∈ own, ∀ c ∈ inside, ∀ b : Node, b.Within c → ListedBefore m b

/-- The parts of a construct that are left to be bound, when what the construct declares itself has
been gone through. -/
def LeavesAlong (base : Store) (gone : List Node) (n : Node) (rest : List Task) (p : Progress) :
    Prop :=
  ∃ own, Along base (gone ++ own) p ∧ Opens n own (rest.map Task.node)

/-- The nodes of tasks are the nodes they were made for. -/
theorem map_node_tasks {scope enclosing : ScopeId} {nodes : List Node} :
    (tasks scope enclosing nodes).map Task.node = nodes := by
  rw [tasks, List.map_map]
  exact List.map_id nodes

variable {n : Node} {inside : List Node} {scope enclosing : ScopeId} {p : Progress}

/-- A construct that declares nothing itself. -/
theorem LeavesAlong.plain (hp : Along base gone p) (hrow : Row n inside) :
    LeavesAlong base gone n (tasks scope enclosing inside) p :=
  ⟨[], hp.append [], .nil, nofun, map_node_tasks.symm ▸ hrow, nofun⟩

/-- A construct may leave nothing to be bound inside. -/
theorem LeavesAlong.nothing (hp : Along base gone p) : LeavesAlong base gone n [] p :=
  ⟨[], hp.append [], .nil, nofun, .nil, nofun⟩

/-- A construct that is declared itself. -/
theorem LeavesAlong.self (hn : n.tree.laidOut = true) (hp : Along base (gone ++ [n]) p)
    (hrow : Row n inside) : LeavesAlong base gone n (tasks scope enclosing inside) p := by
  refine ⟨[n], hp, List.pairwise_singleton _ _, List.forall_mem_singleton.mpr (.refl hn),
    map_node_tasks.symm ▸ hrow, List.forall_mem_singleton.mpr fun c hc b hb => .inl ?_⟩
  rw [map_node_tasks] at hc
  exact Nat.le_trans (hrow.within c hc).1 hb.1

/-- A row of nodes stands in source order. -/
theorem pairwise_of_row (h : Row n inside) : inside.Pairwise ListedBefore :=
  h.inOrder.imp_of_mem fun ha _ hab => .inl (Nat.le_trans (h.within _ ha).2.1 hab)

/-- A construct that declares its parts and leaves nothing. -/
theorem LeavesAlong.parts (hp : Along base (gone ++ inside) p) (hrow : Row n inside) :
    LeavesAlong base gone n [] p :=
  ⟨inside, hp, pairwise_of_row hrow, hrow.within, .nil, fun _ _ => nofun⟩

/-- A class declares its members before what is inside them. -/
theorem LeavesAlong.members (hn : n.isOneOf classKinds = true)
    (hp : Along base (gone ++ n.constructsIn .body) p) (hmembers : Row n (n.constructsIn .body))
    (hrow : Row n inside) : LeavesAlong base gone n (tasks scope enclosing inside) p := by
  refine ⟨n.constructsIn .body, hp, pairwise_of_row hmembers, hmembers.within,
    map_node_tasks.symm ▸ hrow, fun m hm c hc b hb => .inr ⟨n, hn, hm, hb.trans ?_⟩⟩
  rw [map_node_tasks] at hc
  exact hrow.within c hc

/-! ## The walk -/

/-- Declaring parameters lists no callable. -/
theorem declareParameters_along {inner : ScopeId} {node : Node} :
    Ensures (Along base gone) (declareParameters inner node) fun _ => Along base gone := by
  have hmany : Ensures (Along base gone)
      ((node.constructsIn .parameters).forM fun param => (boundNames param).forM fun name => do
        let _ ← declare inner
          { kind := .parameter, name := name.text, node := param, nameNode := some name })
      fun _ => Along base gone :=
    .forM fun _ _ => .forM fun _ _ => .bind (declare_along_plain rfl) fun _ => .pure fun _ hp => hp
  unfold declareParameters
  split
  · exact .bind (declare_along_plain rfl) fun _ => hmany
  · exact hmany

/-- Declaring variables lists no callable. -/
theorem declareVariables_along {scope : ScopeId} {node : Node} {names : List Node} :
    Ensures (Along base gone) (declareVariables scope node names) fun _ => Along base gone :=
  .forM fun _ _ => .bind (declare_along_plain rfl) fun _ => .pure fun _ hp => hp

/-- The declaration of a function expression. -/
def expressionOf (n : Node) : Declaration :=
  { kind := .functionExpression, name := functionName n, node := n, nameNode := n.child? .name }

/-- Of the functions that are recorded, a function expression is still to be attached. -/
theorem recordFunction_along {t : Task} :
    Ensures (Along base gone) (recordFunction t) fun expression p =>
      expression.elim (Along base (gone ++ [t.node]) p)
        fun id => Pending base gone (expressionOf t.node) id p := by
  unfold recordFunction
  dsimp only
  split
  · split
    · refine .bind declare_along fun _ => .pure fun p hp => ?_
      -- A function has parameters whether it has a body or not.
      split at hp <;> exact hp
    · exact .pure fun _ hp => hp.append _
  · split
    · exact .map record_pending_along
    · split
      · exact .bind record_along fun _ => .pure fun _ hp => hp.append _
      · exact .pure fun _ hp => hp.append _

/-- Binding a function keeps to source order, and leaves constructs that come later. -/
theorem bindFunction_along {t : Task} (hn : t.node.tree.laidOut = true) :
    Ensures (Along base gone) (bindFunction t) (LeavesAlong base gone t.node) := by
  have hinside : ∀ inner, Ensures (Along base (gone ++ [t.node])) (do
      declareTypeParameters t.node inner none
      declareParameters inner t.node
      return tasks inner inner (t.node.constructsIn .parameters ++ (t.node.child? .body).toList))
      (LeavesAlong base gone t.node) := fun _ =>
    .bind declareTypeParameters_along fun _ => .bind declareParameters_along fun _ =>
      .pure fun _ hp => .self hn hp (.constructsBeforeBody hn (.inl rfl))
  refine .bind recordFunction_along fun expression => ?_
  cases expression with
  | none =>
    show Ensures (Along base (gone ++ [t.node])) _ _
    exact .bind openScope_along hinside
  | some id =>
    show Ensures (Pending base gone (expressionOf t.node) id) _ _
    refine .bind openScope_pending fun inner => ?_
    cases hname : t.node.child? .name with
    | none => exact (hinside inner).of_imp fun _ hp => hp.along.append _
    -- A function expression with a name declares it inside itself.
    | some name => exact .bind attachIn_along fun _ => hinside inner

/-- Declaring a class lists no callable. -/
theorem declareClass_along {t : Task} :
    Ensures (Along base gone) (declareClass t) fun _ => Along base gone := by
  unfold declareClass
  split
  dsimp only
  split
  · exact declare_along_plain rfl
  · exact .bind addSymbol_along fun _ => .bind record_pending_along fun _ =>
      .bind (attach_along.weaken fun _ _ hp => hp.of_plain rfl) fun _ => .pure fun _ hp => hp

/-- Binding a class keeps to source order, and leaves constructs that come later. -/
theorem bindClass_along {t : Task} (hn : t.node.tree.laidOut = true)
    (hclass : t.node.isOneOf classKinds = true) :
    Ensures (Along base gone) (bindClass t) (LeavesAlong base gone t.node) := by
  refine .bind declareClass_along fun symbol => .bind openScope_along fun inner => ?_
  -- The members are listed in the order of the body, and what is left lies inside them.
  have hrest : Ensures (Along base gone) (do
      declareTypeParameters t.node inner symbol
      (t.node.constructsIn .body).forM (declareClassMember symbol)
      return tasks inner t.enclosing t.node.namedChildren) (LeavesAlong base gone t.node) :=
    .bind declareTypeParameters_along fun _ =>
      .bind (.forM_from (fun _ _ => declareClassMember_along) gone) fun _ => .pure fun _ hp =>
        .members hclass hp (.constructsIn hn .body) (.namedChildren hn)
  dsimp only
  split
  · exact .bind enter_along fun _ => hrest
  · exact hrest

/-- Binding an interface keeps to source order, and leaves constructs that come later. -/
theorem bindInterface_along {t : Task} (hn : t.node.tree.laidOut = true) :
    Ensures (Along base gone) (bindInterface t) fun _ => LeavesAlong base gone t.node [] := by
  unfold bindInterface
  split
  · exact .pure fun _ hp => .nothing hp
  · exact .bind (declare_along_plain rfl) fun _ => .bind openScope_along fun _ =>
      .bind declareTypeParameters_along fun _ => .weaken
        (.forM_from (fun _ _ => declareTypeMember_along) gone) fun _ _ hp =>
          .parts hp (.constructsIn hn .body)

/-- Binding a type alias keeps to source order, and leaves constructs that come later. -/
theorem bindTypeAlias_along {t : Task} (hn : t.node.tree.laidOut = true) :
    Ensures (Along base gone) (bindTypeAlias t) fun _ => LeavesAlong base gone t.node [] := by
  unfold bindTypeAlias
  split
  · exact .pure fun _ hp => .nothing hp
  · refine .bind (declare_along_plain rfl) fun _ => .bind openScope_along fun _ =>
      .bind declareTypeParameters_along fun _ => ?_
    split
    · rename_i value hvalue
      split
      -- The parts of an object type are the constructs in the value, in a row.
      · have hrow := Row.constructsIn hn .value
        rw [Node.constructsIn, hvalue] at hrow
        exact .weaken (.forM_from (fun _ _ => declareTypeMember_along) gone) fun _ _ hp =>
          .parts hp hrow
      · exact .pure fun _ hp => .nothing hp
    · exact .pure fun _ hp => .nothing hp

/-- Binding an enumeration keeps to source order, and leaves constructs that come later. -/
theorem bindEnum_along {t : Task} :
    Ensures (Along base gone) (bindEnum t) fun _ => LeavesAlong base gone t.node [] := by
  unfold bindEnum
  split
  · exact .pure fun _ hp => .nothing hp
  · exact .bind (declare_along_plain rfl) fun _ => .weaken
      (.forM fun _ _ => declareEnumMember_along) fun _ _ hp => .nothing hp

/-- Binding variables keeps to source order, and leaves constructs that come later. -/
theorem bindVariables_along {t : Task} (hn : t.node.tree.laidOut = true) :
    Ensures (Along base gone) (bindVariables t) (LeavesAlong base gone t.node) := by
  refine .bind (.forM fun _ _ => declareVariables_along) fun _ => .pure fun _ hp => .plain hp ?_
  have hdeclarators := (Row.constructs hn).sublist
    (List.filter_sublist (p := fun c => c.is .variableDeclarator))
  rw [List.filterMap_eq_flatMap_toList]
  exact hdeclarators.flatMap fun d hd => .child? (hdeclarators.laidOut d hd) .value

/-- Binding a loop over items keeps to source order, and leaves constructs that come later. -/
theorem bindIteration_along {t : Task} (hn : t.node.tree.laidOut = true) :
    Ensures (Along base gone) (bindIteration t) (LeavesAlong base gone t.node) := by
  refine .bind openScope_along fun inner => ?_
  dsimp only
  split
  · exact .bind declareVariables_along fun _ => .pure fun _ hp =>
      .plain hp (.beforeBody hn (.inr rfl))
  · exact .pure fun _ hp => .plain hp (.beforeBody hn (.inr rfl))

/-- Binding a handler of exceptions keeps to source order, and leaves constructs that come later. -/
theorem bindHandler_along {t : Task} (hn : t.node.tree.laidOut = true) :
    Ensures (Along base gone) (bindHandler t) (LeavesAlong base gone t.node) :=
  .bind openScope_along fun _ => .bind declareVariables_along fun _ => .pure fun _ hp =>
    .plain hp (.child? hn .body)

/-- Binding an export statement leaves a row of constructs inside it. -/
theorem bindExport_along {scope : ScopeId} (hn : n.tree.laidOut = true) :
    Ensures (Along base gone) (bindExport scope n)
      fun rest p => Along base gone p ∧ Row n rest := by
  -- A single construct is a row.
  have hpart : ∀ {f : Field} {c : Node}, n.child? f = some c → Row n [c] := fun {f c} hc => by
    have hrow := Row.child? hn f
    rwa [hc] at hrow
  refine .get fun now => .of_imp (P := Along base gone) ?_ fun _ hp => hp.1
  dsimp only
  split
  · rename_i d hd
    exact .bind exposeDeclared_along fun _ => .pure fun _ hp => ⟨hp, hpart hd⟩
  · split
    · split
      · rename_i value hv
        refine .bind exposeValue_along fun _ => .pure fun _ hp => ⟨hp, ?_⟩
        rcases Option.or_eq_some_iff.mp hv with hv | ⟨-, hv⟩
        · exact hpart hv
        · exact (Row.constructs hn).sublist (List.singleton_sublist.mpr (List.mem_of_getLast? hv))
      · exact .pure fun _ hp => ⟨hp, .nil⟩
    · exact .bind exposeNames_along fun _ => .pure fun _ hp => ⟨hp, .nil⟩

/-- Binding an ambient declaration keeps to source order, and leaves constructs that come later. -/
theorem bindAmbient_along {t : Task} (hn : t.node.tree.laidOut = true) :
    Ensures (Along base gone) (bindAmbient t) (LeavesAlong base gone t.node) := by
  unfold bindAmbient
  split
  · refine .get fun now => .of_imp (P := Along base gone) ?_ fun _ hp => hp.1
    dsimp only
    split
    · rename_i block hblock
      have hmem := List.mem_of_find?_eq_some hblock
      have hrow := Row.constructs hn
      exact .pure fun _ hp =>
        .plain hp ((Row.children (hrow.laidOut block hmem)).inside (hrow.within block hmem))
    · exact .pure fun _ hp => .nothing hp
  · exact .pure fun _ hp => .plain hp (.children hn)

/-- Binding a namespace or a module keeps to source order, and leaves constructs that come later. -/
theorem bindModule_along {t : Task} (hn : t.node.tree.laidOut = true) :
    Ensures (Along base gone) (bindModule t) (LeavesAlong base gone t.node) := by
  unfold bindModule
  split
  · exact .pure fun _ hp => .nothing hp
  refine .bind openScope_along fun inner => ?_
  -- The row is that of the statements of the body.
  have hbody := Row.child? hn .body
  have hrow : Row t.node ((t.node.child? .body).toList.flatMap Node.children) :=
    hbody.flatMap fun c hc => .children (hbody.laidOut c hc)
  dsimp only
  split
  · exact .bind (fun _ hp => hp.modifyScope inner _) fun _ =>
      .bind (R := fun _ => Along base gone) (fun _ hp => hp) fun _ =>
        .pure fun _ hp => .plain hp hrow
  · exact .bind (declare_along_plain rfl) fun symbol =>
      .bind (fun _ hp => hp.modifyScope inner _) fun _ => .pure fun _ hp => .plain hp hrow

/-- Binding one construct keeps to source order, and leaves constructs that come later. -/
theorem bindTask_along {t : Task} (hn : t.node.tree.laidOut = true) :
    Ensures (Along base gone) (bindTask t) (LeavesAlong base gone t.node) := by
  -- Some constructs leave nothing to be bound inside them.
  have hnone : ∀ {action : Bind Unit}, Ensures (Along base gone) action
      (fun _ => LeavesAlong base gone t.node []) →
      Ensures (Along base gone) (do action; return []) (LeavesAlong base gone t.node) := fun h =>
    .bind h fun _ => .pure fun _ hp => hp
  have hclass : ∀ {k : Kind}, t.node.kind? = some k → k ∈ classKinds →
      Ensures (Along base gone) (bindClass t) (LeavesAlong base gone t.node) := fun hk hmem =>
    bindClass_along hn (List.any_eq_true.mpr ⟨_, hmem, Node.is_of_kind? hk⟩)
  have hblock : Ensures (Along base gone) (do
      let inner ← openScope .block t.node t.scope
      return tasks inner t.enclosing t.node.children) (LeavesAlong base gone t.node) :=
    .bind openScope_along fun _ => .pure fun _ hp => .plain hp (.children hn)
  -- One case for each kind of construct, in the order of the definition.
  unfold bindTask
  split
  · exact bindFunction_along hn
  · exact bindFunction_along hn
  · exact bindFunction_along hn
  · exact bindFunction_along hn
  · exact bindFunction_along hn
  · exact bindFunction_along hn
  · exact bindFunction_along hn
  · exact hclass ‹_› (by decide)
  · exact hclass ‹_› (by decide)
  · exact hclass ‹_› (by decide)
  · exact hnone (bindInterface_along hn)
  · exact hnone (bindTypeAlias_along hn)
  · exact hnone bindEnum_along
  · exact bindVariables_along hn
  · exact bindVariables_along hn
  · exact hnone (bindImport_along.weaken fun _ _ hp => .nothing hp)
  · exact .bind (bindExport_along hn) fun rest => .pure fun _ hp => .plain hp.1 hp.2
  · exact bindAmbient_along hn
  · exact bindModule_along hn
  · exact bindModule_along hn
  · exact hblock
  · exact hblock
  · exact bindIteration_along hn
  · exact bindHandler_along hn
  · exact .pure fun _ hp => .plain hp (.children hn)

/-- More constructs have been gone through, in the order of the text and all with `φ`. -/
def GoesOn (base : Store) (gone : List Node) (φ : Node → Prop) (p : Progress) : Prop :=
  ∃ more, Along base (gone ++ more) p ∧ more.Pairwise ListedBefore ∧ ∀ m ∈ more, φ m

/-- If each part of a row is gone through in order, so are all of them one after the other. -/
theorem forM_goesOn {ts : List Task} {f : Task → Bind Unit}
    (hf : ∀ gone, ∀ t ∈ ts, Ensures (Along base gone) (f t)
      fun _ => GoesOn base gone (Node.Within · t.node))
    (hrow : (ts.map Task.node).Pairwise fun a b => a.stop ≤ b.start) (gone : List Node) :
    Ensures (Along base gone) (ts.forM f)
      fun _ => GoesOn base gone fun m => ∃ c ∈ ts.map Task.node, m.Within c := by
  induction ts generalizing gone with
  | nil => exact .pure fun _ hp => ⟨[], hp.append [], .nil, nofun⟩
  | cons t rest ih =>
    rw [List.map_cons, List.pairwise_cons] at hrow
    refine .bind (hf gone t List.mem_cons_self) fun _ p ⟨first, hp, hfirst, hin⟩ => ?_
    obtain ⟨later, hq, hlater, hafter⟩ :=
      ih (fun gone u hu => hf gone u (List.mem_cons_of_mem _ hu)) hrow.2 (gone ++ first) p hp
    rw [List.append_assoc] at hq
    refine ⟨first ++ later, hq, List.pairwise_append.mpr ⟨hfirst, hlater, fun a ha b hb => ?_⟩,
      List.forall_mem_append.mpr ⟨fun m hm => ⟨t.node, List.mem_cons_self, hin m hm⟩,
        fun m hm => ?_⟩⟩
    -- What stands in an earlier part comes before what stands in a later one.
    · obtain ⟨c, hc, hb⟩ := hafter b hb
      have ha := hin a ha
      exact .inl (Nat.le_trans ha.2.1 (Nat.le_trans ha.2.2 (Nat.le_trans (hrow.1 c hc) hb.1)))
    · obtain ⟨c, hc, hm⟩ := hafter m hm
      exact ⟨c, List.mem_cons_of_mem _ hc, hm⟩

/-- What is declared at a construct and inside it stands in it, in the order of the text. -/
theorem bindFrom_goesOn (depth : Nat) (gone : List Node) {t : Task}
    (hn : t.node.tree.laidOut = true) :
    Ensures (Along base gone) (bindFrom depth t)
      fun _ => GoesOn base gone (Node.Within · t.node) := by
  -- By induction on the depth: what a task lists comes before the tasks it leaves, which stand in a
  -- row.
  induction depth generalizing gone t with
  | zero => exact .pure fun _ hp => ⟨[], hp.append [], .nil, nofun⟩
  | succ depth ih =>
    refine .bind (bindTask_along hn) fun rest p ⟨own, hp, hopens⟩ => ?_
    have hinside : ∀ gone, ∀ u ∈ rest, Ensures (Along base gone) (bindFrom depth u)
        fun _ => GoesOn base gone (Node.Within · u.node) := fun gone u hu =>
      ih gone (hopens.row.laidOut u.node (List.mem_map_of_mem hu))
    obtain ⟨more, hq, hmore, hin⟩ := forM_goesOn hinside hopens.row.inOrder (gone ++ own) p hp
    rw [List.append_assoc] at hq
    refine ⟨own ++ more, hq, List.pairwise_append.mpr ⟨hopens.inOrder, hmore, fun a ha b hb => ?_⟩,
      List.forall_mem_append.mpr ⟨hopens.within, fun m hm => ?_⟩⟩
    -- What is listed inside lies in one of the tasks left, and the task itself listed only what
    -- stands before them.
    · obtain ⟨c, hc, hb⟩ := hin b hb
      exact hopens.before a ha c hc b hb
    · obtain ⟨c, hc, hm⟩ := hin m hm
      exact hm.trans (hopens.row.within c hc)

end Bind

namespace Store

variable {s : Store} {gone : List Node} {ids : List DeclarationId}

/-- Some declarations are in the order of the text. -/
def InSourceOrder (s : Store) (ids : List DeclarationId) : Prop :=
  ids.Pairwise fun a b => ListedBefore (s.declaration a).node (s.declaration b).node

/-- The declarations with parameters among those of a symbol. -/
theorem listed_eq (s : Store) (ids : List DeclarationId) :
    s.listed ids = (ids.filter fun d => (s.declaration d).kind.isCallable).map
      fun d => (s.declaration d).node := by
  induction ids with
  | nil => rfl
  | cons d rest ih =>
    rw [listed, List.flatMap_cons, ← listed, ih, Declaration.listed, List.filter_cons]
    split <;> rfl

/-- Callables that follow an ordered list stand in source order. -/
theorem Follows.inSourceOrder (h : s.Follows gone ids) (hgone : gone.Pairwise ListedBefore) :
    s.InSourceOrder (ids.filter fun d => (s.declaration d).kind.isCallable) := by
  have hlisted := hgone.sublist h.sublist
  rw [listed_eq, List.pairwise_map] at hlisted
  exact hlisted

/-- A list of callables that follows an ordered list stands in source order. -/
theorem FollowsAll.inSourceOrder (h : s.FollowsAll gone ids)
    (hgone : gone.Pairwise ListedBefore) : s.InSourceOrder ids := by
  have hlisted := h.1.inSourceOrder hgone
  rwa [List.filter_eq_self.mpr h.2] at hlisted

/-- A symbol is what the binding of a file has made of it. -/
def BoundWith (s : Store) (file : Source) (id : SymbolId) : Prop :=
  ∃ base : Store, base.symbols.size ≤ id.index ∧ (bind file base).2.KeepsListed s ∧
    s.symbol id = (bind file base).2.symbol id

end Store

/-- Binding a file goes through what it declares in the order of the text. -/
theorem bind_lists {file : Source} (hfile : file.tree.laidOut = true) (base : Store) :
    ∃ gone, base.Lists gone (bind file base).2 ∧ gone.Pairwise ListedBefore := by
  let module : Scope := { kind := .module, node := file.root, parent := none }
  let start : Progress := ⟨(base.addScope module).2,
    { source := file, moduleScope := (base.addScope module).1
      scopes := Table.empty.put file.root.key (base.addScope module).1 }⟩
  have hstart : Bind.Along base [] start :=
    (Store.Lists.start base).kept (.of_eq rfl) fun _ => rfl
  -- The walk starts with the children of the root.
  have hroot : Row file.root file.root.children := .children hfile
  have hpart : ∀ gone, ∀ t ∈ tasks (base.addScope module).1 (base.addScope module).1
      file.root.children, Ensures (Bind.Along base gone) (Bind.bindFrom file.tree.size t)
        fun _ => Bind.GoesOn base gone (Node.Within · t.node) := by
    intro gone t ht
    obtain ⟨c, hc, rfl⟩ := List.mem_map.mp ht
    exact Bind.bindFrom_goesOn _ gone (hroot.laidOut c hc)
  obtain ⟨gone, hlists, hgone, -⟩ := Bind.forM_goesOn hpart
    (Bind.map_node_tasks.symm ▸ hroot.inOrder) [] start hstart
  exact ⟨gone, hlists, hgone⟩

/-- The declarations with parameters of a symbol of a file are in the order of the text, and so are
those that the symbol is constructed by. -/
theorem Store.BoundWith.inSourceOrder {s : Store} {file : Source} {id : SymbolId}
    (h : s.BoundWith file id) (hfile : file.tree.laidOut = true) :
    s.InSourceOrder ((s.symbol id).declarations.filter fun d => (s.declaration d).kind.isCallable) ∧
      s.InSourceOrder (s.symbol id).constructSignatures := by
  obtain ⟨base, hid, hkept, hsame⟩ := h
  obtain ⟨gone, hlists, hgone⟩ := bind_lists hfile base
  rw [hsame]
  exact ⟨((hlists.declarations id hid).kept hkept).inSourceOrder hgone,
    ((hlists.constructSignatures id hid).kept hkept).inSourceOrder hgone⟩

end ScriptGraph.Binding
