import ScriptGraph.Proofs.Binding.MemberTables
import ScriptGraph.Proofs.Inference.Consultations
import ScriptGraph.Proofs.Inference.ObjectCalls

/-!
# Object types that are declared

An interface, or an alias of an object type, declares the parts of the type as members of its
symbol, one after the other. Nothing else that is bound changes what they list, though another
declaration of the same name may add to it. So the symbol of an interface or an alias at the top of
a file answers like the parts of its type, as long as nothing has been added.

- `Listing`: the members of a symbol list declarations while a file is bound
- `bindObjectType_listing`: what an interface or an alias adds
- `Listing.steps`: what may be added later on
- `extended_eq_nil`: symbols without heritage
- `declaresParts_of_statement`: an interface or an alias at the top of the file under analysis
-/

namespace ScriptGraph.Inference

open Binding Syntax

variable {owner : SymbolId} {declared : List Declaration} {d : Declaration}
  {members : List (String × SymbolId)} {p q : Progress} {φ : Node → Prop}

/-! ## What members list while a file is bound -/

/-- The members of a symbol list some declarations and nothing else. -/
structure ListsParts (st : Store) (owner : SymbolId) (declared : List Declaration) : Prop where
  lists : Lists st (st.symbol owner).members.entries declared
  named : OnlyNamed (st.symbol owner).members.entries declared

/-- The members of a symbol that is there list some declarations. -/
structure Listing (owner : SymbolId) (declared : List Declaration) (p : Progress) : Prop where
  linked : p.store.Linked
  apart : p.store.MembersApart
  index_lt : owner.index < p.store.symbols.size
  parts : ListsParts p.store owner declared

/-- What members list stays as it is if what is attached does, and the members list nothing new. -/
theorem Lists.kept {old new : Store} (h : Lists old members declared) (hle : old.NoSmaller new)
    (hsymbol : ∀ name m, memberNamed? members name = some m →
      (new.symbol m).parent = (old.symbol m).parent ∧
        (new.symbol m).declarations = (old.symbol m).declarations)
    (hdeclaration : ∀ id : DeclarationId, id.index < old.declarations.size →
      new.declaration id = old.declaration id) : Lists new members declared := by
  refine ⟨h.distinct, h.unnamed, fun name m hm => ?_⟩
  obtain ⟨hlt, hparent, hdeclarations⟩ := h.lists name m hm
  obtain ⟨hsameParent, hsame⟩ := hsymbol name m hm
  refine ⟨hle.symbol_lt hlt, hsameParent ▸ hparent, ?_⟩
  rw [hsame]
  exact hdeclarations.imp fun e id hid =>
    ⟨hle.declaration_lt hid.index_lt,
      (hdeclaration id hid.index_lt).trans hid.eq⟩

/-- What is found among the members of a symbol is a member of it. -/
theorem memberOf_of_memberNamed? {st : Store} {name : String} {m : SymbolId}
    (hm : memberNamed? (st.symbol owner).members.entries name = some m) : st.MemberOf owner m := by
  obtain ⟨e, he, rfl⟩ := Option.map_eq_some_iff.mp hm
  exact ⟨e.1, List.mem_of_find?_eq_some he⟩

/-- A step that leaves the members of a symbol alone changes nothing that they list. -/
theorem ListsParts.step (h : ListsParts p.store owner declared) (hstep : Bind.Step φ p q)
    (hkeeps : Store.KeepsMembers owner p.store q.store) : ListsParts q.store owner declared := by
  have hlists := h.lists.kept hstep.noSmaller
    (fun name m hm => ⟨hkeeps.parent_eq m (memberOf_of_memberNamed? hm),
      hkeeps.declarations_eq m (memberOf_of_memberNamed? hm)⟩)
    fun id hid => hstep.declaration_eq hid
  exact ⟨by rw [hkeeps.members_eq]; exact hlists, by rw [hkeeps.members_eq]; exact h.named⟩

/-- A step that leaves the members of a symbol alone changes nothing that they list. -/
theorem Listing.step (h : Listing owner declared p) (hstep : Bind.Step φ p q)
    (hkeeps : Store.KeepsMembers owner p.store q.store) : Listing owner declared q where
  linked := hstep.linked h.linked
  apart := hstep.membersApart h.linked h.apart
  index_lt := hstep.noSmaller.symbol_lt h.index_lt
  parts := h.parts.step hstep hkeeps

section Member

variable {st : Store} {id : DeclarationId} (h : ListsParts st owner declared)
  (hd : d.symbol = none) (hid : id.index < st.declarations.size) (heq : st.declaration id = d)
include h hd hid heq

/-- A declaration of a name that there is a member of is listed last. -/
theorem ListsParts.attach {x : SymbolId} (hfind : (st.symbol owner).members.find? d.name = some x) :
    ListsParts (st.attach x id) owner (declared ++ [d]) := by
  have hmembers : ((st.attach x id).symbol owner).members = (st.symbol owner).members := by
    rw [Store.symbol_attach]
    split <;> rfl
  have hlists := h.lists.attach hd hid heq hfind
  refine ⟨?_, ?_⟩
  · rw [hmembers]
    exact hlists
  · rw [hmembers]
    exact h.named.append d

/-- Another declaration gets a member of its own. -/
theorem ListsParts.addMember (howner : owner.index < st.symbols.size)
    (hfind : (st.symbol owner).members.find? d.name = none) :
    ListsParts (((st.addSymbol { name := d.name, parent := some owner }).2.putMember owner false
      d.name ⟨st.symbols.size⟩).attach ⟨st.symbols.size⟩ id) owner (declared ++ [d]) := by
  let added := (st.addSymbol { name := d.name, parent := some owner }).2
  let put := added.putMember owner false d.name ⟨st.symbols.size⟩
  have hadded : Lists added ((st.symbol owner).members.entries ++ [(d.name, ⟨st.symbols.size⟩)])
      declared := h.lists.addSymbol { name := d.name, parent := some owner } rfl rfl hfind
  -- Where a member stands does not matter for what it lists.
  have hput : Lists put ((st.symbol owner).members.entries ++ [(d.name, ⟨st.symbols.size⟩)])
      declared := by
    refine hadded.kept (added.noSmaller_modifySymbol owner _) (fun name m _ => ?_) fun _ _ => rfl
    have hsame : put.symbol m = (added.modifySymbol owner fun o =>
        { o with members := o.members.put d.name ⟨st.symbols.size⟩ }).symbol m := rfl
    rw [hsame, Store.symbol_modifySymbol]
    split <;> exact ⟨rfl, rfl⟩
  -- The new symbol is found under the name, since no other one was.
  have hm : memberNamed? ((st.symbol owner).members.entries ++ [(d.name, ⟨st.symbols.size⟩)])
      d.name = some ⟨st.symbols.size⟩ := by
    have hnone : memberNamed? (st.symbol owner).members.entries d.name = none := hfind
    unfold memberNamed? at hnone ⊢
    rw [List.find?_append, Option.map_or, hnone]
    simp
  -- The table of the owner ends with the new member; attaching to the member leaves it.
  have hmembers : ((put.attach ⟨st.symbols.size⟩ id).symbol owner).members.entries =
      (st.symbol owner).members.entries ++ [(d.name, ⟨st.symbols.size⟩)] := by
    have hold : added.symbol owner = st.symbol owner :=
      (Store.symbol_addSymbol st _ owner).trans (if_neg (Nat.ne_of_lt howner))
    have hlt : owner.index < added.symbols.size :=
      (st.noSmaller_addSymbol _).symbol_lt howner
    have hsame : ((put.attach ⟨st.symbols.size⟩ id).symbol owner).members =
        (put.symbol owner).members := by
      rw [Store.symbol_attach]
      split <;> rfl
    have hown : put.symbol owner =
        { added.symbol owner with
          members := (added.symbol owner).members.put d.name ⟨st.symbols.size⟩ } :=
      (Store.symbol_modifySymbol added owner owner _).trans (if_pos ⟨rfl, hlt⟩)
    rw [hsame, hown, hold]
    exact Table.entries_put_of_not_contains _ (Table.contains_eq_false_of_find? hfind)
  have hlists := hput.attach (m := ⟨st.symbols.size⟩) hd hid heq hm
  refine ⟨?_, ?_⟩
  · rw [hmembers]
    exact hlists
  · rw [hmembers]
    exact h.named.append_new d _

end Member

/-- A member that is declared is listed last. -/
theorem Listing.declareMember (h : Listing owner declared p) (hd : d.symbol = none)
    (hstatic : d.isStatic = false) :
    Listing owner (declared ++ [d]) ((Bind.declareMember owner d).run p).2 := by
  have hstep : Bind.Step (fun _ => True) p ((Bind.declareMember owner d).run p).2 :=
    .member owner d hd trivial
  refine ⟨hstep.linked h.linked, hstep.membersApart h.linked h.apart,
    hstep.noSmaller.symbol_lt h.index_lt, ?_⟩
  let made := p.store.addDeclaration d
  have hlists : ListsParts made.2 owner declared :=
    ⟨h.parts.lists.kept (p.store.noSmaller_addDeclaration d) (fun _ _ _ => ⟨rfl, rfl⟩)
      fun id hid => by rw [Store.declaration_addDeclaration, if_neg (Nat.ne_of_lt hid)],
      h.parts.named⟩
  have hid : made.1.index < made.2.declarations.size := (Bind.recorded p.store hd).1
  have hmade : made.2.declaration made.1 = d :=
    (Store.declaration_addDeclaration p.store d made.1).trans (if_pos rfl)
  -- The part is no static one, so its name is looked up among the members.
  have hside : (if d.isStatic = true then (made.2.symbol owner).statics
      else (made.2.symbol owner).members) = (made.2.symbol owner).members := by
    rw [hstatic]
    rfl
  rw [Bind.declareMember_store]
  dsimp only
  rw [hside]
  cases hfind : (made.2.symbol owner).members.find? d.name with
  -- The member is there already, and the declaration is attached to it.
  | some x => exact hlists.attach hd hid hmade hfind
  | none =>
    rw [hstatic]
    exact hlists.addMember hd hid hmade h.index_lt hfind

/-! ## Actions that list nothing -/

/-- An action that leaves the members of a symbol alone in one step. -/
theorem listing_of_step {α : Type} {x : Bind α}
    (hstep : ∀ p, Bind.Step (fun _ => True) p (x.run p).2)
    (hkeeps : ∀ p : Progress, p.store.Linked → p.store.MembersApart →
      Store.KeepsMembers owner p.store (x.run p).2.store) :
    Ensures (Listing owner declared) x fun _ => Listing owner declared :=
  fun p hp => hp.step (hstep p) (hkeeps p hp.linked hp.apart)

/-- Opening a scope lists nothing. -/
theorem openScope_listing (kind : ScopeKind) (node : Node) (parent : ScopeId) :
    Ensures (Listing owner declared) (Bind.openScope kind node parent)
      fun _ => Listing owner declared :=
  listing_of_step (fun _ => .scope kind node parent) fun _ _ _ => .of_symbol_eq fun _ => rfl

/-- Type parameters are listed nowhere. -/
theorem declareTypeParameters_listing (node : Node) (scope : ScopeId) (other : Option SymbolId) :
    Ensures (Listing owner declared) (Bind.declareTypeParameters node scope other)
      fun _ => Listing owner declared := by
  refine .forM fun param _ => ?_
  split
  · exact .pure fun _ hp => hp
  · refine .bind (listing_of_step (fun _ => .declare scope _ rfl trivial)
      fun _ hlinked happart => Bind.declare_keepsMembers hlinked happart scope _) fun _ => ?_
    split
    · exact .pure fun _ hp => hp
    · exact listing_of_step (fun _ => .typeParameter _ _)
        fun p _ _ => Bind.typeParameter_keepsMembers p.store _ _

/-- A construct signature is no member. -/
theorem addConstructSignature_listing (other : SymbolId) (d : Declaration) :
    Ensures (Listing owner declared) (Bind.addConstructSignature other d)
      fun _ => Listing owner declared :=
  listing_of_step (fun _ => .constructs other d trivial)
    fun p _ _ => Bind.addConstructSignature_keepsMembers p other d

/-- A call signature is no member. -/
theorem addCallSignature_listing (other : SymbolId) (d : Declaration) :
    Ensures (Listing owner declared) (Bind.addCallSignature other d)
      fun _ => Listing owner declared :=
  listing_of_step (fun _ => .calls other d trivial)
    fun p _ _ => Bind.addCallSignature_keepsMembers p other d

/-! ## The parts of a declared object type -/

/-- What a part of an object type lists as a member: a property or a method, with whatever name. -/
def listedPart? (n : Node) : Option Declaration :=
  let nameNode := n.child? .name
  match n.kind? with
  | some .propertySignature =>
    some { kind := .propertySignature, name := memberName nameNode, node := n, nameNode }
  | some .methodSignature =>
    some { kind := .methodSignature, name := memberName nameNode, node := n, nameNode }
  | _ => none

/-- What a part lists is a property or a method at its construct. -/
theorem isPart_of_listedPart? {n : Node} (h : listedPart? n = some d) :
    IsPart d ∧ d.node = n ∧ d.name = memberName (n.child? .name) := by
  unfold listedPart? at h
  dsimp only at h
  split at h
  · obtain rfl := Option.some.inj h
    exact ⟨⟨.inl rfl, rfl, rfl⟩, rfl, rfl⟩
  · obtain rfl := Option.some.inj h
    exact ⟨⟨.inr rfl, rfl, rfl⟩, rfl, rfl⟩
  · exact nomatch h

/-- In an inline type, only the parts that have a name are taken. -/
theorem declaredPart?_eq (n : Node) :
    declaredPart? n = (listedPart? n).filter fun d => !d.name.isEmpty := by
  have hnamed : declaredPart? n =
      if (memberName (n.child? .name)).isEmpty then none else listedPart? n := rfl
  rw [hnamed]
  cases hlisted : listedPart? n with
  | none => exact ite_self none
  | some d =>
    obtain ⟨-, -, hname⟩ := isPart_of_listedPart? hlisted
    cases hempty : (memberName (n.child? .name)).isEmpty <;> simp [Option.filter, hname, hempty]

/-- A part is listed after the ones before it, if it is a property or a method. -/
theorem declareTypeMember_listing (scope : ScopeId) (member : Node) :
    Ensures (Listing owner declared) (Bind.declareTypeMember owner scope member)
      fun _ => Listing owner (declared ++ (listedPart? member).toList) := by
  -- The type parameters of a method list nothing.
  have hown : ∀ declared, Ensures (Listing owner declared)
      (if (member.child? .typeParameters).isSome then do
        let inner ← Bind.openScope .function member scope
        Bind.declareTypeParameters member inner none
      else pure ()) fun _ => Listing owner declared := fun declared => by
    split
    · exact .bind (openScope_listing _ _ _) fun _ => declareTypeParameters_listing _ _ _
    · exact .pure fun _ hp => hp
  unfold Bind.declareTypeMember
  dsimp only
  split
  -- One case for each kind of part; `listedPart?` goes by the same kinds.
  next hkind =>
    rw [show listedPart? member = some _ by unfold listedPart?; rw [hkind]]
    exact .bind (fun p hp => hp.declareMember rfl rfl) fun _ => hown _
  next hkind =>
    rw [show listedPart? member = some _ by unfold listedPart?; rw [hkind]]
    exact .bind (fun p hp => hp.declareMember rfl rfl) fun _ => hown _
  next hkind =>
    rw [show listedPart? member = none by unfold listedPart?; rw [hkind], Option.toList_none,
      List.append_nil]
    exact .bind (addConstructSignature_listing _ _) fun _ => hown _
  next hkind =>
    rw [show listedPart? member = none by unfold listedPart?; rw [hkind], Option.toList_none,
      List.append_nil]
    exact .bind (addCallSignature_listing _ _) fun _ => hown _
  next hproperty hmethod _ _ =>
    have hnone : listedPart? member = none := by
      unfold listedPart?
      split
      · exact absurd ‹_› hproperty
      · exact absurd ‹_› hmethod
      · rfl
    rw [hnone, Option.toList_none, List.append_nil]
    exact .pure fun _ hp => hp

/-- The parts of a body are listed in their order. -/
theorem declareTypeMembers_listing (scope : ScopeId) (body : List Node) :
    Ensures (Listing owner declared) (body.forM (Bind.declareTypeMember owner scope))
      fun _ => Listing owner (declared ++ body.filterMap listedPart?) := by
  -- The parts are gone through from the front.
  have hstep : ∀ gone part, Ensures (Listing owner (declared ++ gone.filterMap listedPart?))
      (Bind.declareTypeMember owner scope part)
      fun _ => Listing owner (declared ++ (gone ++ [part]).filterMap listedPart?) :=
    fun gone part => by
      rw [List.filterMap_append, ← List.append_assoc]
      have hone : [part].filterMap listedPart? = (listedPart? part).toList := by
        cases h : listedPart? part <;> simp [h]
      rw [hone]
      exact declareTypeMember_listing scope part
  have hall := Ensures.forM_from (l := body) hstep []
  simpa using hall

/-! ## Interfaces and aliases -/

/-- The parts that an interface, or an alias of an object type, declares. -/
def declaredBody? (n : Node) : Option (DeclarationKind × List Node) :=
  match n.kind? with
  | some .interfaceDeclaration => some (.interface, n.constructsIn .body)
  | some .typeAliasDeclaration => ((n.child? .value).filter (·.is .objectType)).map fun value =>
      (.typeAlias, value.constructs)
  | _ => none

/-- What an interface or an alias declares itself. -/
def typeDeclared (n : Node) (kind : DeclarationKind) (name : Node) : Declaration :=
  { kind, name := name.text, node := n, nameNode := some name }

/-- Declares the parts of a body as members of the symbol of a type. -/
def bindParts (t : Task) (body : List Node) (symbol : SymbolId) : Bind Unit := do
  let inner ← Bind.openScope .class t.node t.scope
  Bind.declareTypeParameters t.node inner symbol
  body.forM (Bind.declareTypeMember symbol inner)

/-- Declares a type and the parts of its body. -/
def bindObjectType (t : Task) (kind : DeclarationKind) (name : Node) (body : List Node) :
    Bind Unit := do
  bindParts t body (← Bind.declare t.scope (typeDeclared t.node kind name))

variable {t : Task} {kind : DeclarationKind} {name : Node} {body : List Node}

/-- Interfaces and aliases of object types are bound alike. -/
theorem bindTask_objectType (hbody : declaredBody? t.node = some (kind, body))
    (hname : t.node.child? .name = some name) :
    Bind.bindTask t = do
      bindObjectType t kind name body
      return [] := by
  unfold declaredBody? at hbody
  split at hbody
  -- An interface has its body; an alias has one if its value is an object type.
  next hkind =>
    obtain ⟨rfl, rfl⟩ := Prod.mk.inj (Option.some.inj hbody)
    unfold Bind.bindTask Bind.bindInterface
    rw [hkind, hname]
    rfl
  next hkind =>
    obtain ⟨value, hvalue, hpair⟩ := Option.map_eq_some_iff.mp hbody
    obtain ⟨rfl, rfl⟩ := Prod.mk.inj hpair
    obtain ⟨hvalue, hobject⟩ := Option.filter_eq_some_iff.mp hvalue
    unfold Bind.bindTask Bind.bindTypeAlias
    rw [hkind, hname, hvalue]
    simp only [hobject, if_true]
    rfl
  next => exact nomatch hbody

/-- The parts of a body are listed after what the symbol has listed before. -/
theorem bindParts_listing :
    Ensures (Listing owner declared) (bindParts t body owner)
      fun _ => Listing owner (declared ++ body.filterMap listedPart?) :=
  .bind (openScope_listing _ _ _) fun _ => .bind (declareTypeParameters_listing _ _ _) fun _ =>
    declareTypeMembers_listing _ body

/-- Declaring the type itself lists nothing. -/
theorem declare_listing (hlinked : p.store.Linked) (hapart : p.store.MembersApart)
    (scope : ScopeId) (hd : d.symbol = none)
    (h : ListsParts p.store (Bind.nameSymbol p.store scope d.name) declared) :
    Listing (Bind.nameSymbol p.store scope d.name) declared ((Bind.declare scope d).run p).2 := by
  have hstep : Bind.Step (fun _ => True) p ((Bind.declare scope d).run p).2 :=
    .declare scope d hd trivial
  have hlinked' := hstep.linked hlinked
  exact ⟨hlinked', hstep.membersApart hlinked hapart,
    Bind.nameSymbol_index_lt hlinked scope d,
    h.step hstep (Bind.declare_keepsMembers hlinked hapart scope d)⟩

/-- An interface or an alias lists the parts of its body after what its symbol has listed before. -/
theorem bindObjectType_listing (hlinked : p.store.Linked) (hapart : p.store.MembersApart)
    (h : ListsParts p.store (Bind.nameSymbol p.store t.scope name.text) declared) :
    Listing (Bind.nameSymbol p.store t.scope name.text) (declared ++ body.filterMap listedPart?)
      ((bindObjectType t kind name body).run p).2 := by
  let declaring := (Bind.declare t.scope (typeDeclared t.node kind name)).run p
  have hrun : (bindObjectType t kind name body).run p =
      (bindParts t body declaring.1).run declaring.2 :=
    StateT.run_bind _ _ p
  -- The symbol is the one that the name leads to in the scope around the declaration.
  have hsymbol : declaring.1 = Bind.nameSymbol p.store t.scope name.text :=
    Bind.declare_result p t.scope (typeDeclared t.node kind name)
  have hdeclared : Listing (Bind.nameSymbol p.store t.scope name.text) declared declaring.2 :=
    declare_listing (d := typeDeclared t.node kind name) hlinked hapart t.scope rfl h
  rw [hrun, hsymbol]
  exact bindParts_listing _ hdeclared

/-- The type is found at its construct if nothing has been found there before. -/
theorem bindObjectType_declaredAs (hnew : p.binding.declarations.find? t.node.key = none) :
    Bind.DeclaredAs ((bindObjectType t kind name body).run p).2 t.node kind
      (Bind.nameSymbol p.store t.scope name.text) := by
  have hdown : PassesDown fun _ : Node => True := fun _ _ _ _ => trivial
  have hdeclared := Bind.declare_declaredAs (d := typeDeclared t.node kind name) t.scope hnew
  exact hdeclared.seq (φ := fun _ => True) (R := fun _ => True) fun symbol =>
    .seq Bind.openScope_goes fun inner => .seq (Bind.declareTypeParameters_goes hdown trivial)
      fun _ => .forM fun _ _ => Bind.declareTypeMember_goes hdown trivial

/-! ## What else is bound -/

/-- A list in which one item alone stands for something. -/
theorem flatMap_eq_of_forall_ne {α β : Type} {l : List α} {f : α → List β} {a : α} (ha : a ∈ l)
    (hl : l.Nodup) (h : ∀ b ∈ l, b ≠ a → f b = []) : l.flatMap f = f a := by
  obtain ⟨before, after, rfl⟩ := List.append_of_mem ha
  obtain ⟨-, hafter, hdisjoint⟩ := List.nodup_append.mp hl
  have hbefore : before.flatMap f = [] := List.flatMap_eq_nil_iff.mpr fun b hb =>
    h b (List.mem_append_left _ hb) (hdisjoint b hb a List.mem_cons_self)
  have hafter : after.flatMap f = [] := List.flatMap_eq_nil_iff.mpr fun b hb =>
    h b (List.mem_append_right _ (List.mem_cons_of_mem _ hb)) fun hab =>
      (List.nodup_cons.mp hafter).1 (hab ▸ hb)
  rw [List.flatMap_append, List.flatMap_cons, hbefore, hafter, List.nil_append, List.append_nil]

/-- Whatever has been bound, the members of a symbol list some declarations. -/
theorem exists_listsParts {st : Store} (hlinked : st.Linked) (hapart : st.MembersApart)
    (owner : SymbolId) : ∃ declared, ListsParts st owner declared := by
  let members := (st.symbol owner).members.entries
  let declarationsAt (e : String × SymbolId) : List Declaration :=
    (st.declarationsOf e.2).map Declaration.detached
  have hstands : ∀ e ∈ members, st.StandsUnder e.1 e.2 ∧ (st.symbol e.2).parent = some owner :=
    (hlinked.symbol owner).members
  have hnames : ∀ e ∈ members, ∀ d ∈ declarationsAt e, d.name = e.1 := fun e he d hd => by
    obtain ⟨x, hx, rfl⟩ := List.mem_map.mp hd
    obtain ⟨id, hid, rfl⟩ := List.mem_map.mp hx
    exact ((hlinked.symbol e.2).declarations id hid).1.trans (hstands e he).1.1
  have hkeys : (members.map (·.1)).Nodup := hapart.keys_nodup owner
  have hids : (members.map (·.2)).Nodup := by
    refine .of_map (fun x => (st.symbol x).name) ?_
    rw [List.map_map]
    exact (List.map_congr_left fun e he => (hstands e he).1.1) ▸ hkeys
  -- Each name has a member of its own, so its declarations are those of the member.
  have hnamed : ∀ e ∈ members, namedParts (members.flatMap declarationsAt) e.1 = declarationsAt e :=
    fun e he => by
      have hone := flatMap_eq_of_forall_ne (f := fun b => (declarationsAt b).filter (·.name == e.1))
        he (.of_map _ hkeys) fun b hb hne => List.filter_eq_nil_iff.mpr fun d hd hname => hne <|
          List.inj_on_of_nodup_map hkeys hb he ((hnames b hb d hd).symm.trans (beq_iff_eq.mp hname))
      rw [namedParts, List.filter_flatMap, hone]
      exact List.filter_eq_self.mpr fun d hd => beq_iff_eq.mpr (hnames e he d hd)
  refine ⟨members.flatMap declarationsAt, .of_entries hids (fun d hd => ?_) fun e he => ?_,
    fun name m hm => ?_⟩
  · obtain ⟨e, he, hde⟩ := List.mem_flatMap.mp hd
    exact List.mem_map.mpr ⟨e, he, (hnames e he d hde).symm⟩
  · rw [hnamed e he]
    refine .of_attached (hstands e he).1.index_lt (by rw [(hstands e he).2]; rfl) fun id hid => ?_
    have hsymbol := ((hlinked.symbol e.2).declarations id hid).2
    exact ⟨Store.index_lt_of_symbol_eq hsymbol, hsymbol⟩
  · obtain ⟨e, he, rfl⟩ := Option.map_eq_some_iff.mp hm
    have hmem := List.mem_of_find?_eq_some he
    have hname : e.1 = name := by simpa using List.find?_some he
    rw [← hname, hnamed e hmem]
    exact fun hnil => (hstands e hmem).1.2 (List.map_eq_nil_iff.mp (List.map_eq_nil_iff.mp hnil))

/-- Whatever else is bound, a symbol lists what it has listed, and possibly more after it. -/
theorem Listing.exists_more (h : Listing owner declared p) (hstep : Bind.Step φ p q) :
    ∃ more, Listing owner (declared ++ more) q := by
  rcases hstep.keepsMembers h.linked h.apart owner with hkeeps | ⟨d, hd, hstatic, rfl⟩
  · exact ⟨[], (List.append_nil declared).symm ▸ h.step hstep hkeeps⟩
  · exact ⟨[d], h.declareMember hd hstatic⟩

/-- Any number of steps adds to what is listed, at its end. -/
theorem Listing.steps (h : Listing owner declared p) (hsteps : Bind.Steps φ p q) :
    ∃ more, Listing owner (declared ++ more) q := by
  induction hsteps with
  | refl => exact ⟨[], (List.append_nil declared).symm ▸ h⟩
  | tail _ hlast ih =>
    obtain ⟨before, hbefore⟩ := ih
    obtain ⟨more, hmore⟩ := hbefore.exists_more hlast
    exact ⟨before ++ more, List.append_assoc declared before more ▸ hmore⟩

/-! ## Statements at the top of a file -/

/-- When a file has been bound, an interface or an alias at its top is found at its construct, and
its symbol lists the parts of its body, among what other declarations of the name add. -/
theorem bind_listing {file : Source} (hfile : file.tree.laidOut = true) {base : Store}
    (hlinked : base.Linked) (hapart : base.MembersApart) {statement n : Node}
    (hstatement : statement ∈ file.root.children) (hn : DeclaredIn statement n)
    (hwidth : n.start < n.stop) (hbody : declaredBody? n = some (kind, body))
    (hname : n.child? .name = some name) :
    let bound := boundUpTo file base file.root.children
    ∃ owner before after, Bind.DeclaredAs bound n kind owner ∧
      Listing owner (before ++ body.filterMap listedPart? ++ after) bound := by
  intro bound
  let module : ScopeId := ⟨base.scopes.size⟩
  let t : Task := ⟨n, module, module⟩
  -- The walk comes to the declaration with a progress `p`, and goes on after it.
  obtain ⟨p, depth, hbefore, hafter⟩ := exists_reached hfile base hstatement hn
  have hnew := hbefore.find?_eq_none (fun m hm => hm.key_ne hwidth) (Table.find?_empty n.key)
  have hlinked' : p.store.Linked :=
    Bind.Steps.linked hbefore (hlinked.addScope .module file.root none)
  have hapart' : p.store.MembersApart :=
    hbefore.membersApart (hlinked.addScope .module file.root none)
      (hapart.addScope .module file.root none)
  let owner := Bind.nameSymbol p.store module name.text
  -- What the symbol lists by then comes from other declarations of the name.
  obtain ⟨before, hlists⟩ := exists_listsParts hlinked' hapart' owner
  have hrun : ((Bind.bindFrom (depth + 1) t).run p).2 =
      ((bindObjectType t kind name body).run p).2 := by
    rw [Bind.bindFrom, bindTask_objectType hbody hname]
    rfl
  rw [hrun] at hafter
  have hbound : Listing owner (before ++ body.filterMap listedPart?)
      ((bindObjectType t kind name body).run p).2 :=
    bindObjectType_listing (t := t) hlinked' hapart' hlists
  obtain ⟨after, hlisting⟩ := hbound.steps hafter
  exact ⟨owner, before, after, (bindObjectType_declaredAs (t := t) hnew).steps hafter, hlisting⟩

/-! ## What extends nothing -/

/-- A declaration without heritage: no class with a clause for it, and no interface with a clause of
types. -/
structure ExtendsNothing (d : Declaration) : Prop where
  of_class : d.kind = .class → d.node.constructs.find? (·.is .classHeritage) = none
  of_interface : d.kind = .interface → d.node.constructs.filter (·.is .extendsTypeClause) = []

section Heritage

variable {oracle : Oracle} {k : Knowledge}

/-- A declaration without heritage adds no bases, and nothing is asked for it. -/
theorem run_declaredBases {id : DeclarationId} (h : ExtendsNothing (k.store.declaration id)) :
    ((declaredBases id).perform oracle).run k = ([], k) := by
  have hread : ((declarationOf id).perform oracle).run k = (k.store.declaration id, k) := rfl
  rw [declaredBases, Inquiry.run_bind, hread]
  dsimp only
  split
  next hkind =>
    rw [classBases, h.of_class hkind]
    rfl
  next hkind =>
    rw [interfaceBases, h.of_interface hkind]
    rfl
  next => rfl

/-- Nor do several ones. -/
theorem run_mapM_declaredBases {ids : List DeclarationId}
    (h : ∀ id ∈ ids, ExtendsNothing (k.store.declaration id)) :
    ((ids.mapM declaredBases).perform oracle).run k = (ids.map fun _ => [], k) := by
  induction ids with
  | nil => rfl
  | cons id rest ih =>
    obtain ⟨hid, hrest⟩ := List.forall_mem_cons.mp h
    rw [List.mapM_cons, Inquiry.run_bind, run_declaredBases hid]
    dsimp only
    rw [Inquiry.run_bind, ih hrest]
    rfl

/-- A symbol extends nothing if none of its declarations does, and nothing has been found before. -/
theorem extended_eq_nil {x : SymbolId} (hnew : k.bases.find? x = none)
    (h : ∀ id ∈ (k.store.symbol x).declarations, ExtendsNothing (k.store.declaration id)) :
    k.extended (answerBy oracle) x = [] := by
  -- The bases are noted down as none before the declarations are asked, which then have none.
  have hask : ((basesOf x).perform (answerBy oracle)).run k =
      ((symbolBases x).perform oracle).run k := rfl
  have hknown : ((Inquiry.ofStep (.knownBases x)).perform oracle).run k = (none, k) :=
    congrArg (·, k) hnew
  let started : Knowledge := { k with bases := k.bases.record x [] }
  have hstarted : ((Inquiry.ofStep (.recordBases x [])).perform oracle).run k = ((), started) := rfl
  have hstore : (store.perform oracle).run started = (k.store, started) := rfl
  have hparts : (((k.store.symbol x).declarations.mapM declaredBases).perform oracle).run started =
      ((k.store.symbol x).declarations.map fun _ => [], started) :=
    run_mapM_declaredBases (k := started) h
  rw [Knowledge.extended, hask, symbolBases, Inquiry.run_bind, hknown]
  dsimp only
  rw [Inquiry.run_bind, hstarted]
  dsimp only
  rw [Inquiry.run_bind, hstore]
  dsimp only
  rw [Inquiry.run_bind, hparts]
  show List.flatten (List.map (fun _ => []) _) = []
  rw [List.flatten_eq_nil_iff]
  exact List.forall_mem_map.mpr fun _ _ => rfl

end Heritage

/-! ## Declared types under analysis -/

/-- Without a part of any name there are no parts. -/
theorem eq_nil_of_namedParts (h : ∀ name, namedParts declared name = []) : declared = [] := by
  refine List.eq_nil_iff_forall_not_mem.mpr fun d hd => ?_
  have hmem : d ∈ namedParts declared d.name := List.mem_filter.mpr ⟨hd, beq_self_eq_true d.name⟩
  rw [h] at hmem
  exact List.not_mem_nil hmem

/-- If every member has as many declarations as there are parts of its name, nothing else has been
added. -/
theorem eq_nil_of_lengths {st : Store} {before parts after : List Declaration}
    (h : Lists st members (before ++ parts ++ after))
    (hcount : ∀ name m, memberNamed? members name = some m →
      (st.symbol m).declarations.length = (namedParts parts name).length) :
    before = [] ∧ after = [] := by
  -- The names split like the lists, so lengths can be compared name by name.
  have hsplit : ∀ name, namedParts (before ++ parts ++ after) name =
      namedParts before name ++ namedParts parts name ++ namedParts after name := fun name => by
    simp only [namedParts, List.filter_append]
  have hboth : ∀ name, namedParts before name = [] ∧ namedParts after name = [] := fun name => by
    cases hm : memberNamed? members name with
    | none =>
      have hnil := h.unnamed name hm
      rw [hsplit, List.append_eq_nil_iff, List.append_eq_nil_iff] at hnil
      exact ⟨hnil.1.1, hnil.2⟩
    | some m =>
      have hlength := (h.lists name m hm).declarations.length_eq
      rw [hcount name m hm, hsplit, List.length_append, List.length_append] at hlength
      exact ⟨List.eq_nil_of_length_eq_zero (by omega), List.eq_nil_of_length_eq_zero (by omega)⟩
  exact ⟨eq_nil_of_namedParts fun name => (hboth name).1,
    eq_nil_of_namedParts fun name => (hboth name).2⟩

/-- Whatever has been requested, an interface or an alias of an object type at the top of the file
under analysis belongs to a symbol that declares the parts of its body, if no other declaration adds
to the symbol and it extends nothing. -/
theorem declaresParts_of_statement (settings : Settings) (disk : Disk) (library : Source)
    {root : Source} (hroot : root.isBundled = false) (hlaid : root.tree.laidOut = true)
    {k : Knowledge} (hk : (Knowledge.start settings disk library root).Reaches k)
    {statement n : Node} (hstatement : statement ∈ root.root.children)
    (hn : DeclaredIn statement n) (hwidth : n.start < n.stop)
    (hbody : declaredBody? n = some (kind, body)) (hname : n.child? .name = some name)
    (hbodiless : ∀ d ∈ body.filterMap listedPart?, d.hasBody = false) :
    ∃ b id owner, k.workspace.bound? root = some b ∧ b.declarations.find? n.key = some id ∧
      (k.store.declaration id).kind = kind ∧ (k.store.declaration id).symbol = some owner ∧
      ∀ oracle e, e.id = owner → k.extended oracle owner = [] →
        k.store.hasKind (· == .enum) owner = false →
        (∀ name m, (k.store.symbol owner).members.find? name = some m →
          (k.store.symbol m).declarations.length =
            (namedParts (body.filterMap listedPart?) name).length) →
        DeclaresParts oracle k e (body.filterMap listedPart?) := by
  let base := (Library.ofSource library).store
  let start := Knowledge.start settings disk library root
  have hlater : start.Later k := (hk.keeps (Knowledge.start_sound settings disk library root)).1
  have hbound : start.workspace.bound? root = some (bind root base).1 :=
    (if_neg (by rw [hroot]; exact Bool.false_ne_true)).trans
      (Workspace.bindings_ofSource settings disk (.ofSource library) root)
  have hlinked : base.Linked := bind_linked library Store.linked_empty
  have hapart : base.MembersApart :=
    bind_membersApart library Store.linked_empty Store.membersApart_empty
  -- When the file has been bound, the symbol lists the parts between what comes before and after.
  obtain ⟨owner, before, after, ⟨id, hid, hkind, hsymbol⟩, hlisting⟩ :=
    bind_listing hlaid hlinked hapart hstatement hn hwidth hbody hname
  have hstore : start.store = (boundUpTo root base root.root.children).store := rfl
  rw [← hstore] at hkind hsymbol
  have howner : owner.index < start.store.symbols.size := hlisting.index_lt
  obtain ⟨hlists, hnamed⟩ := hlisting.parts
  -- Neither the declaration nor what the symbol lists changes while requests are answered.
  have hsame := (hlater.workspace.store.declaration_became id
    (Store.index_lt_of_symbol_eq hsymbol)).eq_of_isSome (by rw [hsymbol]; rfl)
  have hsymbols := hlater.workspace.store.symbol_eq owner howner
  refine ⟨_, id, owner, hlater.workspace.bound? hbound, hid, by rw [hsame, hkind],
    by rw [hsame, hsymbol], ?_⟩
  rintro oracle e rfl hextends henum hcount
  have hlists : Lists k.store (k.store.symbol e.id).members.entries
      (before ++ body.filterMap listedPart? ++ after) := hsymbols ▸ hlists.later hlater
  -- If the members have as many declarations as the body has parts, nothing comes before or after.
  obtain ⟨rfl, rfl⟩ := eq_nil_of_lengths hlists hcount
  rw [List.nil_append, List.append_nil] at hlists hnamed
  exact ⟨hlater.symbol_lt howner, hlists, hsymbols ▸ hnamed,
    fun d hd =>
      let ⟨_, _, hpart⟩ := List.mem_filterMap.mp hd
      (isPart_of_listedPart? hpart).1,
    hbodiless, hextends, henum⟩

end ScriptGraph.Inference
