import Mathlib.Data.List.Nodup
import ScriptGraph.Proofs.Inference.Overloads
import ScriptGraph.Proofs.Inference.Places

/-!
# What object types list

An object type that is written inline is typed part by part. Each part is added to the member of its
name and typed at once, so the type of a member is worked out when the member has its first
declaration only. A member that is a method has the signature of that declaration and of no other
one.
-/

namespace ScriptGraph.Inference

open Binding Syntax

/-! ## The parts of object types -/

/-- What a part of an object type declares: a property or a method that has a name. -/
def declaredPart? (n : Node) : Option Declaration :=
  let nameNode := n.child? .name
  let name := memberName nameNode
  if name.isEmpty then none
  else match n.kind? with
    | some .propertySignature => some { kind := .propertySignature, name, node := n, nameNode }
    | some .methodSignature => some { kind := .methodSignature, name, node := n, nameNode }
    | _ => none

/-- A declaration of a property or a method in an object type that is attached to no symbol. -/
structure IsPart (d : Declaration) : Prop where
  kind : d.kind = .propertySignature ∨ d.kind = .methodSignature
  symbol : d.symbol = none
  accessor : d.accessor = none

instance (d : Declaration) : Decidable (IsPart d) :=
  decidable_of_iff ((d.kind = .propertySignature ∨ d.kind = .methodSignature) ∧
      d.symbol.isNone = true ∧ d.accessor.isNone = true)
    ⟨fun ⟨hkind, hsymbol, haccessor⟩ =>
      ⟨hkind, Option.isNone_iff_eq_none.mp hsymbol, Option.isNone_iff_eq_none.mp haccessor⟩,
    fun h => ⟨h.kind, Option.isNone_iff_eq_none.mpr h.symbol,
      Option.isNone_iff_eq_none.mpr h.accessor⟩⟩

/-- A part of an object type is declared if it is a property or a method with a name. -/
theorem typeMember_eq (n : Node) : typeMember n = match declaredPart? n with
    | some d => addDeclaration d
    | none => return none := by
  unfold typeMember declaredPart?
  dsimp only
  split
  · rfl
  · split <;> simp only [*]

/-- What a part declares is a property or a method at its construct. -/
theorem isPart_of_declaredPart? {n : Node} {d : Declaration} (h : declaredPart? n = some d) :
    IsPart d ∧ d.node = n := by
  unfold declaredPart? at h
  dsimp only at h
  split at h
  · exact nomatch h
  · split at h
    · obtain rfl := Option.some.inj h
      exact ⟨⟨.inl rfl, rfl, rfl⟩, rfl⟩
    · obtain rfl := Option.some.inj h
      exact ⟨⟨.inr rfl, rfl, rfl⟩, rfl⟩
    · exact nomatch h

/-- The declarations of one name among those of an object type. -/
def namedParts (declared : List Declaration) (name : String) : List Declaration :=
  declared.filter (·.name == name)

/-- The member of a name. -/
def memberNamed? (members : List (String × SymbolId)) (name : String) : Option SymbolId :=
  (members.find? (·.1 == name)).map (·.2)

variable {files : Source → Prop} {oracle : Oracle} {base last k next : Knowledge}
  {owner m : SymbolId} {id : DeclarationId} {d : Declaration} {declared : List Declaration}
  {members : List (String × SymbolId)} {name : String}

/-! ## The members so far -/

/-- A declaration is listed by a member: it is attached to it. -/
structure ListedAs (st : Store) (m : SymbolId) (d : Declaration) (id : DeclarationId) : Prop where
  index_lt : id.index < st.declarations.size
  eq : st.declaration id = { d with symbol := some m }

/-- The type of a method that stands alone at its construct is remembered, with the one signature
that it declares. -/
def TypedAlone (k : Knowledge) (d : Declaration) : Prop :=
  d.kind = .methodSignature → StandsAlone k.store d.key → ∃ s e,
    k.answers.find? (.declaration d.key d.name) = some (.function [s] e) ∧
      DeclaredAt k.store d.key s

/-- A member has some declarations, in order. -/
structure MemberLists (st : Store) (m : SymbolId) (declared : List Declaration) : Prop where
  index_lt : m.index < st.symbols.size
  parent : (st.symbol m).parent.isSome = true
  declarations : List.Forall₂ (ListedAs st m) declared (st.symbol m).declarations

/-- The members of an object type list its declarations, each one those of its name. -/
structure Lists (st : Store) (members : List (String × SymbolId)) (declared : List Declaration) :
    Prop where
  distinct : ∀ name other m, memberNamed? members name = some m →
    memberNamed? members other = some m → name = other
  unnamed : ∀ name, memberNamed? members name = none → namedParts declared name = []
  lists : ∀ name m, memberNamed? members name = some m →
    MemberLists st m (namedParts declared name)

/-- Members have names that some declaration has. -/
def OnlyNamed (members : List (String × SymbolId)) (declared : List Declaration) : Prop :=
  ∀ name m, memberNamed? members name = some m → namedParts declared name ≠ []

/-- The first declaration of each name has been typed by itself. -/
def FirstTyped (k : Knowledge) (declared : List Declaration) : Prop :=
  ∀ name, ∀ d ∈ (namedParts declared name).head?, TypedAlone k d

/-- Members that are known by their names and numbers list the declarations of their names. -/
theorem Lists.of_entries {st : Store} {members : List (String × SymbolId)}
    {declared : List Declaration} (hids : (members.map (·.2)).Nodup)
    (hnamed : ∀ d ∈ declared, d.name ∈ members.map (·.1))
    (hlists : ∀ e ∈ members, MemberLists st e.2 (namedParts declared e.1)) :
    Lists st members declared := by
  have hmem : ∀ name m, memberNamed? members name = some m → (name, m) ∈ members := by
    intro name m hm
    obtain ⟨e, he, rfl⟩ := Option.map_eq_some_iff.mp hm
    have hname : e.1 = name := by simpa using List.find?_some he
    exact hname ▸ List.mem_of_find?_eq_some he
  refine ⟨fun name other m hm hother => ?_, fun name hnone => ?_, fun name m hm => ?_⟩
  -- Two names of one number are one name, as numbers do not repeat.
  · exact congrArg Prod.fst
      (List.inj_on_of_nodup_map hids (hmem name m hm) (hmem other m hother) rfl)
  · refine List.filter_eq_nil_iff.mpr fun d hd hname => ?_
    obtain ⟨e, he, hename⟩ := List.mem_map.mp (hnamed d hd)
    have hfind := List.find?_eq_none.mp (Option.map_eq_none_iff.mp hnone) e he
    exact hfind (by rw [hename]; exact hname)
  · exact hlists (name, m) (hmem name m hm)

/-- A member lists its declarations if they are attached to it. -/
theorem MemberLists.of_attached {st : Store} {m : SymbolId} (hm : m.index < st.symbols.size)
    (hparent : (st.symbol m).parent.isSome = true)
    (h : ∀ id ∈ (st.symbol m).declarations, id.index < st.declarations.size ∧
      (st.declaration id).symbol = some m) :
    MemberLists st m ((st.declarationsOf m).map Declaration.detached) := by
  refine ⟨hm, hparent, ?_⟩
  unfold Store.declarationsOf
  rw [List.map_map, List.forall₂_map_left_iff, List.forall₂_same]
  refine fun id hid => ⟨(h id hid).1, ?_⟩
  obtain ⟨-, hsymbol⟩ := h id hid
  show _ = { (st.declaration id).detached with symbol := some m }
  rw [← hsymbol]
  rfl

/-- What is listed stays listed. -/
theorem ListedAs.later (h : ListedAs k.store m d id) (hnext : k.Later next) :
    ListedAs next.store m d id where
  index_lt := hnext.declaration_lt h.index_lt
  eq := ((hnext.workspace.store.declaration_became id h.index_lt).eq_of_isSome
    (by rw [h.eq]; rfl)).trans h.eq

/-- A method that has been typed stays typed as long as its answer is remembered. -/
theorem TypedAlone.mono (h : TypedAlone k d) (hle : k.store.NoSmaller next.store)
    (hnode : ∀ id : DeclarationId, id.index < k.store.declarations.size →
      (next.store.declaration id).node = (k.store.declaration id).node)
    (hanswers : ∀ t, k.answers.find? (.declaration d.key d.name) = some t →
      next.answers.find? (.declaration d.key d.name) = some t) :
    TypedAlone next d := by
  intro hkind halone
  obtain ⟨s, e, hanswer, hs⟩ :=
    h hkind (halone.earlier fun id hid => congrArg Node.key (hnode id hid))
  exact ⟨s, e, hanswers _ hanswer, hs.mono hle hnode⟩

/-- So it does later on. -/
theorem TypedAlone.later (h : TypedAlone k d) (hnext : k.Later next) : TypedAlone next d :=
  h.mono hnext.noSmaller (fun _ => node_later hnext) fun _ => hnext.find?_answers

/-- A member lists the same later on. -/
theorem MemberLists.later (h : MemberLists k.store m declared) (hnext : k.Later next) :
    MemberLists next.store m declared := by
  have hsame := hnext.workspace.store.symbol_eq m h.index_lt
  exact
    { index_lt := hnext.symbol_lt h.index_lt
      parent := by rw [hsame]; exact h.parent
      declarations := by rw [hsame]; exact h.declarations.imp fun _ _ hd => hd.later hnext }

/-- Members list the same later on. -/
theorem Lists.later (h : Lists k.store members declared) (hnext : k.Later next) :
    Lists next.store members declared :=
  ⟨h.distinct, h.unnamed, fun name m hm => (h.lists name m hm).later hnext⟩

/-- First declarations that have been typed stay typed. -/
theorem FirstTyped.later (h : FirstTyped k declared) (hnext : k.Later next) :
    FirstTyped next declared :=
  fun name d hd => (h name d hd).later hnext

/-! ## Adding to members -/

/-- A new part is the last one of its name. -/
theorem namedParts_append_self (hname : d.name = name) :
    namedParts (declared ++ [d]) name = namedParts declared name ++ [d] := by
  simp [namedParts, List.filter_append, hname]

/-- A new part is no part of another name. -/
theorem namedParts_append_of_ne (hname : d.name ≠ name) :
    namedParts (declared ++ [d]) name = namedParts declared name := by
  simp [namedParts, List.filter_append, hname]

/-- A member is one of those that were there, or the one that has been added. -/
theorem memberNamed?_append_eq_some {new : SymbolId} {other : String}
    (h : memberNamed? (members ++ [(other, new)]) name = some m) :
    memberNamed? members name = some m ∨
      memberNamed? members name = none ∧ other = name ∧ new = m := by
  unfold memberNamed? at h ⊢
  rw [List.find?_append, Option.map_or] at h
  refine (Option.or_eq_some_iff.mp h).imp_right fun ⟨hnone, hm⟩ => ⟨hnone, ?_⟩
  by_cases hname : other = name
  · exact ⟨hname, by simpa [hname] using hm⟩
  · simp [hname] at hm

/-- A name without a member had none before. -/
theorem memberNamed?_append_eq_none {new : SymbolId} {other : String}
    (h : memberNamed? (members ++ [(other, new)]) name = none) :
    memberNamed? members name = none := by
  unfold memberNamed? at h ⊢
  rw [List.find?_append, Option.map_or] at h
  exact (Option.or_eq_none_iff.mp h).1

variable {st : Store}

/-- A new member lists nothing. -/
theorem Lists.addSymbol (h : Lists st members declared) (symbol : Symbol)
    (hparent : symbol.parent.isSome = true) (hdeclarations : symbol.declarations = [])
    (hnone : memberNamed? members name = none) :
    Lists (st.addSymbol symbol).2 (members ++ [(name, ⟨st.symbols.size⟩)]) declared := by
  have hsame : ∀ x : SymbolId, x.index < st.symbols.size →
      (st.addSymbol symbol).2.symbol x = st.symbol x := fun x hx => by
    rw [Store.symbol_addSymbol, if_neg (Nat.ne_of_lt hx)]
  have hle := st.noSmaller_addSymbol symbol
  -- Old members are there with their parts, and none of them is the new symbol.
  have hkept : ∀ other m, memberNamed? members other = some m →
      MemberLists (st.addSymbol symbol).2 m (namedParts declared other) ∧
        m ≠ ⟨st.symbols.size⟩ := by
    intro other m hm
    obtain ⟨hlt, hp, hd⟩ := h.lists other m hm
    refine ⟨⟨hle.symbol_lt hlt, by rwa [hsame m hlt], ?_⟩, ?_⟩
    · rw [hsame m hlt]
      exact hd.imp fun _ _ hl => ⟨hl.index_lt, hl.eq⟩
    · rintro rfl
      exact Nat.lt_irrefl _ hlt
  refine ⟨fun one other m hone hother => ?_, fun other hother =>
    h.unnamed other (memberNamed?_append_eq_none hother), fun other m hm => ?_⟩
  -- One of the two names may be that of the new member, which has a number of its own.
  · rcases memberNamed?_append_eq_some hone with hone | ⟨-, rfl, rfl⟩
    · rcases memberNamed?_append_eq_some hother with hother | ⟨-, -, rfl⟩
      · exact h.distinct one other m hone hother
      · exact absurd rfl (hkept one _ hone).2
    · rcases memberNamed?_append_eq_some hother with hother | ⟨-, hother, -⟩
      · exact absurd rfl (hkept other _ hother).2
      · exact hother
  · rcases memberNamed?_append_eq_some hm with hm | ⟨-, rfl, rfl⟩
    · exact (hkept other m hm).1
    · have hnew : (st.addSymbol symbol).2.symbol ⟨st.symbols.size⟩ = symbol := by
        rw [Store.symbol_addSymbol, if_pos rfl]
      refine ⟨Nat.lt_of_lt_of_eq (Nat.lt_succ_self _) (Array.size_push symbol).symm,
        by rwa [hnew], ?_⟩
      rw [hnew, hdeclarations, h.unnamed _ hnone]
      exact .nil

/-- What is listed has a symbol, so attaching a declaration that has none changes nothing of it. -/
theorem ListedAs.attach {x : SymbolId} {other : DeclarationId} (h : ListedAs st x d other)
    (hid : (st.declaration id).symbol = none) (m : SymbolId) :
    ListedAs (st.attach m id) x d other := by
  have hne : id ≠ other := by
    rintro rfl
    rw [h.eq] at hid
    exact Option.some_ne_none x hid
  refine ⟨(st.noSmaller_attach m id).declaration_lt h.index_lt, ?_⟩
  rw [Store.declaration_attach, if_neg fun hboth => hne hboth.1, h.eq]

/-- The member that a declaration is attached to lists it last. -/
theorem MemberLists.attach_self (h : MemberLists st m declared)
    (hid : id.index < st.declarations.size) (hnone : (st.declaration id).symbol = none) :
    MemberLists (st.attach m id) m (declared ++ [st.declaration id]) := by
  have hle := st.noSmaller_attach m id
  have hsymbol : (st.attach m id).symbol m =
      { st.symbol m with declarations := (st.symbol m).declarations ++ [id] } := by
    rw [Store.symbol_attach, if_pos ⟨rfl, h.index_lt⟩]
  have hlisted : ListedAs (st.attach m id) m (st.declaration id) id :=
    ⟨hle.declaration_lt hid, by
      rw [Store.declaration_attach, if_pos ⟨rfl, hid⟩]⟩
  refine ⟨hle.symbol_lt h.index_lt, by rw [hsymbol]; exact h.parent, ?_⟩
  rw [hsymbol]
  exact List.rel_append (h.declarations.imp fun _ _ hl => hl.attach hnone m) (.cons hlisted .nil)

/-- Other members list what they have listed. -/
theorem MemberLists.attach_of_ne {x : SymbolId} (h : MemberLists st x declared)
    (hnone : (st.declaration id).symbol = none) (hne : m ≠ x) :
    MemberLists (st.attach m id) x declared := by
  have hsymbol : (st.attach m id).symbol x = st.symbol x := by
    rw [Store.symbol_attach, if_neg fun hboth => hne hboth.1]
  refine ⟨(st.noSmaller_attach m id).symbol_lt h.index_lt,
    by rw [hsymbol]; exact h.parent, ?_⟩
  rw [hsymbol]
  exact h.declarations.imp fun _ _ hl => hl.attach hnone m

/-- A declaration that is attached to the member of its name becomes the last one of it. -/
theorem Lists.attach (h : Lists st members declared) (hd : d.symbol = none)
    (hid : id.index < st.declarations.size) (heq : st.declaration id = d)
    (hm : memberNamed? members d.name = some m) :
    Lists (st.attach m id) members (declared ++ [d]) := by
  subst heq
  refine ⟨h.distinct, fun name hname => ?_, fun name x hx => ?_⟩
  · have hne : (st.declaration id).name ≠ name := by
      rintro rfl
      rw [hm] at hname
      exact Option.some_ne_none m hname
    rw [namedParts_append_of_ne hne]
    exact h.unnamed name hname
  -- The member of this name gets the part; the others keep theirs.
  · by_cases hname : (st.declaration id).name = name
    · obtain rfl : m = x := Option.some.inj (hm.symm.trans (hname ▸ hx))
      rw [namedParts_append_self hname]
      exact (h.lists name m hx).attach_self hid hd
    · have hne : m ≠ x := by
        rintro rfl
        exact hname (h.distinct _ _ _ hm hx)
      rw [namedParts_append_of_ne hname]
      exact (h.lists name x hx).attach_of_ne hd hne

/-- A declaration that is attached to no symbol becomes the last one of the member of its name. -/
theorem Lists.addToMember (h : Lists st members declared) (hd : d.symbol = none)
    (hid : id.index < st.declarations.size) (heq : st.declaration id = d)
    (hm : memberNamed? members d.name = some m) :
    Lists (addedToMember m id st) members (declared ++ [d]) := by
  have hattach : addedToMember m id st = st.attach m id := by
    rw [addedToMember, heq, hd]
  rw [hattach]
  exact h.attach hd hid heq hm

/-- Members go on to have names that some declaration has. -/
theorem OnlyNamed.append (h : OnlyNamed members declared) (d : Declaration) :
    OnlyNamed members (declared ++ [d]) := fun name m hm => by
  rw [namedParts, List.filter_append]
  exact List.append_ne_nil_of_left_ne_nil (h name m hm) _

/-- So does a member that is added for a declaration of its name. -/
theorem OnlyNamed.append_new (h : OnlyNamed members declared) (d : Declaration) (x : SymbolId) :
    OnlyNamed (members ++ [(d.name, x)]) (declared ++ [d]) := fun name m hm => by
  rcases memberNamed?_append_eq_some hm with hm | ⟨-, hname, -⟩
  · exact h.append d name m hm
  · rw [namedParts_append_self hname]
    exact List.append_ne_nil_of_right_ne_nil _ (List.cons_ne_nil d [])

/-! ## Typing the first declaration -/

/-- A declaration by itself is all that calls can bind to. -/
theorem overloads_singleton (st : Store) (id : DeclarationId) : overloads st [id] = [id] := by
  unfold overloads
  rw [List.partition_eq_filter_filter]
  cases hbody : (st.declaration id).hasBody <;> simp [hbody]

/-- A method of a member has the signatures of all overloads of the member. -/
theorem method_learns (horacle : oracle.Learns files) (hm : m.index < base.store.symbols.size)
    (hlisted : ListedAs base.store m d id) (hd : IsPart d) (hkind : d.kind = .methodSignature)
    (hparent : (base.store.symbol m).parent.isSome = true) :
    Learns files False oracle base (declarationType id) fun t st =>
      ∃ signatures e, t = .function signatures e ∧
        SignaturesFor st (callables st m) signatures := by
  have hdeclaration : Learns files False oracle base (declarationOf id)
      fun found _ => found = { d with symbol := some m } :=
    .store nofun fun _ hnow _ => .pure fun _ _ => (hlisted.later hnow).eq
  -- The declaration is a method of a member, which decides the rule.
  refine .bind hdeclaration fun found now hnow hfound => ?_
  subst hfound
  simp only [hkind, methodType, hd.accessor]
  refine .bind (entityOf?_learns fun _ hs => Option.some.inj hs ▸
    hnow.symbol_lt hm) fun entity next hnext _ =>
    .store nofun fun then' hthen _ => ?_
  have hlater := (hnow.trans hnext).trans hthen
  rw [hlater.workspace.store.symbol_eq m hm, if_pos hparent]
  exact .map (.weaken (symbolSignatures_declares horacle
    (hlater.symbol_lt hm)) fun signatures _ _ hfor =>
      ⟨signatures, entity, rfl, hfor.2⟩)

/-- A method that is the only declaration of its member has one signature. -/
theorem loneMethod_learns (horacle : oracle.Learns files) (hm : m.index < base.store.symbols.size)
    (hlisted : ListedAs base.store m d id) (hd : IsPart d) (hkind : d.kind = .methodSignature)
    (hparent : (base.store.symbol m).parent.isSome = true)
    (hlone : (base.store.symbol m).declarations = [id]) :
    Learns files False oracle base (declarationType id) fun t st =>
      ∃ s e, t = .function [s] e ∧ DeclaredAt st d.key s := by
  refine (method_learns horacle hm hlisted hd hkind hparent).weaken
    fun t now hnow ⟨signatures, e, ht, hfor⟩ => ?_
  have hdone := hlisted.later hnow
  -- The member has no other declaration, so there is one overload.
  have hcallables : callables now.store m = [id] := by
    rw [callables, hnow.workspace.store.symbol_eq m hm, hlone, List.filter_singleton, hdone.eq]
    simp only [hkind]
    rfl
  rw [hcallables, SignaturesFor, overloads_singleton] at hfor
  cases hfor with
  | cons hs hrest =>
    cases hrest
    rw [hdone.eq] at hs
    exact ⟨_, e, ht, hs⟩

/-- The only declaration of a member is typed when it is new to all questions. -/
theorem typedAlone_of_first (horacle : oracle.Learns files) (hsound : k.Sound files)
    (hm : m.index < k.store.symbols.size) (hlisted : ListedAs k.store m d id) (hd : IsPart d)
    (hparent : (k.store.symbol m).parent.isSome = true)
    (hlone : (k.store.symbol m).declarations = [id])
    (hnew : StandsAlone k.store d.key → k.answers.find? (.declaration d.key d.name) = none ∧
      .declaration d.key d.name ∉ k.inProgress) :
    TypedAlone (((typeOfDeclaration id).perform (answerBy oracle)).run k).2 d := by
  have hasked : Learns files False (answerBy oracle) k (typeOfDeclaration id) _ :=
    typeOfDeclaration_learns (answerBy_learns horacle) hlisted.index_lt
  obtain ⟨hlater, -⟩ := hasked k (.refl k) hsound
  intro hkind halone
  -- Nobody has asked for this place before, and so the type is worked out now.
  obtain ⟨hnone, hprogress⟩ := hnew (halone.earlier fun _ => key_later hlater)
  have hrun : ((typeOfDeclaration id).perform (answerBy oracle)).run k =
      (guarded (.declaration d.key d.name) ((declarationType id).perform oracle)).run k := by
    show (guarded (.declaration (k.store.declaration id).key (k.store.declaration id).name)
      ((declarationType id).perform oracle)).run k = _
    rw [hlisted.eq]
    rfl
  rw [hrun, run_guarded, hnone]
  dsimp only
  rw [if_neg (by rwa [List.contains_iff_mem])]
  have htyped : Learns files False oracle (k.asking (.declaration d.key d.name))
      (declarationType id) _ := loneMethod_learns horacle hm hlisted hd hkind hparent hlone
  obtain ⟨-, -, ⟨s, e, ht, hs⟩, -⟩ := htyped _ (.refl _) { hsound with }
  exact ⟨s, e, (Memo.find?_record _ _ _ _).trans ((if_pos rfl).trans (congrArg some ht)), hs⟩

/-! ## One part after the other -/

/-- What has been added to a member is one of its declarations. -/
theorem mem_addedToMember (hm : m.index < st.symbols.size) :
    id ∈ ((addedToMember m id st).symbol m).declarations := by
  unfold addedToMember
  split
  · show id ∈ ((Store.modifySymbol _ m _).symbol m).declarations
    rw [Store.symbol_modifySymbol, if_pos ⟨rfl, hm⟩]
    exact List.mem_append_right _ List.mem_cons_self
  · rw [Store.symbol_modifySymbol, if_pos ⟨rfl, hm⟩]
    exact List.mem_append_right _ List.mem_cons_self

/-- The knowledge with another store. -/
def Knowledge.withStore (k : Knowledge) (st : Store) : Knowledge :=
  { k with workspace := { k.workspace with store := st } }

/-- A part goes to the member of its name, which is made if there is none. -/
theorem run_addMember : ((addMember owner members id).perform oracle).run k =
    match memberNamed? members (k.store.declaration id).name with
    | some m => (members, k.withStore (addedToMember m id k.store))
    | none =>
      let name := (k.store.declaration id).name
      let made := k.store.addSymbol { name, parent := some owner }
      (members ++ [(name, made.1)], k.withStore (addedToMember made.1 id made.2)) := by
  have hof : ((declarationOf id).perform oracle).run k = (k.store.declaration id, k) := rfl
  unfold addMember memberNamed?
  rw [Inquiry.run_bind, hof]
  dsimp only
  cases members.find? (·.1 == (k.store.declaration id).name) <;> rfl

/-- A declaration that is attached to no symbol becomes the last one that is listed. -/
theorem addMember_lists (oracle : Oracle) (owner : SymbolId) (h : Lists k.store members declared)
    (hd : d.symbol = none) (hid : id.index < k.store.declarations.size)
    (heq : k.store.declaration id = d) :
    let added := ((addMember owner members id).perform oracle).run k
    Lists added.2.store added.1 (declared ++ [d]) ∧
      (∃ m, memberNamed? added.1 d.name = some m ∧ id ∈ (added.2.store.symbol m).declarations) ∧
      added.2.answers = k.answers ∧ added.2.inProgress = k.inProgress := by
  intro added
  have hadded : added = _ := run_addMember
  rw [hadded, heq]
  split
  · rename_i m hm
    exact ⟨h.addToMember hd hid heq hm,
      ⟨m, hm, mem_addedToMember (h.lists _ _ hm).index_lt⟩, rfl, rfl⟩
  -- A new member is made for the name before the declaration is attached.
  · rename_i hnone
    have hmade := h.addSymbol { name := d.name, parent := some owner } rfl rfl hnone
    have hm : memberNamed? (members ++ [(d.name, ⟨k.store.symbols.size⟩)]) d.name =
        some ⟨k.store.symbols.size⟩ := by
      unfold memberNamed? at hnone ⊢
      rw [List.find?_append, Option.map_or, hnone]
      simp
    exact ⟨hmade.addToMember hd hid heq hm,
      ⟨_, hm, mem_addedToMember (hmade.lists _ _ hm).index_lt⟩, rfl, rfl⟩

/-- A member that is added has the name of the declaration. -/
theorem addMember_onlyNamed (h : OnlyNamed members declared) (heq : k.store.declaration id = d) :
    OnlyNamed (((addMember owner members id).perform oracle).run k).1 (declared ++ [d]) := by
  rw [run_addMember, heq]
  split
  · exact h.append d
  · exact h.append_new d _

/-- One turn of the loop that makes the type of an object. -/
def addPart (owner : SymbolId) (declared : Node → Inquiry (Option DeclarationId)) (part : Node)
    (gathered : List (String × SymbolId) × Table String Ty) :
    Inquiry (List (String × SymbolId) × Table String Ty) := do
  match ← declared part with
  | none => return gathered
  | some id =>
    let members ← addMember owner gathered.1 id
    return (members, gathered.2.put (← declarationOf id).name (← typeOfDeclaration id))

/-- An object type gathers its parts as members of a new symbol. -/
theorem objectTypeOf_eq (owner : String) (declared : Node → Inquiry (Option DeclarationId))
    (parts : List Node) : objectTypeOf owner declared parts = do
      let owner ← newSymbol { name := owner }
      let gathered ← forIn parts (([] : List (String × SymbolId)), (Table.empty : Table String Ty))
        fun part gathered => do return .yield (← addPart owner declared part gathered)
      return .literal gathered.1 gathered.2.entries := by
  unfold objectTypeOf addPart
  refine bind_congr fun owner => congrArg (· >>= _)
    (congrArg (forIn parts _) (funext fun part => funext fun gathered => ?_))
  -- Nothing is left out for a part that declares nothing.
  simp only [bind_assoc]
  refine bind_congr fun found => ?_
  cases found with
  | none => rfl
  | some id => simp only [bind_assoc, pure_bind]

variable {start : Knowledge} {types : Table String Ty}

/-- Knowledge while an object type is read: the members so far list the declarations so far, of
which the first ones have been typed by themselves. -/
structure Reading (files : Source → Prop) (start : Knowledge) (owner : SymbolId)
    (members : List (String × SymbolId)) (types : Table String Ty) (declared : List Declaration)
    (k : Knowledge) : Prop where
  gathered : Gathered files start owner members types k
  placed : k.Placed
  lists : Lists k.store members declared
  named : OnlyNamed members declared
  typed : FirstTyped k declared

/-- Knowledge after a declaration has been added, before its type is asked for. If it stands alone,
nothing is remembered of it. -/
structure Joined (files : Source → Prop) (start : Knowledge) (owner : SymbolId)
    (members : List (String × SymbolId)) (types : Table String Ty) (declared : List Declaration)
    (d : Declaration) (id : DeclarationId) (k : Knowledge) : Prop where
  gathered : Gathered files start owner members types k
  placed : k.Placed
  lists : Lists k.store members (declared ++ [d])
  named : OnlyNamed members (declared ++ [d])
  typed : FirstTyped k declared
  index_lt : id.index < k.store.declarations.size
  member : ∃ m, memberNamed? members d.name = some m ∧ id ∈ (k.store.symbol m).declarations
  new : StandsAlone k.store d.key → k.answers.find? (.declaration d.key d.name) = none ∧
    .declaration d.key d.name ∉ k.inProgress

section Oracles

variable (hgrows : oracle.Grows)
include hgrows

/-- A new declaration is added to the member of its name. -/
theorem joined_of_reading (hk : Reading files start owner members types declared k) (hd : IsPart d)
    (hfrom : d.node.From files) :
    let made := k.store.addDeclaration d
    let added := ((addMember owner members made.1).perform oracle).run (k.withStore made.2)
    Joined files start owner added.1 types declared d made.1 added.2 := by
  intro made added
  have hrun : ((addDeclaration d).perform oracle).run k = (some made.1, k.withStore made.2) := rfl
  have hadds : Ensures (Gathered files start owner members types)
      ((addDeclaration d).perform oracle) _ :=
    Gathered.ensures fun now hnow => addDeclaration_learns hnow hd.symbol hfrom
  -- The declaration is made first, and then it joins the member of its name.
  obtain ⟨hgathered, hjoin⟩ := hadds k hk.gathered
  have hjoin := hjoin made.1 rfl
  rw [hrun] at hgathered hjoin
  obtain ⟨hgathered, hlt⟩ := show _ ∧ made.1.index < added.2.store.declarations.size from
    addMember_gathered (k.withStore made.2) ⟨hgathered, hjoin⟩
  have hmade : (k.withStore made.2).store.declaration made.1 = d :=
    (Store.declaration_addDeclaration k.store d made.1).trans (if_pos rfl)
  obtain ⟨hlists, hmember, hanswers, hprogress⟩ := addMember_lists oracle owner
    (hk.lists.later (Knowledge.later_store (k.store.later_addDeclaration d)))
    hd.symbol hjoin.1 hmade
  -- Whatever was declared before has stayed where it was.
  have hstart : Knowledge.Grown k.workspace k :=
    ⟨.refl k.workspace, hk.gathered.known.2.workspace.coherent⟩
  have hgrown := Inquiry.perform_grown hgrows (addDeclaration d) k hstart
  rw [hrun] at hgrown
  have hretained := (Inquiry.perform_grown hgrows
    (addMember owner members made.1) _ hgrown).retained
  have hlast := (Inquiry.perform_grown hgrows (addMember owner members made.1) (k.withStore made.2)
    ⟨.refl _, hgrown.coherent⟩).retained
  refine ⟨hgathered, hk.placed.keep hretained hanswers hprogress, hlists,
    addMember_onlyNamed hk.named hmade, fun name e he => ?_, hlt, hmember, fun halone => ?_⟩
  · exact (hk.typed name e he).mono hretained.noSmaller
      (fun id hid => Declaration.node_eq_of_detached_eq (hretained.declaration_eq id hid))
      fun t ht => hanswers ▸ ht
  -- The key of the new declaration is new, so no answer for it is remembered or in progress.
  · have hplace := (hlast.declaration_key hjoin.1).trans (congrArg Declaration.key hmade)
    have hnone := halone.unplaced (fun _ => hretained.declaration_key) (Nat.le_refl _) hplace
    have hfree : ¬ (k.answers.find? (.declaration d.key d.name) ≠ none ∨
        .declaration d.key d.name ∈ k.inProgress) := fun hknown => hnone (hk.placed _ _ hknown)
    rw [show added.2.answers = k.answers from hanswers,
      show added.2.inProgress = k.inProgress from hprogress]
    exact (not_or.mp hfree).imp_left not_not.mp

/-- The declaration that has been added is typed. If it is the first one of its name, this is its
type by itself. -/
theorem reading_of_joined (horacle : oracle.Learns files) (hplaces : oracle.Places)
    (hk : Joined files start owner members types declared d id k) (hd : IsPart d) (other : String) :
    let typed := ((typeOfDeclaration id).perform (answerBy oracle)).run k
    Reading files start owner members (types.put other typed.1) (declared ++ [d]) typed.2 := by
  intro typed
  have hasked : Learns files False (answerBy oracle) k (typeOfDeclaration id) _ :=
    typeOfDeclaration_learns (answerBy_learns horacle) hk.index_lt
  obtain ⟨hlater, hsound, ht, -⟩ := hasked k (.refl k) hk.gathered.known.2
  have hgathered := hk.gathered.later hlater hsound
  have hplaced := hk.placed.perform hk.gathered.known.2 (answerBy_grows hgrows)
    (answerBy_places hgrows hplaces) (typeOfDeclaration id)
  refine ⟨{ hgathered with types := fun e he => ?_ }, hplaced, hk.lists.later hlater, hk.named,
    fun name e he => ?_⟩
  · rcases Table.mem_entries_put he with rfl | he
    · exact ht
    · exact hgathered.types e he
  by_cases hname : d.name = name
  · subst hname
    rw [namedParts_append_self rfl] at he
    -- Only the first part of a name has its type recorded alone.
    cases hfirst : namedParts declared d.name with
    | cons first rest =>
      rw [hfirst] at he
      exact (hk.typed d.name e (hfirst ▸ he)).later hlater
    -- The first part of its name: it is the only declaration of its member.
    | nil =>
      obtain ⟨m, hm, hid⟩ := hk.member
      obtain ⟨hlt, hparent, hdeclarations⟩ := hk.lists.lists _ m hm
      rw [namedParts_append_self rfl, hfirst] at hdeclarations
      rw [hfirst] at he
      obtain rfl := Option.some.inj he
      generalize hids : (k.store.symbol m).declarations = ids at hdeclarations hid
      cases hdeclarations with
      | cons hlisted hrest =>
        cases hrest
        obtain rfl := List.mem_singleton.mp hid
        exact typedAlone_of_first horacle hk.gathered.known.2 hlt hlisted hd hparent hids hk.new
  · rw [namedParts_append_of_ne hname] at he
    exact (hk.typed name e he).later hlater

/-- Each part is read in turn. -/
theorem addPart_reading (horacle : oracle.Learns files) (hplaces : oracle.Places) {part : Node}
    (hpart : part.From files) (gathered : List (String × SymbolId) × Table String Ty) :
    Ensures (Reading files start owner gathered.1 gathered.2 declared)
      ((addPart owner typeMember part gathered).perform (answerBy oracle)) fun gathered =>
        Reading files start owner gathered.1 gathered.2
          (declared ++ (declaredPart? part).toList) := by
  intro k hk
  unfold addPart
  rw [typeMember_eq]
  cases hdeclared : declaredPart? part with
  | none => exact (List.append_nil declared).symm ▸ hk
  | some d =>
    obtain ⟨hd, rfl⟩ := isPart_of_declaredPart? hdeclared
    have hmade : ((addDeclaration d).perform (answerBy oracle)).run k =
        (some (k.store.addDeclaration d).1, k.withStore (k.store.addDeclaration d).2) := rfl
    have hjoined := joined_of_reading (answerBy_grows hgrows) hk hd hpart
    rw [Inquiry.run_bind, hmade]
    dsimp only
    rw [Inquiry.run_bind]
    -- The part is attached first, and then typed.
    exact reading_of_joined hgrows horacle hplaces hjoined hd _

/-- The type of an object whose parts are typed one after the other. -/
theorem objectTypeOf_lists (horacle : oracle.Learns files) (hplaces : oracle.Places)
    {parts : List Node} (hparts : ∀ n ∈ parts, n.From files) (hsound : k.Sound files)
    (hplaced : k.Placed) (other : String) :
    let found := ((objectTypeOf other typeMember parts).perform (answerBy oracle)).run k
    let declared := parts.filterMap declaredPart?
    ∃ members types, found.1 = .literal members types ∧ Lists found.2.store members declared ∧
      OnlyNamed members declared ∧ FirstTyped found.2 declared := by
  intro found declared
  have hread : Ensures (· = k) ((objectTypeOf other typeMember parts).perform (answerBy oracle))
      fun t next => ∃ members types, t = .literal members types ∧
        Lists next.store members declared ∧ OnlyNamed members declared ∧
        FirstTyped next declared := by
    rw [objectTypeOf_eq]
    -- The invariant of the loop: the parts that have been gone through are the ones that are
    -- listed.
    refine ensures_bind (R := fun owner => Reading files k owner [] Table.empty []) ?_ fun owner =>
      ensures_bind (ensures_forIn_from (P := fun gone gathered =>
        Reading files k owner gathered.1 gathered.2 (gone.filterMap declaredPart?))
          (fun gone part hpart gathered => ensures_bind
            (addPart_reading hgrows horacle hplaces (hparts part hpart) gathered) fun gathered =>
              .pure fun k hk => ⟨gathered, rfl, ?_⟩) [] ([], Table.empty))
          fun gathered => .pure fun next hnext => ⟨_, _, rfl, hnext.lists, hnext.named, hnext.typed⟩
    · rintro _ rfl
      obtain ⟨hlater, hknown, ⟨-, hlt⟩, -⟩ := @newSymbol_learns files (answerBy oracle) _ _
        (symbol_within_named other none nofun) _ (.refl _) hsound
      have hplaced := hplaced.perform hsound (answerBy_grows hgrows)
        (answerBy_places hgrows hplaces)
        (newSymbol { name := other })
      exact ⟨⟨⟨hlater, hknown⟩, hlt, nofun, nofun⟩, hplaced, ⟨nofun, fun _ _ => rfl, nofun⟩,
        nofun, fun _ e he => absurd he (Option.not_mem_none e)⟩
    · rw [List.filterMap_append, List.filterMap_cons, List.filterMap_nil]
      cases hdeclared : declaredPart? part <;> simpa [hdeclared] using hk
  exact hread k rfl

/-- What an object type denotes when it has not been asked for before. -/
theorem typeOfSyntax_lists (horacle : oracle.Learns files) (hplaces : oracle.Places)
    (hsound : k.Sound files) (hplaced : k.Placed) (hempty : k.inProgress = []) {n : Node}
    (hfrom : n.From files) (hn : n.is .objectType = true)
    (hnew : k.answers.find? (.written n.key) = none) :
    let found := ((typeOfSyntax n).perform (answerBy (answerBy oracle))).run k
    let declared := n.constructs.filterMap declaredPart?
    ∃ members types, found.1 = .literal members types ∧ Lists found.2.store members declared ∧
      OnlyNamed members declared ∧ FirstTyped found.2 declared := by
  intro found declared
  have hrule : syntaxType n = objectTypeOf "__type" typeMember n.constructs := by
    unfold syntaxType
    rw [Node.kind?_of_is hn]
  have hfound : found = ((guarded (.written n.key)
      ((objectTypeOf "__type" typeMember n.constructs).perform (answerBy oracle))).run k) :=
    hrule ▸ rfl
  rw [run_guarded, hnew, hempty] at hfound
  obtain ⟨members, types, ht, hlists, hnamed, htyped⟩ := objectTypeOf_lists hgrows horacle hplaces
    (k := k.asking (.written n.key)) (fun _ => hfrom.constructs) { hsound with }
    (hplaced.asking fun _ _ => nofun) "__type"
  rw [hfound]
  -- The answer is remembered under its own key, and the members stay as they are.
  refine ⟨members, types, ht, hlists, hnamed, fun name d hd => (htyped name d hd).mono (.refl _)
    (fun _ _ => rfl) fun t hanswer => ?_⟩
  exact (Memo.find?_record _ _ _ _).trans ((if_neg nofun).trans hanswer)

end Oracles

end ScriptGraph.Inference
