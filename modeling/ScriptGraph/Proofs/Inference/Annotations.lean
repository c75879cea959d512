import ScriptGraph.Inference.Annotations
import ScriptGraph.Proofs.Inference.Signatures

/-!
# Reading type syntax keeps what is known

The rules for type syntax and for the types of objects. The members of an object are new symbols,
to which the declarations of the object are added; of the declarations that were there before only
methods are, so that everything else that was known stays as it was.

- `objectTypeOf_learns`: the type of an object
- `syntaxType_learns`: the rule for type syntax
-/

namespace ScriptGraph.Inference

open Binding Syntax

/-! ## Adding declarations to members -/

/-- Adding a declaration to a new symbol keeps what a store knows, if the declaration is new or a
method. -/
theorem later_addedToMember {start st : Store} (h : start.Later st) {member : SymbolId}
    {d : DeclarationId} (hm : start.symbols.size ≤ member.index)
    (hd : start.declarations.size ≤ d.index ∨
      (st.declaration d).node.is .methodDefinition = true) :
    start.Later (addedToMember member d st) := by
  -- Only the new symbol is changed, and a symbol known before is another one.
  have hsymbol : ∀ (s : Store) (f : Symbol → Symbol) (id : SymbolId),
      id.index < start.symbols.size → (s.modifySymbol member f).symbol id = s.symbol id :=
    fun s f id hid => by
      rw [Store.symbol_modifySymbol, if_neg]
      rintro ⟨rfl, -⟩
      exact absurd hid (Nat.not_lt.mpr hm)
  unfold addedToMember
  split
  · rename_i hnone
    refine ⟨h.toNoSmaller.trans (st.noSmaller_attach member d),
      fun id hid => (hsymbol _ _ id hid).trans (h.symbol_eq id hid), fun id hid => ?_, h.scope_eq⟩
    -- The declaration that is attached is new or a method.
    show (start.declaration id).Became ((st.modifyDeclaration d _).declaration id)
    rw [Store.declaration_modifyDeclaration]
    split
    next he =>
      obtain ⟨rfl, -⟩ := he
      have hmethod := hd.resolve_left (Nat.not_le.mpr hid)
      exact (h.declaration_became _ hid).trans (.inr ⟨hnone, hmethod, member, rfl⟩)
    next => exact h.declaration_became id hid
  · exact ⟨h.toNoSmaller.trans (st.noSmaller_modifySymbol member _),
      fun id hid => (hsymbol _ _ id hid).trans (h.symbol_eq id hid), h.declaration_became,
      h.scope_eq⟩

/-- Attaching to a member makes no store smaller. -/
theorem noSmaller_addedToMember (member : SymbolId) (d : DeclarationId) (st : Store) :
    st.NoSmaller (addedToMember member d st) := by
  unfold addedToMember
  split
  · exact st.noSmaller_attach member d
  · exact st.noSmaller_modifySymbol member _

/-- Attaching to a member adds no declaration. -/
@[simp] theorem size_declarations_addedToMember (member : SymbolId) (d : DeclarationId)
    (st : Store) :
    (addedToMember member d st).declarations.size = st.declarations.size := by
  unfold addedToMember
  split <;> simp [Store.attach, Store.modifyDeclaration, Store.modifySymbol]

/-- A declaration may be attached to a member that is there. -/
theorem selfContained_addedToMember {st : Store} (h : st.SelfContained) {member : SymbolId}
    {d : DeclarationId} (hm : member.index < st.symbols.size)
    (hd : d.index < st.declarations.size) : (addedToMember member d st).SelfContained := by
  unfold addedToMember
  split
  · exact h.attach hm hd
  · refine h.modifySymbol fun _ => ?_
    have ho := h.symbol member
    refine { ho with declarations := fun e he => ?_ }
    rcases List.mem_append.mp he with he | he
    · exact ho.declarations e he
    · exact List.mem_singleton.mp he ▸ hd

/-! ## The types of objects -/

/-- A declaration may be added to a member: it is new since `start`, or a method. -/
def MayJoin (start : Knowledge) (id : DeclarationId) (st : Store) : Prop :=
  id.index < st.declarations.size ∧ (start.store.declarations.size ≤ id.index ∨
    (st.declaration id).node.is .methodDefinition = true)

/-- Knowledge while the type of an object is found: the members are symbols that are new since
`start`, and the types found so far mention what is there. -/
structure Gathered (files : Source → Prop) (start : Knowledge) (owner : SymbolId)
    (members : List (String × SymbolId)) (types : Table String Ty) (k : Knowledge) : Prop where
  known : start.Later k ∧ k.Sound files
  owner : owner.index < k.store.symbols.size
  members : ∀ e ∈ members, start.store.symbols.size ≤ e.2.index ∧
    e.2.index < k.store.symbols.size
  types : ∀ e ∈ types.entries, e.2.Within files k.store

variable {files : Source → Prop} {oracle : Oracle} {start : Knowledge} {owner : SymbolId}
  {members : List (String × SymbolId)} {types : Table String Ty}

/-- Members that have been gathered stay gathered. -/
theorem Gathered.later {k next : Knowledge} (hk : Gathered files start owner members types k)
    (hlater : k.Later next) (hsound : next.Sound files) :
    Gathered files start owner members types next where
  known := ⟨hk.known.1.trans hlater, hsound⟩
  owner := hlater.symbol_lt hk.owner
  members e he := ⟨(hk.members e he).1, hlater.symbol_lt (hk.members e he).2⟩
  types e he := (hk.types e he).mono hlater.noSmaller

/-- An inquiry that keeps what is known may be made in between. -/
theorem Gathered.ensures {α : Type} {x : Inquiry α} {φ : α → Store → Prop}
    (h : ∀ now, start.Later now → Learns files False oracle now x φ) :
    Ensures (Gathered files start owner members types) (x.perform oracle)
      fun a k => Gathered files start owner members types k ∧ φ a k.store := fun k hk =>
  let ⟨hlater, hsound, hφ, _⟩ := h k hk.known.1 k (.refl k) hk.known.2
  ⟨hk.later hlater hsound, hφ⟩

/-- A declaration may be attached to a member that has been gathered. -/
theorem addToMember_gathered {member : SymbolId} {id : DeclarationId} {k : Knowledge}
    (hk : Gathered files start owner members types k)
    (hm : start.store.symbols.size ≤ member.index ∧ member.index < k.store.symbols.size)
    (hid : MayJoin start id k.store) :
    Gathered files start owner members types { k with workspace :=
      { k.workspace with store := addedToMember member id k.store } } := by
  have hle := noSmaller_addedToMember member id k.store
  have hgrown := addedToMember_grown ⟨.refl k.workspace, hk.known.2.workspace.coherent⟩ member id
  have hlater := later_addedToMember hk.known.1.workspace.store hm.1 hid.2
  -- Attaching changes which symbol a declaration has, and neither its node nor its file.
  have hnode : ∀ d : DeclarationId, d.index < k.store.declarations.size →
      ((addedToMember member id k.store).declaration d).node = (k.store.declaration d).node :=
    fun d hd => Declaration.node_eq_of_detached_eq (hgrown.retained.declaration_eq d hd)
  have hfiles : ∀ d : DeclarationId, d.index < (addedToMember member id k.store).declarations.size →
      files ((addedToMember member id k.store).declaration d).source := fun d hd => by
    rw [size_declarations_addedToMember] at hd
    rw [Declaration.source, hnode d hd]
    exact hk.known.2.declares.source d hd
  exact
    { known := ⟨{ hk.known.1 with workspace := { hk.known.1.workspace with store := hlater } },
        hk.known.2.withWorkspace ⟨hgrown.coherent,
          selfContained_addedToMember hk.known.2.workspace.store hm.2 hid.1⟩
          (hk.known.2.declares.changeStore hfiles) hle hnode⟩
      owner := hle.symbol_lt hk.owner
      members := fun e he => ⟨(hk.members e he).1, hle.symbol_lt (hk.members e he).2⟩
      types := fun e he => (hk.types e he).mono hle }

/-- A declaration that may join may do so later on. -/
theorem MayJoin.later {id : DeclarationId} {old new : Store} (h : MayJoin start id old)
    (hlater : old.Later new) : MayJoin start id new :=
  ⟨hlater.declaration_lt h.1,
    h.2.imp_right fun hm => by rwa [(hlater.declaration_became id h.1).node_eq]⟩

/-- A declaration joins the members, under its name. -/
theorem addMember_gathered {id : DeclarationId} :
    Ensures (fun k => Gathered files start owner members types k ∧ MayJoin start id k.store)
      ((addMember owner members id).perform oracle)
      fun members k => Gathered files start owner members types k ∧
        id.index < k.store.declarations.size := by
  -- Whichever member it is, the declaration is added to it.
  have hadd : ∀ (member : SymbolId) (members : List (String × SymbolId)),
      Ensures (fun k => (Gathered files start owner members types k ∧ MayJoin start id k.store) ∧
          start.store.symbols.size ≤ member.index ∧ member.index < k.store.symbols.size)
        ((do Inquiry.ofStep (.addToMember member id); return members : Inquiry _).perform oracle)
        fun members k => Gathered files start owner members types k ∧
          id.index < k.store.declarations.size := fun member members k hk =>
    ⟨addToMember_gathered hk.1.1 hk.2 hk.1.2,
      (noSmaller_addedToMember member id k.store).declaration_lt hk.1.2.1⟩
  refine ensures_bind (R := fun _ k => Gathered files start owner members types k ∧
    MayJoin start id k.store) (fun k hk => hk) fun d => ?_
  dsimp only
  split
  -- A member by this name may be there already; otherwise it is a new symbol.
  · rename_i name member hfound
    exact fun k hk => hadd member members k ⟨hk, hk.1.members _ (List.mem_of_find?_eq_some hfound)⟩
  · refine ensures_bind
      (R := fun member k => (Gathered files start owner (members ++ [(d.name, member)])
      types k ∧ MayJoin start id k.store) ∧ start.store.symbols.size ≤ member.index ∧
        member.index < k.store.symbols.size) (fun k hk => ?_) fun member => hadd member _
    obtain ⟨hlater, hsound, ⟨hge, hlt⟩, -⟩ := @newSymbol_learns files oracle _ _
      (symbol_within_named d.name (some owner) fun o ho => Option.some.inj ho ▸ hk.1.owner) k
        (.refl k) hk.1.known.2
    have hnew := Nat.le_trans hk.1.known.1.noSmaller.symbols_le hge
    have hgathered := hk.1.later hlater hsound
    -- What was gathered stays, and the new symbol was not known at the start.
    refine ⟨⟨{ hgathered with members := fun e he => ?_ }, hk.2.later hlater.workspace.store⟩,
      hnew, hlt⟩
    rcases List.mem_append.mp he with he | he
    · exact hgathered.members e he
    · rw [List.mem_singleton.mp he]
      exact ⟨hnew, hlt⟩

/-- The type of an object whose parts declare what may join its members. -/
theorem objectTypeOf_learns (horacle : oracle.Learns files) {base : Knowledge} {owner : String}
    {declared : Node → Inquiry (Option DeclarationId)} {parts : List Node}
    (hdeclared : ∀ start now part, base.Later start → start.Later now → part ∈ parts →
      Learns files False oracle now (declared part)
        fun found st => ∀ id, found = some id → MayJoin start id st) :
    Learns files False oracle base (objectTypeOf owner declared parts) fun t st =>
      t.Within files st := by
  intro start hstart hsound
  -- The loop carries what has been gathered so far; a part that declares nothing leaves it as it
  -- is.
  have hmade : Ensures (· = start) ((objectTypeOf owner declared parts).perform oracle)
      fun t k => (start.Later k ∧ k.Sound files) ∧ t.Within files k.store := by
    refine ensures_bind (R := fun owner => Gathered files start owner [] Table.empty)
      ?_ fun owner =>
      ensures_bind (ensures_forIn
        (P := fun gathered => Gathered files start owner gathered.1 gathered.2)
        (fun part hpart gathered => ?_) ([], Table.empty)) fun gathered => .pure fun k hk => ?_
    · rintro k rfl
      obtain ⟨hlater, hsound, ⟨-, hlt⟩, -⟩ := @newSymbol_learns files oracle _ _
        (symbol_within_named owner none nofun) k (.refl k) hsound
      exact ⟨⟨hlater, hsound⟩, hlt, nofun, nofun⟩
    · refine ensures_bind (Gathered.ensures fun now hnow =>
        hdeclared start now part hstart hnow hpart) fun found => ?_
      split
      · exact .pure fun k hk => ⟨gathered, rfl, hk.1⟩
      · rename_i id
        refine ensures_bind (.of_imp addMember_gathered fun k hk => ⟨hk.1, hk.2 id rfl⟩)
          fun members => ensures_bind
            (R := fun _ k => Gathered files start owner members gathered.2 k ∧
            id.index < k.store.declarations.size) (fun k hk => hk) fun d => ensures_bind
          (R := fun t k => Gathered files start owner members gathered.2 k ∧ t.Within files k.store)
          -- The type of a part is asked for after the part has joined its member.
          (fun k hk => ?_) fun t => .pure fun k hk => ?_
        · have hasked : Learns files False oracle k (typeOfDeclaration id) fun t st =>
            t.Within files st :=
            typeOfDeclaration_learns horacle hk.2
          obtain ⟨hlater, hsound, ht, -⟩ := hasked k (.refl k) hk.1.known.2
          exact ⟨hk.1.later hlater hsound, ht⟩
        · refine ⟨_, rfl, { hk.1 with types := fun e he => ?_ }⟩
          rcases Table.mem_entries_put he with rfl | he
          · exact hk.2
          · exact hk.1.types e he
    · exact ⟨hk.known, .literal (fun e he => (hk.members e he).2) hk.types⟩
  obtain ⟨hknown, ht⟩ := hmade start rfl
  exact ⟨hknown.1, hknown.2, ht, nofun⟩

/-- A new declaration may join. -/
theorem addDeclaration_learns {start now : Knowledge} (h : start.Later now) {d : Declaration}
    (hd : d.symbol = none) (hfiles : d.node.From files) :
    Learns files False oracle now (addDeclaration d)
      fun found st => ∀ id, found = some id → MayJoin start id st :=
  .map (.weaken (newDeclaration_learns (fun _ ho => by rw [hd] at ho; exact nomatch ho) hfiles)
    fun _ _ _ hid _ hs => Option.some.inj hs ▸
      ⟨hid.2, .inl (Nat.le_trans h.noSmaller.declarations_le hid.1)⟩)

/-- What a part of an object type declares may join its members. -/
theorem typeMember_learns {start now : Knowledge} (h : start.Later now) {n : Node}
    (hn : n.From files) : Learns files False oracle now (typeMember n)
      fun found st => ∀ id, found = some id → MayJoin start id st := by
  unfold typeMember
  dsimp only
  split
  · exact .pure fun _ _ => nofun
  · split
    · exact addDeclaration_learns h rfl hn
    · exact addDeclaration_learns h rfl hn
    · exact .pure fun _ _ => nofun

/-! ## Type syntax -/

section Oracles

variable {base : Knowledge} (horacle : oracle.Learns files)
include horacle

/-- The type that a symbol of a type stands for is within the files. -/
theorem typeOfTypeSymbol_learns {symbol : SymbolId} (hs : symbol.index < base.store.symbols.size)
    {arguments : List Ty} (harguments : ∀ t ∈ arguments, t.Within files base.store)
    (shown : String) :
    Learns files False oracle base (typeOfTypeSymbol symbol arguments shown)
      fun t st => t.Within files st := by
  -- A name that stands for no type is shown.
  have hnamed : ∀ (now : Knowledge) (id : SymbolId), Learns files False oracle now (do
      let name := ((← store).symbol id).name
      return .text (if shown.isEmpty then name else shown)) fun t st => Ty.Within files st t :=
    fun now id => .store nofun fun _ _ _ => .type .text
  unfold typeOfTypeSymbol
  refine .bind (resolveAlias_learns hs) fun found now hnow hfound => ?_
  split
  · exact hnamed now symbol
  rename_i target
  refine .store nofun fun next hnext hsound => ?_
  have htarget := hnext.symbol_lt (hfound target rfl)
  have harguments : ∀ t ∈ arguments, t.Within files next.store := fun t ht =>
    (harguments t ht).mono (hnow.trans hnext).noSmaller
  dsimp only
  split
  · exact hnamed next target
  -- A symbol without declarations says no more than its name.
  rename_i id hid
  have hid := firstOf_lt hsound.workspace.store hid
  have hn : (next.store.declaration id).node.From files := hsound.declares.source id hid
  split
  · exact instanceOf_learns htarget harguments
  · exact instanceOf_learns htarget harguments
  · exact instanceOf_learns htarget harguments
  · exact .type .parameter
  · split
    -- A type alias: what it stands for, with the arguments put for its type parameters.
    · exact .type Ty.any_within
    · rename_i hvalue
      split
      · exact instanceOf_learns htarget harguments
      · refine .bind (typeOfSyntax_learns horacle (hn.child? hvalue))
          fun aliased last hlast haliased =>
            .bind (entityOf_learns (hlast.symbol_lt htarget))
            fun e final hfinal _ => ?_
        exact instantiate_learns horacle (Ty.mappingOf_within (fun t ht =>
          (harguments t ht).mono (hlast.trans hfinal).noSmaller) e) (haliased.mono hfinal.noSmaller)
  · exact hnamed next target

/-- The type that goes by a name is within the files. -/
theorem namedType_learns {nameNode : Node} (hn : nameNode.From files) {arguments : List Ty}
    (harguments : ∀ t ∈ arguments, t.Within files base.store) :
    Learns files False oracle base (namedType nameNode arguments) fun t st =>
      t.Within files st := by
  unfold namedType
  dsimp only
  split
  · exact arrayOf_learns (harguments _ List.mem_cons_self)
  rename_i arguments _ _ _
  refine .bind (symbolAt_learns horacle hn fun _ => declaredSymbol_learns _)
    fun symbol now hnow hsymbol => ?_
  have harguments : ∀ t ∈ arguments, t.Within files now.store := fun t ht =>
    (harguments t ht).mono hnow.noSmaller
  have htexts : Learns files False oracle now
    (arguments.mapM (Ty.display demand)) fun _ _ => True :=
    .texts fun next hnext t ht => display_learns horacle ((harguments t ht).mono hnext.noSmaller)
  -- Whatever is shown in place of it, the name stands for the type of its symbol.
  cases symbol with
  | none =>
    split
    · exact .type .text
    · exact .bind htexts fun _ _ _ _ => .type .text
  | some symbol =>
    have hnamed : ∀ (next : Knowledge) (shown : String), now.Later next →
        Learns files False oracle next (typeOfTypeSymbol symbol arguments shown)
          fun t st => Ty.Within files st t := fun next shown hnext =>
      typeOfTypeSymbol_learns horacle (hnext.symbol_lt (hsymbol _ rfl))
        (fun t ht => (harguments t ht).mono hnext.noSmaller) shown
    split
    · exact hnamed now _ (.refl now)
    · exact .bind htexts fun _ next hnext _ => hnamed next _ hnext

omit horacle in
/-- The type of a literal refers to nothing. -/
theorem literalType_within (n : Node) (st : Store) : (literalType n).Within files st := by
  unfold literalType
  split <;> exact .intrinsic

/-- The type that syntax denotes is within the files. -/
theorem syntaxType_learns {n : Node} (hn : n.From files) :
    Learns files False oracle base (syntaxType n) fun t st => t.Within files st := by
  have hfirst : ∀ m, firstConstruct n = some m → m.From files := fun _ => from_firstConstruct hn
  unfold syntaxType
  -- One case for each form of the syntax, in the order of the rule.
  split
  · split
    · exact .type .intrinsic
    · exact .type .text
  · exact namedType_learns horacle hn nofun
  · refine .bind (typeArguments_learns horacle fun _ => hn.child?)
      fun arguments now _ harguments => ?_
    split
    · rename_i hname
      exact namedType_learns horacle (hn.child? (Option.filter_eq_some_iff.mp hname).1) harguments
    · exact .type .text
  · exact .bind (typeOfSyntax?_learns horacle hfirst) fun _ _ _ ht => arrayOf_learns ht
  · exact .bind (.allTypes fun _ _ _ hm => typeOfSyntax_learns horacle (hn.constructs hm))
      fun elements now hnow helements => .bind (globalType?_learns "Array")
        fun found next hnext hfound => .bind (entityOf?_learns hfound) fun e last hlast he =>
          .type (.tuple (fun t ht => (helements t ht).mono (hnext.trans hlast).noSmaller) he)
  · exact .bind (.allTypes fun _ _ _ hm => typeOfSyntax_learns horacle (hn.constructs hm))
      fun _ _ _ ht =>
      unionOf_learns horacle ht
  · exact typeOfSyntax?_learns horacle hfirst
  · exact typeOfSyntax?_learns horacle hfirst
  · exact typeOfSyntax?_learns horacle hfirst
  · exact typeOfSyntax?_learns horacle hfirst
  · split
    · exact typeOfSyntax_learns horacle (hfirst _ ‹_›)
    · exact arrayOf_learns Ty.any_within
  -- A function type has one signature, and it names no declaration.
  · refine .bind (parametersOf_learns horacle hn) fun parameters now _ hparameters =>
      .bind newCell_learns fun cell next hnext _ => .type (.function (fun s hs => ?_) nofun)
    rw [List.mem_singleton.mp hs]
    exact .mk nofun (hparameters.mono hnext.noSmaller) nofun nofun
      (fun m hm => hn.child? (ResultSource.written.inj hm)) nofun
  · exact objectTypeOf_learns horacle fun _ _ _ _ hnow hpart =>
      typeMember_learns hnow (hn.constructs hpart)
  · refine .type ?_
    -- A literal type needs its text alone.
    cases firstConstruct n with
    | none => exact .intrinsic
    | some c => exact literalType_within c _
  · exact typeOf?_learns horacle hfirst
  · exact thisType_learns n
  · exact .type .intrinsic
  · exact .type .intrinsic
  · exact .type .text

end Oracles

end ScriptGraph.Inference
