import ScriptGraph.Inference.Members
import ScriptGraph.Proofs.Inference.Substitution

/-!
# Looking up members keeps what is known

The elementary inquiries and the look-up of members, rule by rule: each keeps what is known, and
what it finds mentions what is there. The look-ups themselves last; types that are made on the way
do not, because their signatures are new ones.

- `memberOf_learns`, `symbolAt_learns`, `memberType_learns`
- `symbolBases_learns`: what a class or interface extends is worked out once
-/

namespace ScriptGraph.Inference

open Binding Syntax

variable {files : Source → Prop} {again : Prop} {oracle : Oracle} {base : Knowledge}

/-- A store holds a symbol, if there is one. -/
def Found (found : Option SymbolId) (st : Store) : Prop :=
  ∀ symbol, found = some symbol → symbol.index < st.symbols.size

/-- Nothing found is nothing missing. -/
theorem found_none (st : Store) : Found none st :=
  nofun

/-- What has been found stays in larger stores. -/
theorem Found.mono {found : Option SymbolId} {old new : Store} (h : Found found old)
    (hle : old.NoSmaller new) : Found found new :=
  fun symbol hs => hle.symbol_lt (h symbol hs)

namespace Learns

/-- What has been found is there. -/
theorem found {found : Option SymbolId} (h : Found found base.store) :
    Learns files again oracle base (Pure.pure found) Found :=
  .pure fun _ hnow => h.mono (Knowledge.Later.noSmaller hnow)

/-- A symbol that has been found is there. -/
theorem foundSome {symbol : SymbolId} (h : symbol.index < base.store.symbols.size) :
    Learns files again oracle base (Pure.pure (some symbol)) Found :=
  .found fun _ hs => Option.some.inj hs ▸ h

end Learns

/-! ## Elementary inquiries -/

/-- The first declaration of some kinds is there. -/
theorem firstOf_lt {st : Store} (hst : st.SelfContained) {kinds : DeclarationKind → Bool}
    {symbol : SymbolId} {d : DeclarationId} (h : st.firstOf kinds symbol = some d) :
    d.index < st.declarations.size :=
  (hst.symbol symbol).declarations d (List.mem_of_find?_eq_some h)

/-- A declaration that is looked at belongs to one of the files. -/
theorem declarationOf_learns {d : DeclarationId} (hd : d.index < base.store.declarations.size) :
    Learns files False oracle base (declarationOf d) fun d st => d.Within st ∧ d.node.From files :=
  .store nofun fun _ hnow hsound => .pure fun _ hlast =>
    ⟨(hsound.workspace.store.declaration d).mono (Knowledge.Later.noSmaller hlast),
      hsound.declares.source d (hnow.declaration_lt hd)⟩

/-- A declaration that stays what it is lasts. -/
theorem declarationOf_lasts {d : DeclarationId}
    (hd : ∀ next : Knowledge, base.Later next →
      next.store.declaration d = base.store.declaration d) :
    Learns files again oracle base (declarationOf d) fun d st => d.Within st :=
  .store (fun _ old new hold _ hnew => by rw [hd new (hold.trans hnew), hd old hold])
    fun _ _ hsound => .pure fun _ hlast =>
      (hsound.workspace.store.declaration d).mono (Knowledge.Later.noSmaller hlast)

/-- What is known of a symbol lasts. -/
theorem entityOf_learns {id : SymbolId} (hid : id.index < base.store.symbols.size) :
    Learns files again oracle base (entityOf id)
      fun e st => e.id = id ∧ e.id.index < st.symbols.size :=
  .store (fun _ old new hold _ hnew => by
      dsimp only
      rw [hnew.workspace.store.symbol_eq id (hold.symbol_lt hid)])
    fun _ hnow _ => .pure fun _ hlast =>
      ⟨rfl, (hnow.trans hlast).symbol_lt hid⟩

/-- What is known of a symbol that may be missing lasts. -/
theorem entityOf?_learns {id : Option SymbolId} (hid : Found id base.store) :
    Learns files again oracle base (entityOf? id)
      fun e st => ∀ e', e = some e' → e'.id.index < st.symbols.size := by
  cases id with
  | none => exact .pure fun _ _ => nofun
  | some id => exact .map (.weaken (entityOf_learns (hid id rfl)) fun _ _ _ he _ hs =>
      Option.some.inj hs ▸ he.2)

/-- The type of instances of a symbol lasts. -/
theorem instanceOf_learns {id : SymbolId} (hid : id.index < base.store.symbols.size)
    {arguments : List Ty} (harguments : ∀ t ∈ arguments, t.Within files base.store) :
    Learns files again oracle base (instanceOf id arguments) fun t st => t.Within files st :=
  .bind (entityOf_learns hid) fun _ _ hnow he =>
    .type (.object he.2 fun t ht => (harguments t ht).mono (Knowledge.Later.noSmaller hnow))

/-- The type of the static side of a symbol lasts. -/
theorem staticOf_learns {id : SymbolId} (hid : id.index < base.store.symbols.size) :
    Learns files again oracle base (staticOf id) fun t st => t.Within files st :=
  .bind (entityOf_learns hid) fun _ _ _ he => .type (.static he.2)

/-- A type of the ambient library that is found lasts. -/
theorem globalType?_learns (name : String) :
    Learns files again oracle base (globalType? name) Found :=
  globalSymbol_learns _ name

/-- The type of arrays with some element lasts. -/
theorem arrayOf_learns {element : Ty} (h : element.Within files base.store) :
    Learns files again oracle base (arrayOf element) fun t st => t.Within files st :=
  .bind (globalType?_learns "Array") fun _ _ hnow hfound =>
    .bind (entityOf?_learns hfound) fun _ _ hnext he =>
      .type (.array (h.mono (hnow.trans hnext).noSmaller) he)

/-- The type of instances of an ambient type lasts. -/
theorem globalObject_learns (name : String) {arguments : List Ty}
    (h : ∀ t ∈ arguments, t.Within files base.store) :
    Learns files again oracle base (globalObject name arguments) fun t st => t.Within files st := by
  refine .bind (globalType?_learns name) fun found now hnow hfound => ?_
  split
  · exact instanceOf_learns (hfound _ rfl) fun t ht => (h t ht).mono hnow.noSmaller
  · exact .type .text

/-- Whether a symbol is a class lasts. -/
theorem isClass_learns {id : SymbolId} (hid : id.index < base.store.symbols.size) :
    Learns files again oracle base (isClass id) fun _ _ => True :=
  .store (fun _ old new hold hsound hnew => by
      rw [hnew.workspace.store.hasKind_eq hsound.workspace.store (hold.symbol_lt hid)])
    fun _ _ _ => .pure fun _ _ => trivial

/-- The scope that a node stands in is there. -/
theorem scopeFor_lt {b : FileBinding} {st : Store} (h : b.Within st) (n : Node) :
    (b.scopeFor n).index < st.scopes.size := by
  unfold FileBinding.scopeFor
  generalize n.key :: n.trail.map _ = keys
  induction keys with
  | nil => exact h.moduleScope
  | cons k outer ih =>
    rw [FileBinding.scopeAmong]
    split
    · rename_i id hid
      exact h.scopes _ (Table.mem_entries_of_find? hid)
    · exact ih

/-- What a name stands for lasts. -/
theorem resolveName_learns (kinds : DeclarationKind → Bool) (n : Node) :
    Learns files again oracle base (resolveName kinds n) Found := by
  refine .bind (bindingOf_learns n) fun b now _ hb => .store (fun _ old new hold hsound hnew => ?_)
    fun next hnext hsound => ?_
  · have hlt := hold.noSmaller.scope_lt (scopeFor_lt hb n)
    dsimp only
    rw [hnew.workspace.store.lookup?_eq hsound.workspace.store hlt]
  · refine .bind (globalSymbol_learns kinds _) fun found last hlast hfound => .found fun s hs => ?_
    rcases Option.or_eq_some_iff.mp hs with hs | ⟨-, hs⟩
    · exact hlast.symbol_lt (hsound.workspace.store.lookup?_lt hs)
    · exact hfound s hs

section Oracles

variable (horacle : oracle.Learns files)
include horacle

/-- The type of a symbol is that of one of its declarations, or any. -/
theorem typeOfSymbol_learns {symbol : SymbolId} (hs : symbol.index < base.store.symbols.size) :
    Learns files False oracle base (typeOfSymbol symbol) fun t st => t.Within files st := by
  refine .bind (resolveAlias_learns hs) fun found now _ hfound => ?_
  split
  · exact .type Ty.any_within
  · rename_i target
    refine .store nofun fun next hnext hsound => ?_
    split
    · rename_i d hd
      exact typeOfDeclaration_learns horacle (firstOf_lt hsound.workspace.store hd)
    · split
      · exact .type Ty.any_within
      · exact staticOf_learns (hnext.symbol_lt (hfound target rfl))

/-! ## Members -/

omit horacle in
/-- The first symbol that is found in a list lasts. -/
theorem firstSymbol_learns {τ : Type} {find : τ → Inquiry (Option SymbolId)} {l : List τ}
    (h : ∀ now, base.Later now → ∀ a ∈ l, Learns files again oracle now (find a) Found) :
    Learns files again oracle base (firstSymbol find l) Found := by
  induction l generalizing base with
  | nil => exact .found (found_none _)
  | cons a rest ih =>
    refine .bind (h base (.refl base) a List.mem_cons_self) fun found now hnow hfound => ?_
    split
    · exact .found hfound
    · exact ih fun next hnext b hb => h next (hnow.trans hnext) b (List.mem_cons_of_mem _ hb)

omit horacle in
/-- A member of a symbol, or a static, is looked up the same way later. -/
theorem symbol_later {symbol : SymbolId} {old new : Knowledge}
    (hs : symbol.index < base.store.symbols.size) (hold : base.Later old)
    (hnew : old.Later new) : new.store.symbol symbol = old.store.symbol symbol :=
  hnew.workspace.store.symbol_eq symbol (hold.symbol_lt hs)

omit horacle in
/-- A look-up in a table of a symbol, and something else if that finds nothing. -/
theorem lookup_learns (table : Symbol → Table String SymbolId)
    (htable : ∀ (st : Store) (s : Symbol), s.Within st →
      ∀ e ∈ (table s).entries, e.2.index < st.symbols.size)
    {symbol : SymbolId} (hs : symbol.index < base.store.symbols.size) (name : String)
    {otherwise : Inquiry (Option SymbolId)}
    (h : ∀ now, base.Later now → Learns files again oracle now otherwise Found) :
    Learns files again oracle base (do
      match (table ((← store).symbol symbol)).find? name with
      | some member => return some member
      | none => otherwise) Found := by
  refine .store (fun _ old new hold _ hnew => by rw [symbol_later hs hold hnew])
    fun now hnow hsound => ?_
  -- What the table has is there for good, so only the rest can still change.
  split
  · rename_i member hmember
    exact .foundSome (htable _ _ (hsound.workspace.store.symbol symbol) _
      (Table.mem_entries_of_find? hmember))
  · exact h now hnow

/-- A member of instances lasts, if what is inherited does. -/
theorem instanceMember_learns {inherited : Ty → Inquiry (Option SymbolId)}
    {asNumber : Inquiry (Option SymbolId)} {symbol : SymbolId} (name : String)
    (hs : symbol.index < base.store.symbols.size)
    (hinherited : ∀ now (t : Ty), base.Later now → t.Within files now.store →
      Learns files again oracle now (inherited t) Found)
    (hnumber : ∀ now, base.Later now → Learns files again oracle now asNumber Found) :
    Learns files again oracle base (instanceMember inherited asNumber symbol name) Found := by
  -- Own members first, then those of the bases, then those of numbers for an enum.
  refine lookup_learns Symbol.members (fun _ _ h => h.members) hs name fun now hnow => ?_
  refine .bind (basesOf_learns horacle symbol) fun types next hnext htypes =>
    .bind (firstSymbol_learns fun last hlast t ht => hinherited last t
      ((hnow.trans hnext).trans hlast) ((htypes t ht).mono hlast.noSmaller))
    fun found last hlast hfound => ?_
  split
  · exact .found hfound
  · have hlater := (hnow.trans hnext).trans hlast
    refine .store (fun _ old new hold hsound hnew => ?_) fun final hfinal _ => ?_
    · rw [hnew.workspace.store.hasKind_eq hsound.workspace.store ((hlater.trans hold).symbol_lt hs)]
    · split
      · exact hnumber final (hlater.trans hfinal)
      · exact .found (found_none _)

/-- A member of the static side lasts, however far it is looked for. -/
theorem staticMember_learns (steps : Nat) {symbol : SymbolId} (name : String)
    (hs : symbol.index < base.store.symbols.size) :
    Learns files again oracle base (staticMember steps symbol name) Found := by
  -- A class inherits the statics of the classes that it extends.
  induction steps generalizing base symbol with
  | zero =>
    unfold staticMember
    exact lookup_learns Symbol.statics (fun _ _ h => h.statics) hs name
      fun _ _ => .found (found_none _)
  | succ steps ih =>
    unfold staticMember
    refine lookup_learns Symbol.statics (fun _ _ h => h.statics) hs name fun now _ =>
      .bind (basesOf_learns horacle symbol) fun types next _ htypes =>
        firstSymbol_learns fun last hlast t ht => ?_
    have ht := (htypes t ht).mono hlast.noSmaller
    cases ht with
    | object he =>
      refine .bind (isClass_learns he) fun isClass final hfinal _ => ?_
      split
      · exact ih (hfinal.symbol_lt he)
      · exact .found (found_none _)
    | _ => exact .found (found_none _)

/-- A member that is looked for within some steps lasts, for any type and for an ambient one. -/
theorem memberFrom_learns (steps : Nat) (name : String) :
    (∀ (base : Knowledge) (t : Ty), t.Within files base.store →
      Learns files again oracle base (memberFrom steps t name) Found) ∧
    (∀ (base : Knowledge) (interface : String),
      Learns files again oracle base (globalMemberFrom steps interface name) Found) := by
  -- Every step away from the first type takes one of the steps.
  induction steps with
  | zero =>
    refine ⟨fun base t _ => .found (found_none _), fun base interface =>
      .bind (globalType?_learns interface) fun found now _ hfound => ?_⟩
    split
    · exact .found (found_none _)
    · exact instanceMember_learns horacle name (hfound _ rfl)
        (fun _ _ _ _ => .found (found_none _)) fun _ _ => .found (found_none _)
  | succ steps ih =>
    obtain ⟨hmember, hglobal⟩ := ih
    refine ⟨fun base t ht => ?_, fun base interface =>
      .bind (globalType?_learns interface) fun found now _ hfound => ?_⟩
    -- One case for each form of type. Most of them look among the members of an ambient interface.
    · cases ht with
      | union hmembers =>
        exact firstSymbol_learns fun now hnow t ht =>
          hmember now t ((hmembers t ht).mono hnow.noSmaller)
      | object he =>
        exact instanceMember_learns horacle name he (fun now t _ ht => hmember now t ht)
          fun now _ => hglobal now _
      | static he =>
        refine .bind (staticMember_learns horacle _ name he) fun found now _ hfound => ?_
        split
        · exact .found hfound
        · exact hglobal now _
      | array => exact hglobal base _
      | tuple => exact hglobal base _
      | @function _ entity _ hentity =>
        -- A function has statics if a declaration stands behind it.
        cases entity with
        | none => exact hglobal base _
        | some e =>
          exact lookup_learns Symbol.statics (fun _ _ h => h.statics) (hentity e rfl) name
            fun now _ => hglobal now _
      | @literal members _ hmembers =>
        rw [memberFrom]
        split
        · rename_i member hfound
          exact .foundSome (hmembers _ (List.mem_of_find?_eq_some hfound))
        · exact hglobal base _
      | @intrinsic i => cases i <;> first | exact hglobal base _ | exact .found (found_none _)
      | _ => exact .found (found_none _)
    · split
      · exact .found (found_none _)
      · exact instanceMember_learns horacle name (hfound _ rfl) (fun now t _ ht => hmember now t ht)
          fun now _ => hglobal now _

/-- A member of a type lasts. -/
theorem memberOf_learns {t : Ty} (ht : t.Within files base.store) (name : String) :
    Learns files again oracle base (memberOf t name) Found :=
  (memberFrom_learns horacle memberSteps name).1 base t ht

/-- What a member expression names lasts. -/
theorem memberSymbol_learns {expression : Node} (hn : expression.From files) :
    Learns files again oracle base (memberSymbol expression) Found := by
  unfold memberSymbol
  split
  · rename_i object _ hobject _
    exact .bind (typeOf_learns horacle (hn.child? hobject))
      fun _ _ _ ht => memberOf_learns horacle ht _
  · exact .found (found_none _)

omit horacle in
/-- The symbol that is declared at a node is there. -/
theorem declaredSymbol_learns (n : Node) :
    Learns files False oracle base (declaredSymbol n) Found := by
  refine .bind (bindingOf_learns n) fun b now _ hb => ?_
  split
  · rename_i hfound
    have hd := hb.names _ (Table.mem_entries_of_find? hfound)
    exact .map (.weaken (declarationOf_learns hd) fun _ _ _ hd => hd.1)
  · exact .found (found_none _)

/-- The symbol at a name. It lasts if the symbol of what the name declares does. -/
theorem symbolAt_learns {n : Node} (hn : n.From files)
    (hdeclared : n.isOneOf nameKinds = true →
      Learns files again oracle base (declaredSymbol n) Found) :
    Learns files again oracle base (symbolAt n) Found := by
  -- A member expression, no name at all, the property of one, or any other name.
  unfold symbolAt
  split
  · exact memberSymbol_learns horacle hn
  split
  · exact .found (found_none _)
  rename_i hname
  split
  · rename_i hparent
    exact memberSymbol_learns horacle (hn.parent (Option.filter_eq_some_iff.mp hparent).1)
  · refine .bind (hdeclared (by simpa using hname)) fun found now _ hfound => ?_
    split
    · exact .found hfound
    · exact resolveName_learns _ n

omit horacle in
/-- What an ambient type is applied to is within the files. -/
theorem elementMapping_learns {element : Inquiry Ty}
    (h : ∀ now, base.Later now → Learns files False oracle now element fun t st =>
      t.Within files st) :
    Learns files False oracle base (ownerMapping.elementMapping element)
      fun mapping st => ∀ e ∈ mapping, e.2.Within files st := by
  refine .bind (globalType?_learns "Array") fun found now hnow hfound =>
    .bind (entityOf?_learns hfound) fun entity next hnext _ => ?_
  split
  · refine .bind (h next (hnow.trans hnext)) fun t last _ ht => .pure fun final hfinal e he => ?_
    rw [List.mem_singleton.mp he]
    exact ht.mono hfinal.noSmaller
  · exact .pure fun _ _ => nofun

/-- What the type parameters of an owner stand for is within the files. -/
theorem ownerMapping_learns {owner : Ty} (h : owner.Within files base.store) :
    Learns files False oracle base (ownerMapping owner)
      fun mapping st => ∀ e ∈ mapping, e.2.Within files st := by
  -- Only types with arguments or elements put something for the parameters of their owner.
  cases h with
  | @object e arguments _ harguments =>
    exact .pure fun _ hnow => Ty.mappingOf_within
      (fun t ht => (harguments t ht).mono (Knowledge.Later.noSmaller hnow)) e
  | array helement =>
    exact elementMapping_learns fun _ hnow => .type (helement.mono (Knowledge.Later.noSmaller hnow))
  | tuple helements =>
    refine elementMapping_learns fun now hnow => unionOf_learns horacle ?_
    split
    · exact fun t ht => List.mem_singleton.mp ht ▸ Ty.any_within
    · exact fun t ht => (helements t ht).mono hnow.noSmaller
  | _ => exact .pure fun _ _ => nofun

/-- The type of a member as seen from an owner is within the files. -/
theorem memberType_learns {owner : Ty} (h : owner.Within files base.store) {member : SymbolId}
    (hm : member.index < base.store.symbols.size) :
    Learns files False oracle base (memberType owner member) fun t st => t.Within files st :=
  .bind (typeOfSymbol_learns horacle hm) fun _ _ hnow ht =>
    .bind (ownerMapping_learns horacle (h.mono hnow.noSmaller)) fun _ _ hnext hmapping =>
      instantiate_learns horacle hmapping (ht.mono hnext.noSmaller)

/-! ## Bases -/

omit horacle in
/-- Types that are found one after the other. -/
theorem Learns.allTypes {τ : Type} {f : τ → Inquiry Ty} {l : List τ}
    (h : ∀ now, base.Later now → ∀ a ∈ l, Learns files again oracle now (f a) fun t st =>
      t.Within files st) :
    Learns files again oracle base (l.mapM f) fun ts st => ∀ t ∈ ts, t.Within files st :=
  .mapM (fun _ _ _ hle ht => ht.mono hle) h

omit horacle in
/-- Lists of types that are found one after the other, taken together. -/
theorem Learns.flatTypes {τ : Type} {f : τ → Inquiry (List Ty)} {l : List τ}
    (h : ∀ now, base.Later now → ∀ a ∈ l,
      Learns files again oracle now (f a) fun ts st => ∀ t ∈ ts, t.Within files st) :
    Learns files again oracle base (do return (← l.mapM f).flatten) fun ts st =>
      ∀ t ∈ ts, t.Within files st :=
  .flatten (fun (t : Ty) st => t.Within files st) (fun _ _ _ hle ht => ht.mono hle) h

/-- Type arguments last. -/
theorem typeArguments_learns {n : Option Node} (hn : ∀ m, n = some m → m.From files) :
    Learns files again oracle base (typeArguments n) fun ts st => ∀ t ∈ ts, t.Within files st := by
  cases n with
  | none => exact .types nofun
  | some n =>
    exact .allTypes fun _ _ _ hm => typeOfSyntax_learns horacle ((hn n rfl).constructs hm)

/-- What one part of a heritage clause extends lasts. -/
theorem heritageBase_learns {part : Node} (hpart : part.From files) :
    Learns files again oracle base (heritageBase part)
      fun ts st => ∀ t ∈ ts, t.Within files st := by
  have hchild : ∀ (f : Field) m, part.child? f = some m → m.From files := fun _ _ => hpart.child?
  -- What is extended and its type arguments are parts of the clause, or there is no clause.
  have hparts : ∀ m, (if part.is .extendsClause then
    (part.child? .value, part.child? .typeArguments)
      else (some part, none)).1 = some m → m.From files := fun m hm => by
    split at hm
    · exact hchild _ m hm
    · exact Option.some.inj hm ▸ hpart
  have harguments : ∀ m, (if part.is .extendsClause then
      (part.child? .value, part.child? .typeArguments) else (some part, none)).2 = some m →
      m.From files := fun m hm => by
    split at hm
    · exact hchild _ m hm
    · exact nomatch hm
  unfold heritageBase
  split
  · exact .types nofun
  dsimp only
  split
  · exact .types nofun
  · rename_i hvalue
    refine .bind (typeOf_learns horacle (hparts _ hvalue)) fun t now _ ht => ?_
    -- Only what constructs a class can be extended.
    cases ht with
    | static he =>
      refine .bind (typeArguments_learns horacle harguments) fun arguments next hnext harguments =>
        .types fun t ht => ?_
      rw [List.mem_singleton.mp ht]
      exact .object (hnext.symbol_lt he) harguments
    | _ => exact .types nofun

/-- What a declaration extends is within the files. -/
theorem declaredBases_learns {d : DeclarationId} (hd : d.index < base.store.declarations.size) :
    Learns files False oracle base (declaredBases d)
      fun ts st => ∀ t ∈ ts, t.Within files st := by
  refine .bind (declarationOf_learns hd) fun d now _ ⟨_, hn⟩ => ?_
  -- A class has its heritage clause, an interface its clauses; nothing else extends.
  split
  · unfold classBases
    split
    · exact .types nofun
    · rename_i hheritage
      have hheritage := hn.constructs (List.mem_of_find?_eq_some hheritage)
      exact .flatTypes fun _ _ _ hpart => heritageBase_learns horacle (hheritage.constructs hpart)
  · exact .flatTypes fun _ _ _ hclause => .allTypes fun _ _ _ hpart => typeOfSyntax_learns horacle
      ((hn.constructs (List.mem_filter.mp hclause).1).constructs hpart)
  · exact .types nofun

omit horacle in
/-- What has been worked out is found again without any change. -/
theorem run_symbolBases {symbol : SymbolId} {types : List Ty} {k : Knowledge}
    (h : k.bases.find? symbol = some types) :
    ((symbolBases symbol).perform oracle).run k = (types, k) := by
  have hknown : ((Inquiry.ofStep (.knownBases symbol)).perform oracle).run k = (some types, k) :=
    congrArg (·, k) h
  rw [symbolBases, Inquiry.run_bind, hknown]
  rfl

omit horacle in
/-- Bases of a symbol that had none are remembered without harm to the others. -/
theorem record_bases {start k : Knowledge} (hk : start.Later k ∧ k.Sound files) {symbol : SymbolId}
    (hnone : start.bases.find? symbol = none) {types : List Ty}
    (htypes : ∀ t ∈ types, t.Within files k.store) :
    start.Later { k with bases := k.bases.record symbol types } ∧
      Knowledge.Sound files { k with bases := k.bases.record symbol types } := by
  refine ⟨{ hk.1 with bases := fun other known h => ?_ }, { hk.2 with bases := fun e he => ?_ }⟩
  · rw [Memo.find?_record, if_neg fun he => ?_, hk.1.bases other known h]
    rw [← he, hnone] at h
    exact nomatch h
  · rcases List.mem_cons.mp he with rfl | he
    · exact htypes
    · exact hk.2.bases e he

/-- What a symbol extends is found once, and lasts. -/
theorem symbolBases_learns (symbol : SymbolId) :
    Learns files again oracle base (symbolBases symbol) fun ts st =>
      ∀ t ∈ ts, t.Within files st := by
  intro start _ hsound
  have hstart : start.Later start ∧ start.Sound files := ⟨.refl start, hsound⟩
  -- Asked before, and the answer is remembered.
  cases hknown : start.bases.find? symbol with
  | some types =>
    rw [run_symbolBases hknown]
    exact ⟨hstart.1, hstart.2, hsound.bases _ (Memo.mem_entries_of_find? hknown),
      fun _ next hnext =>
      run_symbolBases (hnext.bases symbol types hknown)⟩
  | none =>
    have hworked : Ensures (· = start) ((symbolBases symbol).perform oracle)
        fun types k => (start.Later k ∧ k.Sound files) ∧ (∀ t ∈ types, t.Within files k.store) ∧
          k.bases.find? symbol = some types := by
      -- That nothing is known yet decides which branch is taken.
      unfold symbolBases
      refine ensures_bind (R := fun found k => (start.Later k ∧ k.Sound files) ∧ found = none)
        (by rintro k rfl; exact ⟨hstart, hknown⟩) fun found => .of_fact ?_
      rintro rfl
      refine ensures_bind (R := fun _ k => start.Later k ∧ k.Sound files)
        (fun k hk => record_bases hk hknown nofun) fun _ => ensures_bind
        (R := fun st k => (start.Later k ∧ k.Sound files) ∧ st = k.store) (fun k hk => ⟨hk, rfl⟩)
        fun st => ensures_bind (R := fun parts k => (start.Later k ∧ k.Sound files) ∧
          ∀ ts ∈ parts, ∀ t ∈ ts, t.Within files k.store) ?_ fun parts k hk => ?_
      · rintro k ⟨hk, rfl⟩
        have hdeclarations := (hk.2.workspace.store.symbol symbol).declarations
        have hparts := Learns.ensures (fun now (hnow : k.Later now) =>
          .mapM (fun _ _ _ hle hts t ht => (hts t ht).mono hle) fun next hnext d hd =>
            declaredBases_learns horacle
              ((hnow.trans hnext).declaration_lt (hdeclarations d hd))) k ⟨.refl k, hk.2⟩
        exact ⟨⟨hk.1.trans hparts.1.1, hparts.1.2⟩, hparts.2⟩
      -- The parts are taken together, which is what is remembered.
      have hwithin : ∀ t ∈ parts.flatten, t.Within files k.store := fun t ht =>
        let ⟨ts, hts, ht⟩ := List.mem_flatten.mp ht
        hk.2 ts hts t ht
      exact ⟨record_bases hk.1 hknown hwithin, hwithin,
        (Memo.find?_record _ _ _ _).trans (if_pos rfl)⟩
    obtain ⟨hlater, hwithin, hfound⟩ := hworked start rfl
    exact ⟨hlater.1, hlater.2, hwithin, fun _ next hnext =>
      run_symbolBases (hnext.bases symbol _ hfound)⟩

end Oracles

end ScriptGraph.Inference
