import ScriptGraph.Proofs.Inference.Composition
import ScriptGraph.Proofs.Inference.Constructors
import ScriptGraph.Proofs.Sites.MemberCalls

/-!
# Members that are inherited

A member is looked up among those of the class or interface of its receiver, then among those of
what that one extends. Wherever it is found, its declared type is instantiated with the type
arguments of the receiver. Seen from the receiver, what is extended has type arguments of its own,
which are given in the extends clauses on the way. If they are put for the same type parameters as
those of the receiver, the member has the type that its owner gives it.

- `Ty.Ancestor`: what a type extends, with its type arguments
- `Ty.IsInstance`: what a declared type becomes, in so far as it speaks of certain type parameters
- `memberFrom_inherits`: a member of an instance is found on an ancestor
- `member_types_inherited`: the type of a member expression, seen from the owner of the member
- `exists_member_of_merged_union`: why unions are left out
-/

namespace ScriptGraph

open Binding Syntax Inference

/-! ## Ancestors -/

namespace Ty

variable {extended : SymbolId → List Ty} {e b c : Entity} {arguments : List Ty}

/-- What a type extends, directly or not, and the type itself. The type arguments of each one on the
way are put into the extends clauses. -/
inductive Ancestor (extended : SymbolId → List Ty) : Ty → Ty → Prop
  | self (t : Ty) : Ancestor extended t t
  | parent {e : Entity} {arguments : List Ty} {t ancestor : Ty} (member : t ∈ extended e.id)
      (earlier : Ancestor extended (t.replace (mappingOf e arguments)) ancestor) :
      Ancestor extended (.object e arguments) ancestor

/-- Every extends clause on the way hands type parameters on under the same names. -/
inductive HandsOn (extended : SymbolId → List Ty) : Entity → Entity → Prop
  | self (e : Entity) : HandsOn extended e e
  | parent {e b c : Entity} (member : .object b (b.parameters.map .parameter) ∈ extended e.id)
      (names : ∀ name ∈ b.parameters, name ∈ e.parameters) (earlier : HandsOn extended b c) :
      HandsOn extended e c

/-- The type parameters that are handed on from a type to one of its ancestors, and those of neither
of them. -/
def handedOn (e c : Entity) (name : String) : Bool :=
  c.parameters.contains name || !e.parameters.contains name

/-- Replacing a list of parameters looks each one up. -/
theorem replaceAll_parameters (mapping : List (String × Ty)) (names : List String) :
    replaceAll mapping (names.map .parameter) = names.map (lookup mapping) := by
  induction names with
  | nil => rfl
  | cons name rest ih => exact congrArg (lookup mapping name :: ·) ih

/-- Names that are paired with a function of them are looked up by the function. -/
theorem lookup_zip_map (f : String → Ty) {names : List String} {name : String} (h : name ∈ names) :
    lookup (names.zip (names.map f)) name = f name := by
  induction names with
  | nil => exact absurd h List.not_mem_nil
  | cons first rest ih =>
    rw [List.map_cons, List.zip_cons_cons, lookup, List.find?_cons]
    by_cases hname : first = name
    · rw [hname, beq_self_eq_true]
    · rw [beq_eq_false_iff_ne.mpr hname]
      exact ih ((List.mem_cons.mp h).resolve_left fun he => hname he.symm)

/-- The mapping of an instance has only names of type parameters. -/
theorem keys_mappingOf_sublist (e : Entity) (arguments : List Ty) :
    ((mappingOf e arguments).map (·.1)).Sublist e.parameters := by
  have hzip : ∀ names : List String, ((names.zip arguments).map (·.1)).Sublist names := by
    intro names
    induction names generalizing arguments with
    | nil => exact List.Sublist.refl _
    | cons name rest ih =>
      cases arguments with
      | nil => exact List.nil_sublist _
      | cons t ts => exact (ih ts).cons_cons name
  exact hzip e.parameters

/-- Nothing is put for the type parameters of others. -/
theorem lookup_mappingOf_of_notMem {name : String} (h : name ∉ e.parameters) (arguments : List Ty) :
    lookup (mappingOf e arguments) name = .parameter name :=
  lookup_of_notMem fun hmem => h ((keys_mappingOf_sublist e arguments).subset hmem)

/-- The mapping of an instance puts each name once. -/
theorem isDistinct_mappingOf (h : e.parameters.Nodup) (arguments : List Ty) :
    IsDistinct (mappingOf e arguments) :=
  (keys_mappingOf_sublist e arguments).nodup h

/-- The name of a type parameter. -/
def parameterName? : Ty → Option String
  | .parameter name => some name
  | _ => none

/-- The names of the type parameters that the parameters of a function are of. -/
def parameterNames : Ty → List (Option String)
  | .function signatures _ => signatures.flatMap fun s => s.parameters.map (·.type.parameterName?)
  | _ => []

/-- What a clause names that hands type parameters on under the same names. -/
def handedTo? : Ty → Option Entity
  | .object b given =>
    if given.map parameterName? = b.parameters.map some then some b else none
  | _ => none

/-- Types that are parameters of given names are these parameters. -/
theorem eq_map_parameter {given : List Ty} {names : List String}
    (h : given.map parameterName? = names.map some) : given = names.map .parameter := by
  -- By induction on the types, of which there are as many as names.
  induction given generalizing names with
  | nil =>
    rw [List.map_eq_nil_iff.mp h.symm]
    rfl
  | cons t ts ih =>
    cases names with
    | nil => exact nomatch h
    | cons name names =>
      obtain ⟨hfirst, hrest⟩ := List.cons.inj h
      cases t with
      | parameter own => rw [ih hrest, Option.some.inj hfirst, List.map_cons]
      | _ => exact nomatch hfirst

/-- What is handed on is an instance with its own parameters as arguments. -/
theorem eq_of_handedTo? {t : Ty} (h : t.handedTo? = some b) :
    t = .object b (b.parameters.map .parameter) := by
  cases t with
  | object c given =>
    rw [handedTo?] at h
    split at h
    · rename_i hgiven
      rw [eq_map_parameter hgiven, Option.some.inj h]
    · exact nomatch h
  | _ => exact nomatch h

/-- If type parameters are handed on under the same names, they stand for the same in an
ancestor. -/
theorem HandsOn.exists_ancestor (h : HandsOn extended e c) (arguments : List Ty) :
    (∀ name ∈ c.parameters, name ∈ e.parameters) ∧
      ∃ given, Ancestor extended (.object e arguments) (.object c given) ∧
        PutsAlike (handedOn e c) (mappingOf e arguments) (mappingOf c given) := by
  induction h generalizing arguments with
  | self e => exact ⟨fun _ h => h, arguments, .self _, fun _ _ => rfl⟩
  | @parent e b c hmember hnames _ ih =>
    obtain ⟨hsub, given, hancestor, halike⟩ :=
      ih (b.parameters.map (lookup (mappingOf e arguments)))
    refine ⟨fun name hname => hnames name (hsub name hname), given, .parent hmember ?_,
      -- Names that are handed on stand for what is given; the others stand for themselves in both.
      fun name hname => ?_⟩
    · rwa [replace, replaceAll_parameters]
    · by_cases hc : name ∈ c.parameters
      · rw [← halike name (by simp [handedOn, hc]), mappingOf, mappingOf,
          lookup_zip_map _ (hsub name hc)]
      · have he : name ∉ e.parameters := by simpa [handedOn, hc] using hname
        rw [lookup_mappingOf_of_notMem he, lookup_mappingOf_of_notMem hc]

end Ty

/-! ## Instances of declared types -/

variable {allowed : String → Bool} {mapping own : List (String × Ty)}

/-- A signature is another one with types put for type parameters, in so far as it speaks of those
that are allowed. -/
structure Signature.IsInstance (allowed : String → Bool) (mapping : List (String × Ty))
    (s u : Signature) : Prop where
  declaration_eq : u.declaration = s.declaration
  parameters_eq : Ty.areUnionFreeParameters s.parameters = true →
    Ty.areOverParameters allowed s.parameters = true →
      Ty.replaceParameters [] u.parameters =
        Ty.replaceParameters [] (Ty.replaceParameters mapping s.parameters)
  result_eq : s.mapping = [] → ∀ oracle now,
    let result := (((ownResult s).perform oracle).run now).1
    result.isUnionFree = true → result.isOver allowed = true →
      (((fullResult u).perform oracle).run now).1.unnumbered = (result.replace mapping).unnumbered

/-- A type is another one with types put for type parameters, in so far as it speaks of those that
are allowed. -/
structure Ty.IsInstance (allowed : String → Bool) (mapping : List (String × Ty))
    (declared found : Ty) : Prop where
  type_eq : declared.isUnionFree = true → declared.isOver allowed = true →
    found.unnumbered = (declared.replace mapping).unnumbered
  signatures : ∀ ss entity, declared = .function ss entity →
    ∃ us, found = .function us entity ∧ List.Forall₂ (Signature.IsInstance allowed mapping) ss us

namespace Signature

/-- Mappings that put the same for the type parameters that are allowed make the same instances. -/
theorem isInstance_of_alike (halike : Ty.PutsAlike allowed own mapping)
    (hdistinct : Ty.IsDistinct own) {s u : Signature}
    (hdeclaration : u.declaration = s.declaration) (hresult : u.result = s.result)
    (hmapping : u.mapping = Ty.mergeMappings s.mapping own)
    (hparameters : Ty.areUnionFreeParameters s.parameters = true →
      Ty.replaceParameters [] u.parameters =
        Ty.replaceParameters [] (Ty.replaceParameters own s.parameters)) :
    IsInstance allowed mapping s u where
  declaration_eq := hdeclaration
  parameters_eq hfree hover := by rw [hparameters hfree, Ty.replaceParameters_congr halike hover]
  result_eq hempty oracle now := by
    intro result hfree hover
    -- The mapping of the new signature is the one that is put, as there was none before.
    have hsame : ownResult u = ownResult s := ownResult_eq hresult
    have halike' : Ty.PutsAlike allowed u.mapping mapping := fun name hname => by
      rw [hmapping, hempty, Ty.lookup_mergeMappings [] hdistinct, ← halike name hname]
      split
      · rfl
      · rename_i hnotin
        rw [Ty.lookup_of_notMem hnotin]
        rfl
    have hown : (((ownResult u).perform oracle).run now).1 = result := by rw [hsame]
    rw [(fullResult_eq u (hown ▸ hfree)).1, hown, Ty.replace_congr halike' result hover]

/-- Substitution makes instances of signatures. -/
theorem substituteSignatures_instances (hm : own ≠ []) (halike : Ty.PutsAlike allowed own mapping)
    (hdistinct : Ty.IsDistinct own) (ss : List Signature) :
    Inquiry.Yields (Ty.substituteSignatures demand own ss)
      (List.Forall₂ (IsInstance allowed mapping) ss) := by
  induction ss with
  | nil => exact .pure .nil
  | cons s ss ih =>
    obtain ⟨declaration, parameters, result, old, cell⟩ := s
    -- What the parameters become is told only if there is no union among them.
    have hparameters : Inquiry.Yields (Ty.substituteParameters demand own parameters) fun qs =>
        Ty.areUnionFreeParameters parameters = true →
          Ty.replaceParameters [] qs =
            Ty.replaceParameters [] (Ty.replaceParameters own parameters) :=
      fun oracle k hfree => (Ty.substituteParameters_yields hm parameters hfree oracle k).1
    exact .bind hparameters fun qs hqs => .bind (.something _) fun _ _ => .bind ih fun us hus =>
      .pure (.cons (isInstance_of_alike halike hdistinct rfl rfl rfl hqs) hus)

end Signature

/-- A type that is instantiated is what its declaration makes of it. -/
theorem Ty.instantiate_isInstance (halike : PutsAlike allowed own mapping)
    (hdistinct : IsDistinct own) (t : Ty) :
    Inquiry.Yields (t.instantiate demand own) (t.IsInstance allowed mapping) := by
  -- A type without unions is replaced; a function type is replaced signature by signature.
  have htype : Inquiry.Yields (t.instantiate demand own) fun u => t.isUnionFree = true →
      t.isOver allowed = true → u.unnumbered = (t.replace mapping).unnumbered :=
    fun oracle k hfree hover => by
      rw [(instantiate_yields own hfree oracle k).1, replace_congr halike t hover]
  have hsignatures : Inquiry.Yields (t.instantiate demand own) fun u => ∀ ss entity,
      t = .function ss entity → ∃ us, u = .function us entity ∧
        List.Forall₂ (Signature.IsInstance allowed mapping) ss us := by
    intro oracle k ss entity ht
    subst ht
    unfold instantiate
    by_cases hempty : own = []
    · -- Nothing is put, so the signatures stay as they are.
      subst hempty
      refine ⟨ss, rfl, List.forall₂_same.mpr fun s _ => ?_⟩
      exact Signature.isInstance_of_alike halike hdistinct rfl rfl rfl fun _ =>
        (replaceParameters_unnumbered [] s.parameters).symm
    · have hnonempty : own.isEmpty = false := by rwa [List.isEmpty_eq_false_iff]
      rw [hnonempty, if_neg Bool.false_ne_true, substitute, hnonempty, if_neg Bool.false_ne_true,
        Inquiry.run_bind]
      exact ⟨_, rfl, Signature.substituteSignatures_instances hempty halike hdistinct ss oracle k⟩
  exact fun oracle k => ⟨htype oracle k, hsignatures oracle k⟩

/-! ## Where members are found -/

namespace Inference

variable {files : Source → Prop} {oracle : Oracle} {base last : Knowledge}

namespace Knowledge

/-- What a class or interface extends, as far as is known. -/
def extended (oracle : Oracle) (k : Knowledge) (symbol : SymbolId) : List Ty :=
  (((basesOf symbol).perform oracle).run k).1

/-- A member belongs to an ancestor of a type. -/
def Inherits (oracle : Oracle) (k : Knowledge) (t : Ty) (name : String)
    (member : SymbolId) : Prop :=
  ∃ b given, t.Ancestor (k.extended oracle) (.object b given) ∧
    (k.store.symbol b.id).members.find? name = some member

/-- An ancestor of a type is an enumeration, whose values are numbers, or extends what is no
instance. -/
def Strays (oracle : Oracle) (k : Knowledge) (t : Ty) : Prop :=
  ∃ b given, t.Ancestor (k.extended oracle) (.object b given) ∧
    (k.store.hasKind (· == .enum) b.id = true ∨
      ∃ u ∈ k.extended oracle b.id, u.instance? = none)

/-- Whatever symbol is found under a name belongs to an ancestor of an instance, unless the
ancestors of the instance lead elsewhere. -/
def Accounts (oracle : Oracle) (k : Knowledge) (e : Entity) (name : String)
    (found : Option SymbolId) : Prop :=
  ∀ member, found = some member → ∀ arguments, k.Strays oracle (.object e arguments) ∨
    k.Inherits oracle (.object e arguments) name member

variable {k : Knowledge} {e : Entity} {arguments : List Ty} {t : Ty} {name : String}
  {member : SymbolId}

/-- A member of what is extended is inherited. -/
theorem Inherits.parent (ht : t ∈ k.extended oracle e.id)
    (h : k.Inherits oracle (t.replace (Ty.mappingOf e arguments)) name member) :
    k.Inherits oracle (.object e arguments) name member := by
  obtain ⟨b, given, hancestor, hmember⟩ := h
  exact ⟨b, given, .parent ht hancestor, hmember⟩

/-- A type strays if what it extends does. -/
theorem Strays.parent (ht : t ∈ k.extended oracle e.id)
    (h : k.Strays oracle (t.replace (Ty.mappingOf e arguments))) :
    k.Strays oracle (.object e arguments) := by
  obtain ⟨b, given, hancestor, hstrays⟩ := h
  exact ⟨b, given, .parent ht hancestor, hstrays⟩

end Knowledge

namespace FindsBefore

/-- The first symbol that is found is found by one of the look-ups. -/
theorem firstSymbol {τ : Type} {find : τ → Inquiry (Option SymbolId)} {l : List τ}
    {P : Option SymbolId → Prop} (hnone : P none)
    (hlearns : ∀ now, base.Later now → ∀ a ∈ l, Learns files False oracle now (find a) Found)
    (h : ∀ now, base.Later now → ∀ a ∈ l, FindsBefore files oracle now last (find a) P) :
    FindsBefore files oracle base last (Inference.firstSymbol find l) P := by
  -- By induction on the list: what one item does not find is left to the rest.
  induction l generalizing base with
  | nil => exact .pure hnone
  | cons a rest ih =>
    have hlearnsRest := fun now (hnow : base.Later now) b hb =>
      hlearns now hnow b (List.mem_cons_of_mem a hb)
    refine .bind (φ := Found) (hlearns base (.refl base) a List.mem_cons_self)
      (h base (.refl base) a List.mem_cons_self) (fun found now hnow hfound => ?_)
      fun found now hnow _ _ hfound => ?_
    · split
      · exact .found hfound
      · exact firstSymbol_learns fun next hnext => hlearnsRest next (hnow.trans hnext)
    · split
      · exact .pure hfound
      · exact ih (fun next hnext => hlearnsRest next (hnow.trans hnext))
          fun next hnext b hb => h next (hnow.trans hnext) b (List.mem_cons_of_mem a hb)

end FindsBefore

section Oracles

variable (horacle : oracle.Learns files)
include horacle

omit horacle in
/-- What is found by one of the types that are extended is accounted for. -/
theorem bases_account {e : Entity} {types : List Ty} {find : Ty → Inquiry (Option SymbolId)}
    {name : String} (hextended : last.extended oracle e.id = types)
    (htypes : ∀ t ∈ types, t.Within files base.store)
    (hlearns : ∀ now, base.Later now → ∀ t ∈ types, Learns files False oracle now (find t) Found)
    (h : ∀ now, base.Later now → ∀ b : Entity, b.id.index < now.store.symbols.size → ∀ given,
      FindsBefore files oracle now last (find (.object b given)) (last.Accounts oracle b name)) :
    FindsBefore files oracle base last (firstSymbol find types) (last.Accounts oracle e name) := by
  -- The base is an instance, or the look-up strays to a type that is none.
  refine .firstSymbol nofun hlearns fun now hnow t ht => ?_
  have htwithin := (htypes t ht).mono hnow.noSmaller
  rw [← hextended] at ht
  cases hinstance : t.instance? with
  | none =>
    exact fun _ _ _ _ _ _ arguments => .inl ⟨e, arguments, .self _, .inr ⟨t, ht, hinstance⟩⟩
  | some x =>
    obtain rfl := Ty.eq_of_instance? hinstance
    cases htwithin with
    | object hb =>
      intro k hk hsound hlast member hmember arguments
      have haccounts := h now hnow x.1 hb x.2 k hk hsound hlast member hmember
        (Ty.replaceAll (Ty.mappingOf e arguments) x.2)
      exact haccounts.imp (Knowledge.Strays.parent ht) (Knowledge.Inherits.parent ht)

/-- The values of an enumeration have the members of numbers. -/
theorem numberMember_learns (name : String) (steps : Nat) (symbol : SymbolId) :
    Learns files False oracle base (do
      if (← Inference.store).hasKind (· == .enum) symbol then globalMemberFrom steps "Number" name
      else return none) Found := by
  refine .store nofun fun now _ _ => ?_
  split
  · exact (memberFrom_learns horacle steps name).2 now "Number"
  · exact .found (found_none _)

/-- They are looked at if nothing has been found before. -/
theorem orNumberMember_learns {found : Option SymbolId} (hfound : Found found base.store)
    (name : String) (steps : Nat) (symbol : SymbolId) :
    Learns files False oracle base (match found with
      | some member => return some member
      | none => do
        if (← Inference.store).hasKind (· == .enum) symbol then globalMemberFrom steps "Number" name
        else return none) Found := by
  cases found with
  | some member => exact .found hfound
  | none => exact numberMember_learns horacle name steps symbol

/-- A member of an enumeration is looked for among those of numbers. -/
theorem numberMember_accounts {e : Entity} (name : String) (steps : Nat)
    (he : e.id.index < base.store.symbols.size) :
    FindsBefore files oracle base last (do
      if (← Inference.store).hasKind (· == .enum) e.id then globalMemberFrom steps "Number" name
      else return none) (last.Accounts oracle e name) := by
  refine .store (numberMember_learns horacle name steps e.id) fun now hnow hsound hlast => ?_
  split
  · rename_i henum
    refine fun _ _ _ _ _ _ arguments => .inl ⟨e, arguments, .self _, .inl ?_⟩
    rw [hlast.workspace.store.hasKind_eq hsound.workspace.store (hnow.symbol_lt he), henum]
  · exact .pure nofun

/-- What is found by name among the members of an instance belongs to an ancestor, unless the
look-up leaves the classes and interfaces. -/
theorem memberFrom_inherits (name : String) (steps : Nat) {e : Entity}
    (he : e.id.index < base.store.symbols.size) (hempty : base.inProgress = []) (given : List Ty) :
    FindsBefore files oracle base last (memberFrom steps (.object e given) name)
      (last.Accounts oracle e name) := by
  -- What is extended is searched with one step less.
  induction steps generalizing base e given with
  | zero => exact .pure nofun
  | succ steps ih =>
    have hlearns : ∀ (now : Knowledge) (t : Ty), t.Within files now.store →
        Learns files False oracle now (memberFrom steps t name) Found :=
      (memberFrom_learns horacle steps name).1
    refine .store (instanceMember_learns horacle name he (fun now t _ ht => hlearns now t ht)
      fun now _ => (memberFrom_learns horacle steps name).2 now "Number")
      fun now hnow hsound hlast => ?_
    have he := hnow.symbol_lt he
    have hempty := hnow.inProgress_eq.trans hempty
    split
    · -- The member is one of its own.
      rename_i member hmember
      refine .pure fun found hfound arguments => .inr ⟨e, arguments, .self _, ?_⟩
      rw [hlast.workspace.store.symbol_eq e.id he, hmember, hfound]
    · have hsearch : ∀ (next : Knowledge) (types : List Ty),
          (∀ t ∈ types, t.Within files next.store) → ∀ final, next.Later final → ∀ t ∈ types,
            Learns files False oracle final (memberFrom steps t name) Found :=
        fun next types htypes final hfinal t ht =>
          hlearns final t ((htypes t ht).mono hfinal.noSmaller)
      refine .bind (φ := Found) (basesOf_learns horacle e.id)
        (.of_lasts (basesOf_learns horacle e.id) hempty)
        (fun types next hnext htypes => .bind (firstSymbol_learns (hsearch next types htypes))
          fun found final _ hfound => orNumberMember_learns horacle hfound name steps e.id)
        fun types next hnext hnlast htypes hknown => ?_
      have haccounts : FindsBefore files oracle next last
          (firstSymbol (memberFrom steps · name) types) (last.Accounts oracle e name) :=
        bases_account hknown.eq htypes (hsearch next types htypes) fun final hfinal b hb given =>
          ih hb ((hnext.trans hfinal).inProgress_eq.trans hempty) given
      refine .bind (φ := Found) (firstSymbol_learns (hsearch next types htypes)) haccounts
        (fun found final _ hfound => orNumberMember_learns horacle hfound name steps e.id)
        fun found final hfinal _ _ hfound => ?_
      -- A member that is found above is accounted for there; else the look-up leaves for numbers.
      split
      · exact .pure hfound
      · exact numberMember_accounts horacle name steps ((hnext.trans hfinal).symbol_lt he)

/-- A member expression whose member is not found is of any type. -/
theorem memberTypeOrAny_learns {owner : Ty} {found : Option SymbolId}
    (howner : owner.Within files base.store) (hfound : Found found base.store) :
    Learns files False oracle base (match found with
      | some member => memberType owner member
      | none => return .any) fun t st => t.Within files st := by
  cases found with
  | some member => exact memberType_learns horacle howner (hfound member rfl)
  | none => exact .type Ty.any_within

/-- What is known after the type of a member expression has been found: the type of its receiver,
and the member, which belongs to an ancestor if the receiver is an instance. -/
theorem memberExpression_accounts {n o p : Node} (hn : n.From files)
    (ho : n.child? .object = some o) (hp : n.child? .property = some p)
    (hempty : base.inProgress = []) :
    FindsBefore files oracle base last (memberExpressionType n) fun _ => ∃ owner found,
      last.Knows oracle (typeOf o) owner ∧ last.Knows oracle (memberOf owner p.text) found ∧
        ∀ e arguments, owner = .object e arguments → last.Accounts oracle e p.text found := by
  have hreceiver : ∀ again : Prop, Learns files again oracle base (typeOf o) _ := fun _ =>
    typeOf_learns horacle (hn.child? ho)
  rw [memberExpressionType, ho, hp]
  -- The receiver first, then the member; what is known of both is still known in the end.
  refine .bind (hreceiver False) (.of_lasts (hreceiver True) hempty) (fun owner now _ howner =>
    .bind (memberOf_learns horacle howner p.text) fun found next hnext hfound =>
      memberTypeOrAny_learns horacle (howner.mono hnext.noSmaller) hfound)
    fun owner now hnow _ howner hknows => ?_
  have hempty := hnow.inProgress_eq.trans hempty
  have hmember : FindsBefore files oracle now last (memberOf owner p.text) fun found =>
      last.Knows oracle (memberOf owner p.text) found ∧
        ∀ e arguments, owner = .object e arguments → last.Accounts oracle e p.text found := by
    refine fun k hk hsound hlast =>
      ⟨FindsBefore.of_lasts (memberOf_learns horacle howner p.text) hempty k hk hsound hlast,
        fun e arguments he => ?_⟩
    subst he
    -- The receiver is an instance, so its members are looked up along what it extends.
    cases howner with
    | object he =>
      exact memberFrom_inherits horacle p.text memberSteps he hempty arguments k hk hsound hlast
  exact .bind (memberOf_learns horacle howner p.text) hmember
    (fun found next hnext hfound =>
      memberTypeOrAny_learns horacle (howner.mono hnext.noSmaller) hfound)
    fun found _ _ _ _ hfound _ _ _ _ => ⟨owner, found, hknows, hfound.1, hfound.2⟩

end Oracles

/-- The type of a member is what its declared type becomes with the type arguments of the receiver,
whoever the member belongs to. -/
theorem memberType_isInstance {allowed : String → Bool} {mapping : List (String × Ty)} {e : Entity}
    {arguments : List Ty} (hdistinct : e.parameters.Nodup)
    (halike : Ty.PutsAlike allowed (Ty.mappingOf e arguments) mapping) (member : SymbolId) :
    Ty.IsInstance allowed mapping (((typeOfSymbol member).perform oracle).run last).1
      (((memberType (.object e arguments) member).perform oracle).run last).1 := by
  unfold memberType
  rw [Inquiry.run_bind]
  exact Ty.instantiate_isInstance halike (Ty.isDistinct_mappingOf hdistinct arguments) _ oracle _

/-- A member expression whose receiver is an instance of a class or interface names a member of an
ancestor of that instance, unless the ancestors lead elsewhere. Its type is what the declared type
of the member becomes with the type arguments of the receiver. If every extends clause up to a class
or interface hands type parameters on under the same names, this is what it becomes with the type
arguments that are given there, as far as it speaks of the type parameters that are handed on, or of
some that the receiver does not have. -/
theorem member_types_inherited (settings : Settings) (disk : Disk) (library root : Source)
    {k : Knowledge} (hk : (Knowledge.start settings disk library root).Reaches k) {n o p : Node}
    (ho : n.child? .object = some o) (hp : n.child? .property = some p) {e : Entity}
    {arguments : List Ty} {member : SymbolId} (hdistinct : e.parameters.Nodup) :
    let oracle := answer (depthBound k.workspace)
    let last := (((memberExpressionType n).perform oracle).run k).2
    (((typeOf o).perform oracle).run last).1 = .object e arguments →
    (((memberOf (.object e arguments) p.text).perform oracle).run last).1 = some member →
    let declared := (((typeOfSymbol member).perform oracle).run last).1
    let found := (((memberExpressionType n).perform oracle).run last).1
    (last.Strays oracle (.object e arguments) ∨
      last.Inherits oracle (.object e arguments) p.text member) ∧
    (∀ allowed mapping, Ty.PutsAlike allowed (Ty.mappingOf e arguments) mapping →
      declared.IsInstance allowed mapping found) ∧
    ∀ b, Ty.HandsOn (last.extended oracle) e b → ∃ given,
      Ty.Ancestor (last.extended oracle) (.object e arguments) (.object b given) ∧
        declared.IsInstance (Ty.handedOn e b) (Ty.mappingOf b given) found := by
  intro oracle last howner hmember declared found
  obtain ⟨hbegun, hsound⟩ := hk.keeps (Knowledge.start_sound settings disk library root)
  have hempty : k.inProgress = [] := hbegun.inProgress_eq
  have horacle : oracle.Learns anyFile := answer_learns _
  -- The receiver and the member that the expression was typed with are the given ones.
  obtain ⟨owner, looked, hknows, hlooked, haccounts⟩ :=
    memberExpression_accounts horacle (from_anyFile n) ho hp hempty k (.refl k) hsound (.refl last)
  obtain rfl : owner = .object e arguments := hknows.eq.symm.trans howner
  obtain rfl : looked = some member := hlooked.eq.symm.trans hmember
  -- Asked again, the receiver and the member are known, and only the type of the member is found.
  have hfound : found =
    (((memberType (.object e arguments) member).perform oracle).run last).1 := by
    show (((memberExpressionType n).perform oracle).run last).1 = _
    rw [memberExpressionType, ho, hp]
    dsimp only
    rw [hknows.run_bind (.refl last), hlooked.run_bind (.refl last)]
  have hinstance : ∀ allowed mapping, Ty.PutsAlike allowed (Ty.mappingOf e arguments) mapping →
      declared.IsInstance allowed mapping found := fun allowed mapping halike => by
    rw [hfound]
    exact memberType_isInstance hdistinct halike member
  -- Names that are handed on stand for the same, so the mappings put the same for them.
  refine ⟨haccounts e arguments rfl member rfl arguments, hinstance, fun b hb => ?_⟩
  obtain ⟨-, given, hancestor, halike⟩ := hb.exists_ancestor arguments
  exact ⟨given, hancestor, hinstance _ _ halike⟩

/-- An interface that hands its type parameter on under the same name. -/
def handedOnSource : Source :=
  .ofText "/a.ts" "interface B<T>{x:T}interface C<T>extends B<T>{}let c:C<0>;c.x" .ts

/-- The member that the interface inherits has the type that its owner gives it. -/
theorem member_types_inherited_handed_on :
    let start := Knowledge.start {} {} default handedOnSource
    let oracle := answer (depthBound start.workspace)
    ∃ n ∈ handedOnSource.root.preorder, ∃ e arguments b given member,
      let last := (((memberExpressionType n).perform oracle).run start).2
      e ≠ b ∧ Ty.Ancestor (last.extended oracle) (.object e arguments) (.object b given) ∧
        Ty.IsInstance (Ty.handedOn e b) (Ty.mappingOf b given)
          (((typeOfSymbol member).perform oracle).run last).1
          (((memberExpressionType n).perform oracle).run last).1 := by
  intro start oracle
  -- All that the theorem asks for is checked on the knowledge after the expression has been typed.
  have hexpression : ∃ n ∈ handedOnSource.root.preorder,
      ∃ o ∈ n.child? .object, ∃ p ∈ n.child? .property,
        let last := (((memberExpressionType n).perform oracle).run start).2
        ∃ x ∈ (((typeOf o).perform oracle).run last).1.instance?, x.1.parameters.Nodup ∧
          (((memberOf (.object x.1 x.2) p.text).perform oracle).run last).1.isSome ∧
            ∃ t ∈ last.extended oracle x.1.id, ∃ b ∈ t.handedTo?, x.1 ≠ b ∧
              b.parameters.all x.1.parameters.contains = true := by
    decide +kernel
  obtain ⟨n, hn, o, ho, p, hp, x, hx, hdistinct, hsome, t, ht, b, hb, hne, hnames⟩ := hexpression
  obtain ⟨member, hmember⟩ := Option.isSome_iff_exists.mp hsome
  rw [Ty.eq_of_handedTo? hb] at ht
  obtain ⟨-, -, hhanded⟩ :=
    member_types_inherited {} {} default handedOnSource .refl ho hp hdistinct
    (Ty.eq_of_instance? hx) hmember
  obtain ⟨given, hancestor, hinstance⟩ := hhanded b (.parent ht (fun name hname =>
    List.contains_iff_mem.mp (List.all_eq_true.mp hnames name hname)) (.self b))
  exact ⟨n, hn, x.1, x.2, b, given, member, hne, hancestor, hinstance⟩

/-- An interface that extends another one for arrays of its type parameter. -/
def arraysSource : Source :=
  .ofText "/a.ts" "interface B<T>{x:T}interface C<U>extends B<U[]>{}let c:C<0>;c.x" .ts

/-- Seen from there, the member is an array. Its type is the type parameter of its owner all the
same, for which the receiver has no type argument. -/
theorem exists_member_of_foreign_parameter :
    let start := Knowledge.start {} {} default arraysSource
    let oracle := answer (depthBound start.workspace)
    ∃ n ∈ arraysSource.root.preorder, ∃ o ∈ n.child? .object, ∃ p ∈ n.child? .property,
      let last := (((memberExpressionType n).perform oracle).run start).2
      ∃ x ∈ (((typeOf o).perform oracle).run last).1.instance?,
        ∃ t ∈ last.extended oracle x.1.id, ∃ y ∈ (t.replace (Ty.mappingOf x.1 x.2)).instance?,
          ∃ member ∈ (last.store.symbol y.1.id).members.find? p.text,
            (((memberOf (.object x.1 x.2) p.text).perform oracle).run last).1 = some member ∧
              ((((typeOfSymbol member).perform oracle).run last).1.replace
                (Ty.mappingOf y.1 y.2)).parameterName? = none ∧
              (((memberExpressionType n).perform oracle).run last).1.parameterName? = some "T" := by
  decide +kernel

/-- An interface with a method that declares a type parameter of the same name. -/
def shadowingSource : Source :=
  .ofText "/a.ts" "interface A<T>{m<T>(x:T):T}let a:A<0>;a.m" .ts

/-- The type argument of the receiver is put for the type parameter that the method declares. -/
theorem exists_parameter_captured :
    let start := Knowledge.start {} {} default shadowingSource
    let oracle := answer (depthBound start.workspace)
    ∃ n ∈ shadowingSource.root.preorder, ∃ o ∈ n.child? .object, ∃ p ∈ n.child? .property,
      let last := (((memberExpressionType n).perform oracle).run start).2
      ∃ x ∈ (((typeOf o).perform oracle).run last).1.instance?,
        ∃ member ∈ (((memberOf (.object x.1 x.2) p.text).perform oracle).run last).1,
          (((typeOfSymbol member).perform oracle).run last).1.parameterNames = [some "T"] ∧
            (((memberExpressionType n).perform oracle).run last).1.parameterNames = [none] := by
  decide +kernel

/-- An interface whose member is a union, and a receiver with another class of the same name for its
type argument. -/
def unionSource : Source :=
  .ofText "/a.ts"
    "class D\x7b\x7dinterface B<T>\x7bx:T|D\x7dfunction f()\x7bclass D\x7b\x7dlet b:B<D>;b.x\x7d"
      .ts

/-- A member whose declared type is a union need not become what the type arguments make of it:
unions keep one of the types that are shown alike, here of the two classes. -/
theorem exists_member_of_merged_union :
    let start := Knowledge.start {} {} default unionSource
    let oracle := answer (depthBound start.workspace)
    ∃ n ∈ unionSource.root.preorder, ∃ o ∈ n.child? .object, ∃ p ∈ n.child? .property,
      let last := (((memberExpressionType n).perform oracle).run start).2
      ∃ x ∈ (((typeOf o).perform oracle).run last).1.instance?,
        ∃ member ∈ (((memberOf (.object x.1 x.2) p.text).perform oracle).run last).1,
          ((((typeOfSymbol member).perform oracle).run last).1.replace
            (Ty.mappingOf x.1 x.2)).unionParts.length = 2 ∧
          (((memberExpressionType n).perform oracle).run last).1.unionParts.length = 1 := by
  decide +kernel

end Inference

end ScriptGraph
