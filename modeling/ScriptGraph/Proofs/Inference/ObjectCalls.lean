import ScriptGraph.Proofs.Inference.Inheritance
import ScriptGraph.Proofs.Inference.ObjectTypes
import ScriptGraph.Proofs.Workspace.Imports

/-!
# What values of object types answer

The values of an object type that is written inline have a member for each name that its parts have,
and so have the values of a symbol that declares such parts. A call of a member of the latter binds
to the first part of its name that takes the arguments; on an inline type it binds to the first part
whatever it takes. What an object type says of calls and constructions is left out of inline types,
and they have the members of all objects besides their own.

- `takenPart`: the part that a call is meant to bind to
- `AnswersInline`, `AnswersDeclared`: what the values of the two kinds of types answer
- `object_types_answer`: object types answer like this, whatever has been requested before
- `exists_call_past_inline_overload`: a call that binds to different parts
-/

namespace ScriptGraph.Inference

open Binding Syntax

variable {files : Source → Prop} {oracle : Oracle} {k last : Knowledge} {m : SymbolId}
  {d : Declaration} {declared parts : List Declaration} {members : List (String × SymbolId)}
  {name : String} {st : Store} {e : Entity} {id : DeclarationId}

/-! ## The part that a call binds to -/

/-- The part that a call takes: the first method that takes the number of its arguments, or else the
first method. -/
def takenPart (parts : List Declaration) (count : Nat) : Option Declaration :=
  let methods := parts.filter (·.kind.isCallable)
  (methods.find? fun d => decide (Takes d.node count)).or methods.head?

/-- What is found for a call belongs to the construct of a part. -/
def BindsToPart (st : Store) (part : Option Declaration) (found : Option Signature) : Prop :=
  found.map (declaredNode st) = part.map fun d => some d.node

/-- The signature that a call of a member of a value binds to. -/
def memberCall (t : Ty) (name : String) (count : Nat) : Inquiry (Option Signature) := do
  match ← memberOf t name with
  | none => return none
  | some m => return Signature.choose (← callSignatures (← memberType t m)) count

/-- A call of a member that is a function binds to one of its signatures. -/
theorem run_memberCall {t : Ty} {next : Knowledge} {signatures : List Signature}
    {entity : Option Entity} (hm : last.Knows oracle (memberOf t name) (some m))
    (hnext : last.Later next)
    (htype : (((memberType t m).perform oracle).run next).1 = .function signatures entity)
    (count : Nat) :
    ((memberCall t name count).perform oracle).run next =
      (Signature.choose signatures count, (((memberType t m).perform oracle).run next).2) := by
  unfold memberCall
  rw [hm.run_bind hnext]
  dsimp only
  rw [Inquiry.run_bind, htype]
  rfl

/-- Declarations without bodies are all overloads. -/
theorem overloads_of_bodiless {ids : List DeclarationId}
    (h : ∀ id ∈ ids, (st.declaration id).hasBody = false) : overloads st ids = ids := by
  have hbodied : ids.filter (fun id => (st.declaration id).hasBody) = [] :=
    List.filter_eq_nil_iff.mpr fun id hid => by simp [h id hid]
  unfold overloads
  rw [List.partition_eq_filter_filter, hbodied]
  rfl

/-- Signatures of the methods of a member are chosen like the methods. -/
theorem SignaturesFor.bindsToPart {signatures : List Signature}
    (h : SignaturesFor st (callables st m) signatures) (hm : MemberLists st m parts)
    (hbody : ∀ d ∈ parts, d.hasBody = false)
    (hplace : KnownByPlace st (callables st m)) (count : Nat) :
    BindsToPart st (takenPart parts count) (Signature.choose signatures count) := by
  -- Methods and their declarations correspond, so choosing among one is choosing among the other.
  have hmethods : List.Forall₂ (ListedAs st m) (parts.filter (·.kind.isCallable))
      (callables st m) := by
    refine List.rel_filter (fun d id hid => ?_) hm.declarations
    simp [hid.eq]
  have hbodiless : ∀ id ∈ callables st m, (st.declaration id).hasBody = false := by
    have hlisted := (List.forall₂_and_left _ _).mpr
      ⟨fun d hd => hbody d (List.mem_filter.mp hd).1, hmethods⟩
    refine forall_mem_right hlisted fun d id ⟨hd, hid⟩ => ?_
    rw [hid.eq]
    exact hd
  have hnode : List.Forall₂ (fun (d : Declaration) (id : DeclarationId) =>
      decide (Takes (st.declaration id).node count) = decide (Takes d.node count) ∧
        some (st.declaration id).node = some d.node) _ _ :=
    hmethods.imp fun d id hid => by simp [hid.eq]
  have hfound := (h.bindsToFirst hplace count).node_eq
  rw [overloads_of_bodiless hbodiless] at hfound
  rw [BindsToPart, hfound, firstTaking, takenPart, Option.map_or, Option.map_or, map_find?_eq hnode,
    map_head?_eq hnode fun _ _ h => h.2]

/-! ## Types of members -/

/-- The type of a member that has parts is that of its first part. -/
theorem run_typeOfSymbol (oracle : Oracle) (hm : MemberLists k.store m parts) (hd : IsPart d)
    (hfirst : parts.head? = some d) :
    ∃ id, ListedAs k.store m d id ∧ (k.store.symbol m).declarations.head? = some id ∧
      ((typeOfSymbol m).perform oracle).run k = ((typeOfDeclaration id).perform oracle).run k := by
  obtain ⟨rest, rfl⟩ := List.head?_eq_some_iff.mp hfirst
  -- The first declaration is that of the first part.
  obtain ⟨-, -, hdeclarations⟩ := hm
  cases hids : (k.store.symbol m).declarations with
  | nil =>
    rw [hids] at hdeclarations
    cases hdeclarations
  | cons id ids =>
    rw [hids] at hdeclarations
    cases hdeclarations with
    | cons hid _ =>
      have hkind : (k.store.declaration id).kind = d.kind := by rw [hid.eq]
      -- It is neither imported nor a type only, so its type is that of a value.
      have halias : k.store.isAlias m = false := by
        rw [Store.isAlias, hids]
        rcases hd.kind with h | h <;> simp [hkind, h]
      have hvalue : k.store.firstOf DeclarationKind.isValue m = some id := by
        rw [Store.firstOf, hids, List.find?_cons_of_pos]
        rcases hd.kind with h | h <;> simp [hkind, h, DeclarationKind.isValue]
      exact ⟨id, hid, rfl, run_typeOfSymbol_of_firstOf oracle halias hvalue⟩

/-- Of a value of an inline object type, a member has its declared type. -/
theorem memberType_literal (members : List (String × SymbolId)) (types : List (String × Ty))
    (m : SymbolId) : memberType (.literal members types) m = typeOfSymbol m := by
  show (typeOfSymbol m >>= fun t => Pure.pure t) = _
  exact bind_pure _

/-- Without arguments, the type of a member is that of its symbol. -/
theorem memberType_plain (e : Entity) (m : SymbolId) :
    memberType (.object e []) m = typeOfSymbol m := by
  have hnone : Ty.mappingOf e [] = [] := List.zip_nil_right
  show (typeOfSymbol m >>= fun t => t.instantiate demand (Ty.mappingOf e [])) = _
  rw [hnone]
  exact bind_pure _

/-- What is no member of its own, an inline object type has from all objects. -/
theorem memberOf_literal (members : List (String × SymbolId)) (types : List (String × Ty))
    (name : String) : memberOf (.literal members types) name =
      match memberNamed? members name with
      | some m => Pure.pure (some m)
      | none => globalMemberFrom (memberSteps - 1) "Object" name := by
  unfold memberOf memberSteps memberNamed?
  rw [memberFrom]
  cases members.find? (·.1 == name) <;> rfl

/-! ## Inline types -/

/-- What the values of an inline object type answer: they have a member for each name of its parts,
of which a call binds to the first part. All else is left to the values of all objects. -/
structure AnswersInline (oracle : Oracle) (last : Knowledge) (t : Ty)
    (declared : List Declaration) : Prop where
  member : ∀ name, namedParts declared name ≠ [] →
    ∃ m, last.Knows oracle (memberOf t name) (some m) ∧
      MemberLists last.store m (namedParts declared name)
  others : ∀ name, namedParts declared name = [] →
    memberOf t name = globalMemberFrom (memberSteps - 1) "Object" name
  calls : callSignatures t = Pure.pure []
  constructions : constructSignatures t = Pure.pure []
  memberCalls : ∀ name count, ∀ d ∈ (namedParts declared name).head?, d.kind = .methodSignature →
    StandsAlone last.store d.key → ∃ found, last.Knows oracle (memberCall t name count) found ∧
      BindsToPart last.store (namedParts declared name).head? found

/-- A signature that belongs to the place of a part is the part's, if the part stands alone. -/
theorem declaredNode_eq (hid : ListedAs st m d id) (halone : StandsAlone st d.key) {s : Signature}
    (hs : DeclaredAt st d.key s) : declaredNode st s = some d.node := by
  obtain ⟨found, hfound, -, hkey, -⟩ := hs
  have hplace : (st.declaration id).key = d.key := by rw [hid.eq]; rfl
  rw [declaredNode, hfound, Option.map_some, halone found id hkey hplace, hid.eq]

/-- A single signature is chosen, whatever it takes. -/
theorem choose_singleton (s : Signature) (count : Int) : Signature.choose [s] count = some s := by
  unfold Signature.choose
  rw [List.find?_singleton]
  split <;> rfl

/-- An inline object type answers like this from when it has been read. -/
theorem answersInline (hlists : Lists last.store members declared)
    (hnamed : OnlyNamed members declared) (htyped : FirstTyped last declared)
    (hparts : ∀ d ∈ declared, IsPart d) (types : List (String × Ty)) :
    AnswersInline (answerBy oracle) last (.literal members types) declared := by
  -- A name that parts have is that of a member.
  have hmember : ∀ name, namedParts declared name ≠ [] →
      ∃ m, memberNamed? members name = some m := fun name hname => by
    cases hm : memberNamed? members name with
    | none => exact absurd (hlists.unnamed name hm) hname
    | some m => exact ⟨m, rfl⟩
  -- Members of an inline object type are found at once, whatever is known.
  have hknown : ∀ name m, memberNamed? members name = some m →
      last.Knows (answerBy oracle) (memberOf (.literal members types) name) (some m) :=
    fun name m hm next _ => by rw [memberOf_literal, hm]; rfl
  refine ⟨fun name hname => ?_, fun name hname => ?_, rfl, rfl,
    fun name count d hd hkind halone => ?_⟩
  · obtain ⟨m, hm⟩ := hmember name hname
    exact ⟨m, hknown name m hm, hlists.lists name m hm⟩
  -- A name that no part has is that of no member either.
  · rw [memberOf_literal]
    cases hm : memberNamed? members name with
    | none => rfl
    | some m => exact absurd hname (hnamed name m hm)
  -- The first part is typed alone, so the call binds to its signature.
  · obtain ⟨m, hm⟩ := hmember name fun hnone => by rw [hnone] at hd; exact nomatch hd
    obtain ⟨s, e, hanswer, hs⟩ := htyped name d hd hkind halone
    have hmlists := hlists.lists name m hm
    have hpart := hparts d (List.mem_filter.mp (List.mem_of_mem_head? hd)).1
    obtain ⟨id, hid, -⟩ := run_typeOfSymbol oracle hmlists hpart hd
    refine ⟨some s, fun next hnext => ?_, ?_⟩
    · -- The type of the member has been remembered.
      have htype : ((memberType (.literal members types) m).perform (answerBy oracle)).run next =
          (.function [s] e, next) := by
        obtain ⟨id, hid, -, hrun⟩ := run_typeOfSymbol (answerBy oracle)
          (hmlists.later hnext) hpart hd
        rw [memberType_literal, hrun]
        show (guarded (.declaration (next.store.declaration id).key
          (next.store.declaration id).name) _).run next = _
        rw [hid.eq]
        exact run_guarded_of_known (hnext.find?_answers hanswer)
      rw [run_memberCall (hknown name m hm) hnext (congrArg Prod.fst htype), htype,
        choose_singleton]
    · rw [Option.mem_def.mp hd]
      exact congrArg some (declaredNode_eq hid halone hs)

/-! ## Declared types -/

/-- The members of a symbol are the parts of an object type, and it extends nothing. -/
structure DeclaresParts (oracle : Oracle) (last : Knowledge) (e : Entity)
    (declared : List Declaration) : Prop where
  index_lt : e.id.index < last.store.symbols.size
  lists : Lists last.store (last.store.symbol e.id).members.entries declared
  named : OnlyNamed (last.store.symbol e.id).members.entries declared
  parts : ∀ d ∈ declared, IsPart d
  bodiless : ∀ d ∈ declared, d.hasBody = false
  extends_nothing : last.extended oracle e.id = []
  not_enum : last.store.hasKind (· == .enum) e.id = false

/-- What the values of a symbol answer that declares the parts of an object type: they have a member
for each name of the parts and no other one, and a call of a member binds to the first part that
takes the arguments. Calls and constructions have the signatures that the symbol declares. -/
structure AnswersDeclared (oracle : Oracle) (last : Knowledge) (e : Entity)
    (declared : List Declaration) : Prop where
  member : ∀ name, namedParts declared name ≠ [] →
    ∃ m, last.Knows oracle (memberOf (.object e []) name) (some m) ∧
      MemberLists last.store m (namedParts declared name)
  others : ∀ name, namedParts declared name = [] →
    (((memberOf (.object e []) name).perform oracle).run last).1 = none
  calls : let found := ((callSignatures (.object e [])).perform oracle).run last
    SignaturesFor found.2.store (last.store.symbol e.id).callSignatures found.1
  constructions : let found := ((constructSignatures (.object e [])).perform oracle).run last
    SignaturesFor found.2.store (last.store.symbol e.id).constructSignatures found.1
  memberCalls : ∀ name count, ∀ d ∈ (namedParts declared name).head?, d.kind = .methodSignature →
    last.answers.find? (.declaration d.key d.name) = none →
      let found := ((memberCall (.object e []) name count).perform oracle).run last
      (∀ part ∈ namedParts declared name, StandsAlone found.2.store part.key) →
        BindsToPart found.2.store (takenPart (namedParts declared name) count) found.1

/-- Nothing is put for type parameters where there are none. -/
theorem instanceSignatures_plain (e : Entity) (ids : List DeclarationId) :
    instanceSignatures e [] ids = signaturesOf ids := by
  have hnone : Ty.mappingOf e [] = [] := List.zip_nil_right
  unfold instanceSignatures signaturesOf
  rw [hnone]
  refine bind_congr fun st => congrArg (fun f => List.mapM f _) (funext fun d => ?_)
  exact bind_pure _

/-- The call signatures of an instance are those of its symbol. -/
theorem run_callSignatures : ((callSignatures (.object e [])).perform oracle).run last =
    ((instanceSignatures e [] (last.store.symbol e.id).callSignatures).perform
      oracle).run last := by
  rw [callSignatures]
  rfl

/-- So are the construct signatures. -/
theorem run_constructSignatures : ((constructSignatures (.object e [])).perform oracle).run last =
    ((instanceSignatures e [] (last.store.symbol e.id).constructSignatures).perform oracle).run
      last := by
  rfl

section Oracles

variable (horacle : oracle.Learns files) (hsound : last.Sound files)
include horacle hsound

/-- The signatures that a symbol declares itself. -/
theorem instanceSignatures_declares (e : Entity) {ids : List DeclarationId}
    (hids : ∀ d ∈ ids, d.index < last.store.declarations.size) :
    let found := ((instanceSignatures e [] ids).perform oracle).run last
    SignaturesFor found.2.store ids found.1 := by
  rw [instanceSignatures_plain]
  have hlearns : Learns files False oracle last (signaturesOf ids) _ :=
    signaturesOf_declares horacle hids
  obtain ⟨-, -, ⟨-, hfor⟩, -⟩ := hlearns last (.refl last) hsound
  exact hfor

omit horacle hsound in
/-- A member that a symbol declares is found, whatever becomes known. -/
theorem memberOf_knows (he : e.id.index < last.store.symbols.size)
    (hm : (last.store.symbol e.id).members.find? name = some m) (given : List Ty) :
    last.Knows oracle (memberOf (.object e given) name) (some m) := by
  intro next hnext
  have hsame := hnext.workspace.store.symbol_eq e.id he
  show ((match ((next.store.symbol e.id).members.find? name) with
    | some _ => _
    | none => _ : Inquiry _).perform oracle).run next = _
  rw [hsame, hm]
  rfl

/-- What a symbol does not declare is not found if it extends nothing. -/
theorem memberOf_none (he : e.id.index < last.store.symbols.size)
    (hm : (last.store.symbol e.id).members.find? name = none)
    (hextends : last.extended oracle e.id = [])
    (henum : last.store.hasKind (· == .enum) e.id = false) (given : List Ty) :
    (((memberOf (.object e given) name).perform oracle).run last).1 = none := by
  have hasked : Learns files False oracle last (basesOf e.id) _ := basesOf_learns horacle e.id
  obtain ⟨hlater, -⟩ := hasked last (.refl last) hsound
  have hkind := hlater.workspace.store.hasKind_eq hsound.workspace.store he (· == .enum)
  -- Own members, then bases, then the members of numbers: all three have nothing.
  show (((match ((last.store.symbol e.id).members.find? name) with
    | some _ => _
    | none => _ : Inquiry _).perform oracle).run last).1 = _
  rw [hm]
  dsimp only
  rw [Inquiry.run_bind, show (((basesOf e.id).perform oracle).run last).1 = [] from hextends]
  show (((if (Store.hasKind _ _ _) then _ else return none : Inquiry _).perform oracle).run _).1 = _
  rw [hkind, henum]
  rfl

/-- A method of a member that has not been typed before has the signatures of all overloads. -/
theorem memberType_declares (hempty : last.inProgress = []) (hm : MemberLists last.store m parts)
    (hd : IsPart d) (hfirst : parts.head? = some d) (hkind : d.kind = .methodSignature)
    (hnew : last.answers.find? (.declaration d.key d.name) = none) :
    let found := ((memberType (.object e []) m).perform (answerBy oracle)).run last
    ∃ signatures entity, found.1 = .function signatures entity ∧
      SignaturesFor found.2.store (callables found.2.store m) signatures ∧
      MemberLists found.2.store m parts := by
  intro found
  obtain ⟨id, hid, -, hrun⟩ := run_typeOfSymbol (answerBy oracle) hm hd hfirst
  have hfound : found = (guarded (.declaration d.key d.name)
      ((declarationType id).perform oracle)).run last := by
    show ((memberType (.object e []) m).perform (answerBy oracle)).run last = _
    rw [memberType_plain, hrun]
    show (guarded (.declaration (last.store.declaration id).key (last.store.declaration id).name)
      ((declarationType id).perform oracle)).run last = _
    rw [hid.eq]
    rfl
  -- The question is new and nothing is in progress, so the rule is applied.
  rw [run_guarded, hnew, hempty] at hfound
  have htyped : Learns files False oracle (last.asking (.declaration d.key d.name))
      (declarationType id) _ := method_learns horacle hm.index_lt hid hd hkind hm.parent
  obtain ⟨hlater, -, ⟨signatures, entity, ht, hfor⟩, -⟩ := htyped _ (.refl _) { hsound with }
  have hlists := MemberLists.later (k := last.asking (.declaration d.key d.name)) hm hlater
  rw [hfound]
  exact ⟨signatures, entity, ht, hfor, hlists⟩

/-- A symbol that declares the parts of an object type answers like this. -/
theorem answersDeclared (hempty : last.inProgress = [])
    (h : DeclaresParts (answerBy oracle) last e declared) :
    AnswersDeclared (answerBy oracle) last e declared := by
  -- A name that parts have is that of a member of the symbol.
  have hmember : ∀ name, namedParts declared name ≠ [] →
      ∃ m, (last.store.symbol e.id).members.find? name = some m := fun name hname => by
    cases hm : (last.store.symbol e.id).members.find? name with
    | none => exact absurd (h.lists.unnamed name hm) hname
    | some m => exact ⟨m, rfl⟩
  have hsymbol := hsound.workspace.store.symbol e.id
  refine ⟨fun name hname => ?_, fun name hname => ?_, ?_, ?_,
    fun name count d hd hkind hnew => ?_⟩
  · obtain ⟨m, hm⟩ := hmember name hname
    exact ⟨m, memberOf_knows h.index_lt hm [], h.lists.lists name m hm⟩
  · cases hm : (last.store.symbol e.id).members.find? name with
    | none =>
      exact memberOf_none (answerBy_learns horacle) hsound h.index_lt hm h.extends_nothing
        h.not_enum []
    | some m => exact absurd hname (h.named name m hm)
  · rw [run_callSignatures]
    exact instanceSignatures_declares (answerBy_learns horacle) hsound e hsymbol.callSignatures
  · rw [run_constructSignatures]
    exact instanceSignatures_declares (answerBy_learns horacle) hsound e hsymbol.constructSignatures
  · obtain ⟨m, hm⟩ := hmember name fun hnone => by rw [hnone] at hd; exact nomatch hd
    obtain ⟨signatures, entity, htype, hfor, hlists⟩ := memberType_declares horacle hsound
      (e := e) hempty (h.lists.lists name m hm)
      (h.parts d (List.mem_filter.mp (List.mem_of_mem_head? hd)).1) hd hkind hnew
    rw [run_memberCall (memberOf_knows h.index_lt hm []) (.refl last) htype]
    intro found halone
    -- The parts stand alone at their places, so overloads are told apart by their keys.
    have hplace := forall_mem_right (P := fun id => StandsAlone found.2.store
      (found.2.store.declaration id).key)
        ((List.forall₂_and_left _ _).mpr ⟨halone, hlists.declarations⟩)
        fun part id ⟨hpart, hid⟩ => by rw [hid.eq]; exact hpart
    refine hfor.bindsToPart hlists (fun part hpart =>
      h.bodiless part (List.mem_filter.mp hpart).1) (fun id hid c _ hkey => ?_) count
    rw [hplace id (mem_of_mem_callables hid) c id hkey rfl]

end Oracles

/-! ## The two kinds of types -/

/-- Two parts declare the same: they have one name and are of one kind, with parameters of the same
forms. -/
structure SamePart (a b : Declaration) : Prop where
  name_eq : b.name = a.name
  kind_eq : b.kind = a.kind
  forms_eq : parameterForms b.node = parameterForms a.node

instance : DecidableRel SamePart := fun a b =>
  decidable_of_iff (b.name = a.name ∧ b.kind = a.kind ∧
    parameterForms b.node = parameterForms a.node)
    ⟨fun ⟨hname, hkind, hforms⟩ => ⟨hname, hkind, hforms⟩,
      fun h => ⟨h.name_eq, h.kind_eq, h.forms_eq⟩⟩

/-- The same parts take the same numbers of arguments. -/
theorem SamePart.takes_iff {a b : Declaration} (h : SamePart a b) (count : Nat) :
    Takes a.node count ↔ Takes b.node count := by
  unfold Takes
  rw [h.forms_eq]

/-- The first item of one list has a partner, the first of the other. -/
theorem exists_head?_of_mem {α β : Type} {R : α → β → Prop} {as : List α} {bs : List β}
    (h : List.Forall₂ R as bs) {a : α} (ha : a ∈ as.head?) : ∃ b ∈ bs.head?, R a b := by
  cases h with
  | nil => exact nomatch ha
  | cons hhead _ => exact ⟨_, rfl, Option.some.inj ha ▸ hhead⟩

/-- What partners have in common either all items of both lists have, or some of both lack. -/
theorem forall_mem_iff {α β : Type} {R : α → β → Prop} {P : α → Prop} {Q : β → Prop} {as : List α}
    {bs : List β} (h : List.Forall₂ R as bs) (hR : ∀ a b, R a b → (P a ↔ Q b)) :
    (∀ a ∈ as, P a) ↔ ∀ b ∈ bs, Q b := by
  induction h with
  | nil => exact iff_of_true nofun nofun
  | cons hhead _ ih => rw [List.forall_mem_cons, List.forall_mem_cons, hR _ _ hhead, ih]

/-- Lists of the same parts have the same parts of each name. -/
theorem namedParts_same {others : List Declaration} (h : List.Forall₂ SamePart declared others)
    (name : String) :
    List.Forall₂ SamePart (namedParts declared name) (namedParts others name) :=
  List.rel_filter (fun a b hab => by simp [hab.name_eq]) h

/-- A call is meant to bind to the first part of a name if this takes the arguments, and if no part
does. -/
theorem takenPart_eq_head?_iff (hfirst : parts.head? = some d) (hd : d.kind.isCallable = true)
    (count : Nat) : takenPart parts count = parts.head? ↔
      Takes d.node count ∨ ∀ part ∈ parts, part.kind.isCallable = true →
        ¬ Takes part.node count := by
  obtain ⟨rest, rfl⟩ := List.head?_eq_some_iff.mp hfirst
  have hmethods : (d :: rest).filter (·.kind.isCallable) = d :: rest.filter (·.kind.isCallable) :=
    List.filter_cons_of_pos hd
  rw [takenPart, hmethods]
  dsimp only [List.head?_cons]
  by_cases htakes : Takes d.node count
  · rw [List.find?_cons_of_pos (by exact decide_eq_true htakes)]
    exact iff_of_true rfl (.inl htakes)
  rw [List.find?_cons_of_neg (by simpa using htakes), List.forall_mem_cons]
  -- The first part does not take the arguments: everything depends on whether another one does.
  cases hfound : (rest.filter (·.kind.isCallable)).find? fun d => decide (Takes d.node count) with
  | none =>
    refine iff_of_true rfl (.inr ⟨fun _ => htakes, fun part hpart hcallable htaken => ?_⟩)
    have hnone := List.find?_eq_none.mp hfound part (List.mem_filter.mpr ⟨hpart, hcallable⟩)
    exact hnone (decide_eq_true htaken)
  | some other =>
    have htaken : Takes other.node count := by simpa using List.find?_some hfound
    obtain ⟨hmem, hcallable⟩ := List.mem_filter.mp (List.mem_of_find?_eq_some hfound)
    refine iff_of_false (fun hsame => htakes ?_) fun h => ?_
    · exact Option.some.inj hsame ▸ htaken
    · exact (h.resolve_left htakes).2 other hmem hcallable htaken

/-- Whatever has been requested before and after it, an object type that is written inline has a
member for each name of its parts, and a call of a member binds to the first part of its name,
whatever the number of the arguments; no call and no construction binds to a part. A symbol that
declares parts has these members and no other ones, and a call binds to the first part that takes
the arguments, or else to the first one. If the parts are the same, both have the same members of
their own, and a call binds to the same part exactly if the first part takes the arguments or none
does. -/
theorem object_types_answer (settings : Settings) (disk : Disk) (library root : Source)
    {k : Knowledge} (hk : (Knowledge.start settings disk library root).Reaches k) {n : Node}
    (hn : n.is .objectType = true) (hnew : k.answers.find? (.written n.key) = none)
    {last : Knowledge} (hlast : ((Request.ask (.written n)).after k).Reaches last) :
    let oracle := answer (depthBound k.workspace)
    let declared := n.constructs.filterMap declaredPart?
    AnswersInline oracle last ((typeOfSyntax n).conduct.run k).1 declared ∧
    ∀ e others, DeclaresParts oracle last e others → AnswersDeclared oracle last e others ∧
      (List.Forall₂ SamePart declared others →
        (∀ name, namedParts others name = [] ↔ namedParts declared name = []) ∧
        ∀ name count, ∀ d ∈ (namedParts declared name).head?, d.kind = .methodSignature →
          (takenPart (namedParts others name) count = (namedParts others name).head? ↔
            Takes d.node count ∨ ∀ part ∈ namedParts declared name,
              part.kind.isCallable = true → ¬ Takes part.node count)) := by
  intro oracle declared
  have hstart := Knowledge.start_sound settings disk library root
  obtain ⟨hbegun, hsound⟩ := hk.keeps hstart
  have hempty : k.inProgress = [] := hbegun.inProgress_eq
  have hplaced := hk.placed hstart (Knowledge.start_placed settings disk library root)
  have hafter := hsound.after (r := .ask (.written n)) (from_anyFile n)
  obtain ⟨hlater, hlsound⟩ := hlast.keeps hafter.2
  -- The rules are two levels down from the answers: the type itself, and the types of its members.
  obtain ⟨depth, hdepth⟩ : ∃ depth, depthBound k.workspace = depth + 2 :=
    ⟨16 * (k.workspace.size + 1) - 2, by unfold depthBound; omega⟩
  have horacle : oracle = answerBy (answerBy (answer depth)) := by
    show answer (depthBound k.workspace) = _
    rw [hdepth]
    rfl
  have hlearns : (answer depth).Learns anyFile := answer_learns depth
  have hrun : (typeOfSyntax n).conduct.run k = ((typeOfSyntax n).perform oracle).run k :=
    run_conduct _ (.refl k)
  have hparts : ∀ d ∈ declared, IsPart d := fun d hd =>
    let ⟨part, _, hpart⟩ := List.mem_filterMap.mp hd
    (isPart_of_declaredPart? hpart).1
  refine ⟨?_, fun e others h =>
    ⟨?_, fun hsame => ⟨fun name => ?_, fun name count d hd hkind => ?_⟩⟩⟩
  -- The type was worked out when it was requested, and members only list more from then on.
  · obtain ⟨members, types, ht, hlists, hnamed, htyped⟩ := typeOfSyntax_lists (answer_grows depth)
      hlearns (answer_places depth) hsound hplaced hempty (from_anyFile n) hn hnew
    rw [hrun, horacle, ht]
    have hend :
        (((typeOfSyntax n).perform (answerBy (answerBy (answer depth)))).run k).2.Later last := by
      rw [← horacle, ← hrun]
      exact hlater
    exact answersInline (hlists.later hend) hnamed (htyped.later hend) hparts types
  · rw [horacle] at h ⊢
    exact answersDeclared (answerBy_learns hlearns) hlsound
      ((hafter.1.trans hlater).inProgress_eq.trans hempty) h
  -- Both sides have as many parts of each name.
  · have hlength := (namedParts_same hsame name).length_eq
    rw [← List.length_eq_zero_iff, ← List.length_eq_zero_iff, hlength]
  · have hsame := namedParts_same hsame name
    generalize namedParts declared name = first at hd hsame ⊢
    generalize namedParts others name = second at hsame ⊢
    cases hsame with
    | nil => exact nomatch hd
    | cons hhead hrest =>
      obtain rfl := Option.some.inj hd
      rw [takenPart_eq_head?_iff rfl (by rw [hhead.kind_eq, hkind]; rfl), ← hhead.takes_iff,
        forall_mem_iff (.cons hhead hrest) fun a b hab => ?_]
      rw [hab.kind_eq, hab.takes_iff]

/-- A symbol extends nothing and has one member, whose declarations are parts and are attached to
it. -/
def DeclaresOne (oracle : Oracle) (last : Knowledge) (e : Entity) (m : SymbolId) (name : String) :
    Prop :=
  let st := last.store
  (e.id.index < st.symbols.size ∧ (last.extended oracle e.id).isEmpty = true ∧
    st.hasKind (· == .enum) e.id = false ∧ (st.symbol e.id).members.entries = [(name, m)]) ∧
  (m.index < st.symbols.size ∧ (st.symbol m).parent.isSome = true ∧
    ∀ id ∈ (st.symbol m).declarations, id.index < st.declarations.size ∧
      (st.declaration id).symbol = some m) ∧
  ∀ d ∈ st.declarationsOf m, IsPart d.detached ∧ d.hasBody = false ∧ d.name = name

instance (oracle : Oracle) (last : Knowledge) (e : Entity) (m : SymbolId) (name : String) :
    Decidable (DeclaresOne oracle last e m name) :=
  inferInstanceAs (Decidable ((_ ∧ _ ∧ _ ∧ _) ∧ (_ ∧ _ ∧ _) ∧ _))

/-- A symbol with one member declares the parts of this member. -/
theorem DeclaresOne.declaresParts (h : DeclaresOne oracle last e m name)
    (hparts : last.store.declarationsOf m ≠ []) :
    DeclaresParts oracle last e ((last.store.declarationsOf m).map Declaration.detached) := by
  obtain ⟨⟨he, hextends, henum, hentries⟩, ⟨hlt, hparent, hattached⟩, hdeclared⟩ := h
  have hdeclared : ∀ d ∈ (last.store.declarationsOf m).map Declaration.detached,
      IsPart d ∧ d.hasBody = false ∧ d.name = name := List.forall_mem_map.mpr hdeclared
  have hlists := MemberLists.of_attached hlt hparent hattached
  have hnamed : namedParts ((last.store.declarationsOf m).map Declaration.detached) name =
      (last.store.declarationsOf m).map Declaration.detached :=
    List.filter_eq_self.mpr fun d hd => beq_iff_eq.mpr (hdeclared d hd).2.2
  refine ⟨he, ?_, ?_, fun d hd => (hdeclared d hd).1, fun d hd => (hdeclared d hd).2.1,
    List.isEmpty_iff.mp hextends, henum⟩
  -- The only member has the only name.
  · rw [hentries]
    refine .of_entries (List.nodup_singleton m) (fun d hd => ?_) fun x hx => ?_
    · exact List.mem_singleton.mpr (hdeclared d hd).2.2
    · rw [List.mem_singleton.mp hx]
      exact hnamed.symm ▸ hlists
  · rw [hentries]
    intro other x hx
    have hname : name = other := by
      by_contra hne
      simp [memberNamed?, hne] at hx
    rw [← hname, hnamed]
    exact fun hnil => hparts (List.map_eq_nil_iff.mp hnil)

/-- Calls with some number of arguments are for another part than this one, which stands alone. -/
def IsPassedOver (st : Store) (parts : List Declaration) (count : Nat) (d : Declaration) : Prop :=
  (d.kind = .methodSignature ∧ StandsAlone st d.key) ∧ ¬ Takes d.node count ∧
    ∃ part ∈ parts, part.kind.isCallable = true ∧ Takes part.node count

instance (st : Store) (parts : List Declaration) (count : Nat) (d : Declaration) :
    Decidable (IsPassedOver st parts count d) :=
  inferInstanceAs (Decidable ((_ ∧ _) ∧ _ ∧ ∃ part ∈ parts, _ = true ∧ Takes part.node count))

/-- A part has not been typed yet, and stands alone later on. -/
def IsUntyped (now later : Knowledge) (d : Declaration) : Prop :=
  (now.answers.find? (.declaration d.key d.name)).isNone = true ∧ StandsAlone later.store d.key

instance (now later : Knowledge) (d : Declaration) : Decidable (IsUntyped now later d) :=
  inferInstanceAs (Decidable (_ ∧ _))

/-- A value of an interface with two overloads, and one of the same object type written inline. -/
def overloadedObjects : Source :=
  .ofText "/a.ts" "interface I\x7bm(a);m(a,b)\x7dlet a:\x7bm(a);m(a,b)\x7d,b:I;a.m(1,2);b.m(1,2)"
    .ts

/-- Both have the same parts, and a call with two arguments binds to different ones. -/
theorem object_types_answer_overloaded :
    let start := Knowledge.start {} {} default overloadedObjects
    let oracle := answer (depthBound start.workspace)
    ∃ n ∈ overloadedObjects.root.preorder, ∃ e others,
      let declared := n.constructs.filterMap declaredPart?
      let t := ((typeOfSyntax n).conduct.run start).1
      let last := (Request.ask (.written n)).after start
      let called := ((memberCall (.object e []) "m" 2).perform oracle).run last
      List.Forall₂ SamePart declared others ∧
      (∃ found, last.Knows oracle (memberCall t "m" 2) found ∧
        BindsToPart last.store (namedParts declared "m").head? found) ∧
      BindsToPart called.2.store (takenPart (namedParts others "m") 2) called.1 ∧
      takenPart (namedParts others "m") 2 ≠ (namedParts others "m").head? := by
  intro start oracle
  have hchecked : ∃ n ∈ overloadedObjects.root.preorder,
      ∃ receiver ∈ overloadedObjects.root.preorder,
      let declared := n.constructs.filterMap declaredPart?
      let last := (Request.ask (.written n)).after start
      n.is .objectType = true ∧ ∃ e ∈ (((typeOf receiver).perform oracle).run last).1.entity?,
        ∃ m ∈ (last.store.symbol e.id).members.find? "m", DeclaresOne oracle last e m "m" ∧
        let others := (last.store.declarationsOf m).map Declaration.detached
        let called := ((memberCall (.object e []) "m" 2).perform oracle).run last
        List.Forall₂ SamePart declared others ∧
        (∃ d ∈ (namedParts declared "m").head?,
          IsPassedOver last.store (namedParts declared "m") 2 d) ∧
        ∀ part ∈ namedParts others "m", IsUntyped last called.2 part := by
    decide +kernel
  -- All that depends on the program has been checked; the requests go through the theorem.
  have hreaches : (Knowledge.start {} {} default overloadedObjects).Reaches start := .refl
  have hnew : ∀ n : Node, start.answers.find? (.written n.key) = none := fun _ => rfl
  have horacle : answer (depthBound start.workspace) = oracle := rfl
  clear_value start oracle
  obtain ⟨n, hmem, -, -, hn, e, -, m, -, hone, hsame, ⟨d, hd, ⟨hkind, halone⟩, htakes, part, hpart,
    hcallable, htaken⟩, huntyped⟩ := hchecked
  have hanswer := object_types_answer {} {} default overloadedObjects hreaches hn (hnew n) .refl
  rw [horacle] at hanswer
  obtain ⟨hinline, hdeclared⟩ := hanswer
  -- Both objects have the same parts, so the first part of the one is the first of the other.
  obtain ⟨first, hfirst, hboth⟩ := exists_head?_of_mem (namedParts_same hsame "m") hd
  have hfirstmem := List.mem_of_mem_head? hfirst
  obtain ⟨hanswers, hcompare⟩ := hdeclared e _ (hone.declaresParts fun hnil => by
    rw [hnil] at hfirst
    exact nomatch hfirst)
  have hfound := hinline.memberCalls "m" 2 d hd hkind halone
  have hcalled := hanswers.memberCalls "m" 2 first hfirst (hboth.kind_eq.trans hkind)
    (Option.isNone_iff_eq_none.mp (huntyped first hfirstmem).1)
    fun part hpart => (huntyped part hpart).2
  -- The first signature does not take two arguments, and another one does.
  have hdiffer := ((hcompare hsame).2 "m" 2 d hd hkind).not.mpr
    (not_or.mpr ⟨htakes, fun hnone => hnone part hpart hcallable htaken⟩)
  exact ⟨n, hmem, e, _, hsame, hfound, hcalled, hdiffer⟩

/-- The construct that a call binds to. -/
def calledNode (k : Knowledge) (call : Node) : Option Node :=
  let found := (resolvedSignature call).conduct.run k
  found.1.bind (declaredNode found.2.store)

/-- Of the two calls, the one with the inline type binds to a part that does not take its arguments,
and the other one to a part that does. -/
theorem exists_call_past_inline_overload :
    let start := Knowledge.start {} {} default overloadedObjects
    ∃ inline ∈ overloadedObjects.root.preorder, ∃ declared ∈ overloadedObjects.root.preorder,
      (callArguments inline).length = 2 ∧ (callArguments declared).length = 2 ∧
        ∃ one ∈ calledNode start inline, ∃ other ∈ calledNode start declared,
          ¬ Takes one 2 ∧ Takes other 2 := by
  decide +kernel

end ScriptGraph.Inference
