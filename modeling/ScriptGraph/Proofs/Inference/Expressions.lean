import ScriptGraph.Inference.Expressions
import ScriptGraph.Proofs.Inference.Annotations
import ScriptGraph.Proofs.Syntax.Kinds

/-!
# Typing declarations and expressions keeps what is known

The rules for what declarations declare and for what expressions evaluate to, one by one. Each asks
further questions, looks members up and makes types of what it finds.

- `declarationType_learns`, `resultType_learns`, `expressionType_learns`
-/

namespace ScriptGraph.Inference

open Binding Syntax

mutual

/-- A return statement is of the file that it is looked for in. -/
theorem source_of_firstReturnIn {source : Source} {trail : List Crumb} {t : Tree} {n : Node}
    (h : firstReturnIn source trail t = some n) : n.source = source := by
  match t with
  | .node (.token _) _ _ _ _ => exact nomatch h
  | .node (.construct k) r s e cs =>
    rw [firstReturnIn] at h
    split at h
    · exact nomatch h
    · split at h
      · rw [← Option.some.inj h]
      · exact source_of_firstReturnAmong h

/-- A return that is found is in the same file. -/
theorem source_of_firstReturnAmong {source : Source} {parent : Tree} {trail : List Crumb}
    {index : Nat} {ts : List Tree} {n : Node}
    (h : firstReturnAmong source parent trail index ts = some n) : n.source = source := by
  match ts with
  | [] => exact nomatch h
  | t :: ts =>
    rw [firstReturnAmong] at h
    rcases Option.or_eq_some_iff.mp h with h | ⟨-, h⟩
    · exact source_of_firstReturnIn h
    · exact source_of_firstReturnAmong h

end

variable {files : Source → Prop} {again : Prop} {oracle : Oracle} {base : Knowledge}
    (horacle : oracle.Learns files)
include horacle

/-! ## Declarations -/

/-- The type of a part of a pattern is within the files. -/
theorem patternPartType_learns {whole : Ty} (h : whole.Within files base.store) (d : Declaration) :
    Learns files False oracle base (patternPartType whole d) fun t st => t.Within files st := by
  unfold patternPartType
  split
  · cases h with
    | array helement => exact .type helement
    | _ => exact .type Ty.any_within
  · refine .bind (memberOf_learns horacle h d.name) fun member now hnow hmember => ?_
    split
    · exact memberType_learns horacle (h.mono hnow.noSmaller) (hmember _ rfl)
    · exact .type Ty.any_within

/-- The type of the elements of a tuple lasts. -/
theorem tupleElementType_learns {elements : List Ty}
    (h : ∀ t ∈ elements, t.Within files base.store) :
    Learns files again oracle base (tupleElementType elements) fun t st => t.Within files st := by
  unfold tupleElementType
  split
  · exact .type Ty.any_within
  · exact unionOf_learns horacle h

/-- The type of a variable that runs through a loop lasts. -/
theorem loopVariableType_learns {n : Node} (hn : n.From files) :
    Learns files again oracle base (loopVariableType n) fun t st => t.Within files st := by
  refine .bind (typeOf?_learns horacle fun _ => hn.child?) fun t now _ ht => ?_
  split
  · exact .type .intrinsic
  · split
    · cases ht with
      | array helement => exact .type helement
    · cases ht with
      | tuple helements => exact tupleElementType_learns horacle helements
    · exact .type .intrinsic
    · exact .type Ty.any_within

/-- The type of a variable is within the files. -/
theorem variableType_learns {d : Declaration} (hn : d.node.From files) :
    Learns files False oracle base (variableType d) fun t st => t.Within files st := by
  unfold variableType
  dsimp only
  -- A pattern takes a part of the value.
  have hpart : ∀ (now : Knowledge) (whole : Ty), whole.Within files now.store →
      Learns files False oracle now (if ((d.node.child? .name).map (·.is .identifier)).getD false
        then return whole else patternPartType whole d) fun t st => t.Within files st := by
    intro now whole h
    split
    · exact .type h
    · exact patternPartType_learns horacle h d
  split
  · split
    · rename_i htype
      exact .bind (typeOfAscription_learns horacle (hn.child? htype))
        fun _ now _ ht => hpart now _ ht
    · exact .bind (typeOf?_learns horacle fun _ => hn.child?) fun _ now _ ht => hpart now _ ht
  · split
    · exact loopVariableType_learns horacle hn
    · exact .type Ty.any_within

/-- The type of a parameter is within the files. -/
theorem parameterBindingType_learns {d : Declaration} (hn : d.node.From files) :
    Learns files False oracle base (parameterBindingType d) fun t st => t.Within files st := by
  refine .bind (parameterType_learns horacle hn) fun whole now _ ht => ?_
  split
  · exact .type ht
  · split
    · exact .type ht
    · dsimp only
      split
      · split
        · exact .type ht
        · exact patternPartType_learns horacle ht d
      · exact patternPartType_learns horacle ht d

/-- The type of a property is within the files. -/
theorem propertyType_learns {n : Node} (hn : n.From files) :
    Learns files False oracle base (propertyType n) fun t st => t.Within files st := by
  unfold propertyType
  -- A field, a parameter that is a property, a pair, a shorthand, or something else.
  split
  · split
    · rename_i htype
      exact typeOfAscription_learns horacle (hn.child? htype)
    · exact typeOf?_learns horacle fun _ => hn.child?
  split
  · exact parameterType_learns horacle hn
  split
  · exact typeOf?_learns horacle fun _ => hn.child?
  split
  · refine .bind (resolveName_learns _ n) fun found now _ hfound => ?_
    split
    · exact typeOfSymbol_learns horacle (hfound _ rfl)
    · exact .type Ty.any_within
  · exact .type Ty.any_within

/-- The type of a function with the signature of one declaration. -/
theorem singleFunction_learns {id : DeclarationId} (hid : id.index < base.store.declarations.size)
    {entity : Option Entity} (he : ∀ e, entity = some e → e.id.index < base.store.symbols.size) :
    Learns files again oracle base (do return .function [← signatureOf id] entity)
      fun t st => Ty.Within files st t :=
  .bind (signatureOf_learns horacle hid) fun _ _ hnow hs => .type (.function
    (fun _ hmem => List.mem_singleton.mp hmem ▸ hs) (entity_later hnow he))

/-- The type of a method is within the files. -/
theorem methodType_learns {id : DeclarationId} (hid : id.index < base.store.declarations.size)
    {d : Declaration} (hd : d.Within base.store) :
    Learns files False oracle base (methodType id d) fun t st => t.Within files st := by
  unfold methodType
  -- A getter, a setter, and a method that may have overloads.
  split
  · exact .bind (signatureOf_learns horacle hid) fun _ _ _ hs => resultOf_learns horacle hs
  · refine .bind (signatureOf_learns horacle hid) fun s now _ hs => .type ?_
    cases hp : s.parameters.head? with
    | none => exact Ty.any_within
    | some p => exact hs.parameters p (List.mem_of_head? hp)
  · refine .bind (entityOf?_learns hd) fun entity now hnow he => ?_
    have hid := hnow.declaration_lt hid
    split
    · refine .store False.elim fun next hnext _ => ?_
      have he := entity_later hnext he
      split
      · exact .bind (symbolSignatures_learns horacle _) fun _ _ hlast hall =>
          .type (.function hall (entity_later hlast he))
      · exact singleFunction_learns horacle (hnext.declaration_lt hid) he
    · exact singleFunction_learns horacle hid he

/-- The type of a declaration is within the files. -/
theorem declarationType_learns {id : DeclarationId}
    (hid : id.index < base.store.declarations.size) :
    Learns files False oracle base (declarationType id) fun t st => t.Within files st := by
  refine .bind (declarationOf_learns hid) fun d now hnow hwithin => ?_
  obtain ⟨hd, hn⟩ := hwithin
  have hid := hnow.declaration_lt hid
  -- In each of these cases, the entity is looked up after the signatures have been found.
  have hfunction : ∀ next, now.Later next → ∀ signatures, AllWithin files signatures next.store →
      Learns files False oracle next (do return .function signatures (← entityOf? d.symbol))
        fun t st => Ty.Within files st t := fun next hnext signatures hall =>
    .bind (entityOf?_learns (fun s hs => hnext.symbol_lt (hd s hs))) fun _ _ hlast he =>
      .type (.function (hall.mono (Knowledge.Later.noSmaller hlast)) he)
  have hsingle : ∀ s next, Signature.Within files next s → AllWithin files [s] next :=
    fun s next hs _ hmem => List.mem_singleton.mp hmem ▸ hs
  -- The cases are the kinds of declarations, in the order of the rule.
  split
  iterate 2
    · dsimp only
      split
      · exact .bind (symbolSignatures_learns horacle _) fun _ next hnext hall =>
          hfunction next hnext _ hall
      · exact .bind (signatureOf_learns horacle hid) fun _ next hnext hs =>
          hfunction next hnext _ (hsingle _ _ hs)
  · exact .bind (signatureOf_learns horacle hid) fun _ next hnext hs =>
      hfunction next hnext _ (hsingle _ _ hs)
  · exact methodType_learns horacle hid hd
  · exact methodType_learns horacle hid hd
  iterate 3
    · split
      · exact staticOf_learns (hd _ ‹_›)
      · exact .type Ty.any_within
  · refine .store False.elim fun next _ hsound => ?_
    split
    · rename_i owner howner
      obtain ⟨member, -, hparent⟩ := Option.bind_eq_some_iff.mp howner
      exact instanceOf_learns ((hsound.workspace.store.symbol member).parent owner hparent)
        (List.forall_mem_nil _)
    · exact .type .intrinsic
  · exact variableType_learns horacle hn
  · exact parameterBindingType_learns horacle hn
  · exact propertyType_learns horacle hn
  · exact propertyType_learns horacle hn
  · exact typeOf_learns horacle hn
  · exact .type Ty.any_within

omit horacle in
/-- The ascribed result of a declaration is in its file. -/
theorem from_resultAscription {d : Declaration} (hn : d.node.From files) {ascription : Node}
    (h : resultAscription d = some ascription) : ascription.From files := by
  rcases Option.or_eq_some_iff.mp h with h | ⟨-, h⟩
  · exact hn.child? h
  · split at h
    · exact hn.child? h
    · exact nomatch h

/-- The type of a body lasts. -/
theorem bodyType_learns {body : Node} (hn : body.From files) :
    Learns files again oracle base (bodyType body) fun t st => t.Within files st := by
  unfold bodyType
  split
  · split
    · rename_i hvalue
      obtain ⟨found, hfound, hvalue⟩ := Option.bind_eq_some_iff.mp hvalue
      have hfound : found.From files := by
        rw [Node.From, source_of_firstReturnAmong hfound]
        exact hn
      exact typeOf_learns horacle (from_firstConstruct hfound hvalue)
    · exact .type .intrinsic
  · exact typeOf_learns horacle hn

/-- The type of a result is within the files. -/
theorem resultType_learns {id : DeclarationId}
    (hid : id.index < base.store.declarations.size) :
    Learns files False oracle base (resultType id) fun t st => t.Within files st := by
  refine .bind (declarationOf_learns hid) fun d now hnow hwithin => ?_
  obtain ⟨hd, hn⟩ := hwithin
  -- A constructor makes an instance; another result is written, missing or inferred from the body.
  split
  · split
    · exact instanceOf_learns (hd _ ‹_›) (List.forall_mem_nil _)
    · exact .type Ty.any_within
  · split
    · rename_i hascription
      exact typeOfAscription_learns horacle (from_resultAscription hn hascription)
    · exact .type Ty.any_within
    · rename_i hbody
      split
      · exact .type Ty.any_within
      · refine .bind (bodyType_learns horacle (hn.child? hbody)) fun inferred next _ ht => ?_
        split
        · exact globalObject_learns _ fun t hmem => List.mem_singleton.mp hmem ▸ ht
        · exact .type ht

/-! ## Expressions -/

/-- The type of a binary expression lasts. -/
theorem binaryType_learns {n : Node} (hn : n.From files) :
    Learns files again oracle base (binaryType n) fun t st => t.Within files st := by
  unfold binaryType
  dsimp only
  -- Comparisons, arithmetic, then the operators that ask for the types of both sides.
  split
  · exact .type .intrinsic
  split
  · exact .type .intrinsic
  refine .bind (typeOf?_learns horacle fun _ => hn.child?) fun left now _ hleft =>
    .bind (typeOf?_learns horacle fun _ => hn.child?) fun right next hnext hright => ?_
  split
  · refine unionOf_learns horacle fun t ht => ?_
    rcases List.mem_cons.mp ht with rfl | ht
    · exact hleft.mono hnext.noSmaller
    · exact List.mem_singleton.mp ht ▸ hright
  · split
    · unfold sumType
      split
      · exact .type .intrinsic
      · split
        · exact .type .intrinsic
        · exact .type Ty.any_within
    · exact .type Ty.any_within

omit horacle in
/-- The type of a unary expression refers to nothing. -/
theorem unaryType_within (operator : String) (st : Store) :
    (unaryType operator).Within files st := by
  unfold unaryType
  split <;> exact .intrinsic

/-- The type of an element access lasts. -/
theorem elementType_learns {n : Node} (hn : n.From files) :
    Learns files again oracle base (elementType n) fun t st => t.Within files st := by
  refine .bind (typeOf?_learns horacle fun _ => hn.child?) fun t now _ ht => ?_
  split
  · cases ht with
    | array helement => exact .type helement
  · cases ht with
    | tuple helements =>
      dsimp only
      split
      · rename_i hpicked
        -- The element that is picked is one of the elements.
        obtain ⟨i, -, hi⟩ := Option.bind_eq_some_iff.mp hpicked
        obtain ⟨k, -, hk⟩ := Option.bind_eq_some_iff.mp hi
        exact .type (helements _ (List.mem_of_getElem? hk))
      · exact tupleElementType_learns horacle helements
  · exact .type .intrinsic
  · exact .type Ty.any_within

/-- The type of an assertion lasts. -/
theorem assertedType_learns {n : Node} (hn : n.From files) :
    Learns files again oracle base (assertedType n) fun t st => t.Within files st := by
  unfold assertedType
  split
  · exact .type Ty.any_within
  · rename_i inner hparts
    exact typeOf_learns horacle (hn.constructs (hparts ▸ List.mem_cons_self))
  · rename_i inner rest _ hparts
    have hpart : ∀ m ∈ inner :: rest, m.From files := fun m hm => hn.constructs (hparts ▸ hm)
    dsimp only
    split
    · exact typeOf_learns horacle (hpart inner List.mem_cons_self)
    · exact typeOfSyntax_learns horacle (hpart _ List.getLastD_mem_cons)

/-- The type of an expression with a prefix lasts. -/
theorem prefixedType_learns {n : Node} (hn : n.From files) :
    Learns files again oracle base (prefixedType n) fun t st => t.Within files st := by
  unfold prefixedType
  split
  · rename_i harguments
    have harguments := from_firstConstruct hn (Option.filter_eq_some_iff.mp harguments).1
    exact typeOfSyntax?_learns horacle fun _ => from_firstConstruct harguments
  · exact .type Ty.any_within

omit horacle in
/-- The parts of an object literal declare new properties and methods of its file. -/
theorem objectMember_learns {start now : Knowledge} (h : start.Later now) {b : FileBinding}
    (hb : b.Within now.store) {n : Node} (hn : n.From files) :
    Learns files False oracle now (objectMember b n)
      fun found st => ∀ id, found = some id → MayJoin start id st := by
  unfold objectMember
  split
  · split
    · exact .pure fun _ _ => nofun
    · exact addDeclaration_learns h rfl hn
  · exact addDeclaration_learns h rfl hn
  · rename_i hkind
    split
    · exact .pure fun _ _ => nofun
    · rename_i id hid
      refine .store nofun fun next hnext _ => .pure fun last hlast other hother => ?_
      -- The declaration is found at its own construct, which is a method.
      have hjoin : MayJoin start id now.store :=
        ⟨(hb.declarations _ (Table.mem_entries_of_find? hid)).1,
          .inr ((is_of_declarationAt hb hid _).trans (Node.is_of_kind? hkind))⟩
      split at hother
      · exact nomatch hother
      · exact Option.some.inj hother ▸ hjoin.later (hnext.trans hlast).workspace.store
  · exact .pure fun _ _ => nofun

/-- The type of a construction is within the files. -/
theorem constructionType_learns {n : Node} (hn : n.From files) :
    Learns files False oracle base (constructionType n) fun t st => t.Within files st := by
  -- What is no class is constructed by its signatures.
  have hresult : ∀ now, Learns files False oracle now (constructionType.signatureResult n)
      fun t st => t.Within files st := fun now => by
    refine .bind (resolvedConstructSignature_repeats horacle hn).1 fun s next _ hs => ?_
    split
    · exact resultOf_learns horacle (hs _ rfl)
    · exact .type Ty.any_within
  unfold constructionType
  split
  · exact .type Ty.any_within
  · rename_i hconstructed
    refine .bind (typeOf_learns horacle (hn.child? hconstructed)) fun t now _ ht => ?_
    split
    · cases ht with
      | static he =>
        refine .bind (isClass_learns he) fun isClass next hnext _ => ?_
        split
        · exact .bind (typeArguments_learns horacle fun _ => hn.child?) fun _ _ hlast harguments =>
            instanceOf_learns ((hnext.trans hlast).symbol_lt he)
              harguments
        · exact hresult next
    · exact hresult now

/-- The type of a member expression is within the files. -/
theorem memberExpressionType_learns {n : Node} (hn : n.From files) :
    Learns files False oracle base (memberExpressionType n) fun t st => t.Within files st := by
  unfold memberExpressionType
  split
  · rename_i hobject _
    refine .bind (typeOf_learns horacle (hn.child? hobject)) fun owner now _ howner =>
      .bind (memberOf_learns horacle howner _) fun member next hnext hmember => ?_
    split
    · exact memberType_learns horacle (howner.mono hnext.noSmaller) (hmember _ rfl)
    · exact .type Ty.any_within
  · exact .type Ty.any_within

omit horacle in
/-- What is awaited refers to nothing new. -/
theorem awaitedType_within {t : Ty} {st : Store} (h : t.Within files st) :
    (awaitedType t).Within files st := by
  unfold awaitedType
  split
  · split
    · cases h with
      | object _ harguments => exact harguments _ List.mem_cons_self
    · exact h
  · exact h

/-- The type of a name is within the files. -/
theorem nameType_learns {n : Node} (hn : n.From files) :
    Learns files False oracle base (nameType n) fun t st => t.Within files st := by
  refine .bind (symbolAt_learns horacle hn fun _ => declaredSymbol_learns _)
    fun found now _ hfound => ?_
  split
  · exact typeOfSymbol_learns horacle (hfound _ rfl)
  · refine .type ?_
    split
    · exact .intrinsic
    · exact .intrinsic

/-- A declaration that is found at a construct is one of the store's. -/
theorem declaredType_learns (n : Node) :
    Learns files again oracle base (declaredType n) fun t st => t.Within files st := by
  refine .bind (bindingOf_learns n) fun b now _ hb => ?_
  split
  · rename_i id hid
    exact typeOfDeclaration_learns horacle
      (hb.declarations _ (Table.mem_entries_of_find? hid)).1
  · exact .type Ty.any_within

/-- The type of a function expression is within the files. -/
theorem functionType_learns (n : Node) :
    Learns files False oracle base (functionType n) fun t st => t.Within files st := by
  refine .bind (bindingOf_learns n) fun b now _ hb => ?_
  split
  · exact .type Ty.any_within
  · rename_i id hid
    have hid := (hb.declarations _ (Table.mem_entries_of_find? hid)).1
    refine .bind (signatureOf_learns horacle hid) fun s next hnext hs =>
      .bind (declarationOf_learns (hnext.declaration_lt hid))
        fun d last hlast hd => .bind (entityOf?_learns hd.1)
        fun e final hfinal he => .type (.function (fun _ hmem => ?_) he)
    exact List.mem_singleton.mp hmem ▸ hs.mono (hlast.trans hfinal).noSmaller

omit horacle in
/-- The type of a class expression is within the files. -/
theorem classType_learns (n : Node) :
    Learns files False oracle base (classType n) fun t st => t.Within files st := by
  refine .bind (bindingOf_learns n) fun b now _ hb => ?_
  split
  · exact .type Ty.any_within
  · rename_i hid
    refine .bind (declarationOf_learns (hb.declarations _ (Table.mem_entries_of_find? hid)).1)
      fun d next _ ⟨hd, _⟩ => ?_
    split
    · exact staticOf_learns (hd _ ‹_›)
    · exact .type Ty.any_within

/-- The type of an array literal lasts. -/
theorem arrayType_learns {n : Node} (hn : n.From files) :
    Learns files again oracle base (arrayType n) fun t st => t.Within files st := by
  refine .bind (.allTypes fun _ _ _ hm => typeOf_learns horacle
    (hn.constructs (List.mem_filter.mp hm).1)) fun elements now _ hall => ?_
  split
  · exact arrayOf_learns Ty.any_within
  · exact .bind (unionOf_learns horacle hall) fun _ _ _ ht => arrayOf_learns ht

/-- The type of an expression is within the files. -/
theorem expressionType_learns {n : Node} (hn : n.From files) :
    Learns files False oracle base (expressionType n) fun t st => t.Within files st := by
  have hfirst : ∀ m, firstConstruct n = some m → m.From files := fun _ => from_firstConstruct hn
  -- One case for each form of expression, in the order of the rule.
  unfold expressionType
  split
  · exact nameType_learns horacle hn
  · exact nameType_learns horacle hn
  iterate 7 exact .type .intrinsic
  · exact globalObject_learns _ nofun
  · exact thisType_learns n
  · exact superType_learns horacle n
  · exact arrayType_learns horacle hn
  · exact .bind (bindingOf_learns n) fun b now _ hb => objectTypeOf_learns horacle
      fun start next _ hstart hnext hpart => objectMember_learns hnext
        ((hstart.trans hnext).binding hb) (hn.constructs hpart)
  · exact functionType_learns horacle n
  · exact functionType_learns horacle n
  · exact functionType_learns horacle n
  · exact classType_learns n
  · exact constructionType_learns horacle hn
  -- A call has the result of the signature that it is resolved to.
  · refine .bind (resolvedSignature_repeats horacle hn).1 fun s now _ hs => ?_
    split
    · exact resultOf_learns horacle (hs _ rfl)
    · exact .type Ty.any_within
  · exact memberExpressionType_learns horacle hn
  · exact elementType_learns horacle hn
  · exact typeOf?_learns horacle hfirst
  · exact typeOf?_learns horacle hfirst
  · exact typeOf?_learns horacle hfirst
  · exact assertedType_learns horacle hn
  · exact assertedType_learns horacle hn
  · exact prefixedType_learns horacle hn
  · exact .bind (typeOf?_learns horacle hfirst) fun _ _ _ ht => .type (awaitedType_within ht)
  · exact binaryType_learns horacle hn
  · exact .type (unaryType_within _ _)
  · exact .type .intrinsic
  -- Both branches of a conditional count.
  · refine .bind (.allTypes fun _ _ b hb => typeOf_learns horacle ?_) fun _ _ _ hall =>
      unionOf_learns horacle hall
    rcases List.mem_append.mp hb with hb | hb
    · exact hn.child? (Option.mem_toList.mp hb)
    · exact hn.child? (Option.mem_toList.mp hb)
  · exact typeOf?_learns horacle fun _ => hn.child?
  · exact typeOf?_learns horacle fun _ => hn.child?
  · exact typeOf?_learns horacle fun _ hm => hn.constructs (List.mem_of_getLast? hm)
  · exact .type .text
  · exact .type .text
  · exact declaredType_learns horacle n

end ScriptGraph.Inference
