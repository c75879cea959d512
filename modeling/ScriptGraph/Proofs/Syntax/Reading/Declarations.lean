import ScriptGraph.Proofs.Syntax.Reading.Expressions

/-!
# What the rules for classes and modules read

The members of a class, and the statements that declarations are exported and declared by. A member
is not empty, since it has a name. An export starts with a decorator or with its keyword.
-/

namespace ScriptGraph.Syntax.Grammar

variable {text : List Char} {c next : Cursor} {f : Forest} {k : Kind}

/-! ## Members of types -/

/-- Testing for a signature stays where it is. -/
theorem atSignature_stays : Stays atSignature := by
  rintro rules c _ _ hread
  cases hread
  rfl

/-- A class name spans what is read for it. -/
theorem className_spans : Spans text className := by
  intro c
  apply Leads.ahead typed_stays
  intro isTyped
  exact .cases (nameAs_spans rfl c) (identifier_spans c)

/-- A line modifier spans what is read for it. -/
theorem lineModifier_spans (allowed : List String) : Spans text (lineModifier allowed) := by
  intro c
  apply Leads.ahead look_stays
  intro t
  dsimp only
  split
  · apply Leads.ahead typed_stays
    intro isTyped
    exact .cases .failure (methodModifier_spans _ c)
  · exact methodModifier_spans _ c

/-- The end of a member spans what is read for it. -/
theorem memberEnd_spans : Spans text memberEnd :=
  ((punct_spans _).orElse (punct_spans _)).many

/-- An indexed ascription spans what is read for it. -/
theorem indexedAscription_spans : Spans text indexedAscription := by
  intro c
  apply ((punct_spans _).orElse (punct_spans _)).optional.seq
  -- A sign, a mark, a colon and a type.
  intro sign _ hsign
  apply (punct_spans _).optional.seq
  intro mark _ hmark
  apply (punct_spans _).seq
  intro colon _ hcolon
  apply (call_spans _).seq
  intro type _ htype
  apply Leads.pure
  apply (((hsign.append hmark).append hcolon).append htype).construct
  repeat' split
  all_goals rfl

/-- An index signature spans what is read for it. -/
theorem indexSignature_spans : Spans text indexSignature := by
  -- The parts of the rule, each of which spans what is read for it.
  have hbefore : Spans text (optional do
      let sign ← optional (punct "-" <|> punct "+")
      let word ← keyword "readonly"
      return inRole .sign sign ++ word) :=
    .optional fun _ => ((punct_spans _).orElse (punct_spans _)).optional.seq fun _ _ hsign =>
      (keyword_spans _).seq fun _ _ hword => .pure ((hsign.inRole _).append hword)
  have hkeyed : Spans text (do
      let name ← identifier
      let colon ← punct ":"
      let type ← field .indexType .type
      return inRole .name name ++ colon ++ type) :=
    fun _ => identifier_spans.seq fun _ _ hname => (punct_spans _).seq fun _ _ hcolon =>
      (field_spans _ _).seq fun _ _ htype => .pure (((hname.inRole _).append hcolon).append htype)
  have hrenamed : Spans text (optional do
      let word ← keyword "as"
      let taken ← field .alias .type
      return word ++ taken) :=
    .optional fun _ => (keyword_spans _).seq fun _ _ hword => (field_spans _ _).seq
      fun _ _ htaken => .pure (hword.append htaken)
  have hmapped : Spans text (do
      let name ← typeName
      let word ← keyword "in"
      let type ← field .type .type
      let renamed ← optional do
        let word ← keyword "as"
        let taken ← field .alias .type
        return word ++ taken
      return construct .mappedTypeClause (inRole .name name ++ word ++ type ++ renamed)) :=
    fun _ => (nameAs_spans rfl).seq fun _ _ hname => (keyword_spans _).seq fun _ _ hword =>
      (field_spans _ _).seq fun _ _ htype => hrenamed.seq fun _ _ hrenamed =>
        .pure (((((hname.inRole _).append hword).append htype).append hrenamed).construct rfl)
  -- The rule itself: brackets around a key or a mapped type, and an ascription behind them.
  intro c
  apply hbefore.seq
  intro before _ hbefore
  apply (punct_spans _).seq
  intro opening _ hopening
  apply (hkeyed.orElse hmapped).enclosed.seq
  intro inner _ hinner
  apply (punct_spans _).seq
  intro closing _ hclosing
  apply indexedAscription_spans.optional.seq
  intro type _ htype
  exact .pure (((((hbefore.append hopening).append hinner).append hclosing).append
    (htype.inRole _)).construct rfl)

/-- A construct signature spans what is read for it. -/
theorem constructSignature_spans : Spans text constructSignature :=
  fun _ => (keyword_spans _).optional.seq fun _ _ hisAbstract =>
    (keyword_spans _).seq fun _ _ hnew => (field_spans _ _).optional.seq fun _ _ hgenerics =>
      (field_spans _ _).seq fun _ _ hparams => typed_ascription_spans.seq fun _ _ htype =>
        .pure (((((hisAbstract.append hnew).append hgenerics).append hparams).append
          htype).construct rfl)

/-- A named type member spans what is read for it. -/
theorem namedTypeMember_spans : Spans text namedTypeMember := by
  intro c
  apply (lineModifier_spans _).many.seq
  intro modifiers _ hmodifiers
  apply (fieldName_filled _).fill
  intro name _ hname hsolid
  apply (punct_spans _).optional.seq
  intro mark _ hmark
  -- A method has a signature behind its name, a property an ascription.
  have hhead := (hmodifiers.append hname).append hmark
  apply Leads.ahead atSignature_stays
  intro isMethod
  apply Leads.cases
  · apply signature_spans.seq
    intro sig _ hsig
    exact .pure ((hhead.append hsig).member rfl
      (((hsolid.append_right modifiers).append_left mark).append_left sig))
  · apply typed_ascription_spans.seq
    intro type _ htype
    exact .pure ((hhead.append htype).construct rfl)

/-- A type member spans what is read for it. -/
theorem typeMember_spans : Spans text typeMember := by
  intro c
  apply Leads.ahead atSignature_stays
  intro isCall
  apply Leads.cases
  · apply signature_spans.seq
    intro sig _ hsig
    exact .pure (hsig.construct rfl)
  · exact .orElse (constructSignature_spans c)
      (.orElse (indexSignature_spans c) (namedTypeMember_spans c))

/-- Members, each with the separators behind it. -/
theorem members_spans {member : Grammar Forest} (h : Spans text member) : Spans text (many do
    let m ← member
    let ends ← memberEnd
    return m ++ ends) :=
  .many fun _ => h.seq fun _ _ hm => memberEnd_spans.seq fun _ _ hends => .pure (hm.append hends)

/-- An object type spans what is read for it. -/
theorem objectType_spans : Spans text objectType :=
  fun _ => (punct_spans _).seq fun _ _ hopening => memberEnd_spans.seq fun _ _ hfirst =>
    (members_spans typeMember_spans).atStatements.seq fun _ _ hmembers =>
      (punct_spans _).seq fun _ _ hclosing =>
        .pure ((((hopening.append hfirst).append hmembers).append hclosing).construct rfl)

/-! ## Members of classes -/

/-- A static block spans what is read for it. -/
theorem staticBlock_spans : Spans text staticBlock :=
  fun _ => (keyword_spans _).seq fun _ _ hword => (body_spans _).seq fun _ _ hb =>
    .pure ((hword.append hb).construct rfl)

/-- The value of a field spans what is read for it. -/
theorem fieldValue_spans : Spans text fieldValue :=
  fun _ => (punct_spans _).seq fun _ _ heq => (field_spans _ _).seq fun _ _ hvalue =>
    .pure (heq.append hvalue)

variable {first : Cursor} {decorators : Forest}

/-- A member of a class in a typed dialect spans what is read for it. -/
theorem typedMember_spans (hdecorators : Span text first decorators c) :
    Leads text (typedMember decorators) c (Span text first) := by
  apply (lineModifier_spans _).many.seq
  intro modifiers _ hmodifiers
  apply (fieldName_filled _).fill
  intro name _ hname hsolid
  apply ((punct_spans _).orElse (punct_spans _)).optional.seq
  intro mark _ hmark
  have hhead := (hmodifiers.append hname).append hmark
  have hfilled := (hsolid.append_right modifiers).append_left mark
  apply Leads.ahead atSignature_stays
  intro isMethod
  apply Leads.cases
  -- A method may have a body; without one it is a signature.
  · apply signature_spans.seq
    intro sig _ hsig
    apply Leads.ahead (atPunct_stays _)
    intro hasBody
    apply Leads.cases
    · apply (body_spans _).seq
      intro b _ hb
      exact .pure (hdecorators.append (((hhead.append hsig).append hb).member rfl
        ((hfilled.append_left sig).append_left b)))
    · apply Leads.pure
      apply hdecorators.append
      apply (hhead.append hsig).member _ (hfilled.append_left sig)
      split <;> rfl
  -- What is no method is a field with a type and a value.
  · apply typed_ascription_spans.seq
    intro type _ htype
    apply fieldValue_spans.optional.seq
    intro value _ hvalue
    have hall := (((((hdecorators.append hmodifiers).append hname).append hmark).append
      htype).append hvalue)
    exact .pure (hall.member rfl ((((hsolid.append_right (decorators ++ modifiers)).append_left
      mark).append_left type).append_left value))

/-- A member of a class in a plain dialect spans what is read for it. -/
theorem plainMember_spans (hdecorators : Span text first decorators c) :
    Leads text (plainMember decorators) c (Span text first) := by
  apply (lineModifier_spans _).many.seq
  intro modifiers _ hmodifiers
  apply propertyName_filled.fill
  intro name _ hname hsolid
  have hhead := hdecorators.append hmodifiers
  -- The name is a token whatever its role is.
  have hfilled : ∀ r, Solid (decorators ++ modifiers ++ inRole r name) :=
    fun r => (hsolid.inRole r).append_right _
  apply Leads.ahead (atPunct_stays _)
  intro isMethod
  apply Leads.cases
  · apply (field_spans _ _).seq
    intro params _ hparams
    apply (body_spans _).seq
    intro b _ hb
    exact .pure ((((hhead.append (hname.inRole _)).append hparams).append hb).member rfl
      (((hfilled _).append_left params).append_left b))
  · apply fieldValue_spans.optional.seq
    intro value _ hvalue
    exact .pure (((hhead.append (hname.inRole _)).append hvalue).member rfl
      ((hfilled _).append_left value))

/-- A class member spans what is read for it. -/
theorem classMember_spans : Spans text classMember := by
  intro c
  apply decorators_spans.seq
  intro decorators next hdecorators
  have hle := hdecorators.spread.start_le_stop
  apply Leads.ahead typed_stays
  intro isTyped
  apply Leads.cases
  · -- In front of a block or an index signature the decorators are given up.
    apply Leads.orElse ((staticBlock_spans next).after hle)
    exact .orElse ((indexSignature_spans next).after hle) (typedMember_spans hdecorators)
  · apply Leads.seq (.orElse ((staticBlock_spans next).after hle) (plainMember_spans hdecorators))
    intro member _ hmember
    exact .pure (hmember.inRole _)

/-- A class body spans what is read for it. -/
theorem classBody_spans : Spans text classBody :=
  fun _ => (punct_spans _).seq fun _ _ hopening => memberEnd_spans.seq fun _ _ hfirst =>
    (members_spans classMember_spans).atStatements.seq fun _ _ hmembers =>
      (punct_spans _).seq fun _ _ hclosing =>
        have hparts := ((hopening.append hfirst).append hmembers).append hclosing
        .pure ((hparts.construct rfl).inRole _)

/-! ## Classes, interfaces and enumerations -/

/-- A superclass spans what is read for it. -/
theorem superclass_spans : Spans text superclass := by
  intro c
  apply Leads.ahead (atWord_stays _)
  -- An instantiation with `new` or an atom, and what trails it.
  intro isNew
  apply Leads.either (call_spans _ c) (atom_spans c)
  intro head _ hhead
  apply Leads.extend hhead
  intro base _ hbase
  apply Leads.ahead (atPunct_stays _)
  intro isGeneric
  apply Leads.cases _ (trailerOf_spans hbase true)
  apply (field_spans _ _).seq
  intro generics _ hgenerics
  apply (field_spans _ _).seq
  intro args _ hargs
  exact .pure ((((hbase.inRole _).append hgenerics).append hargs).construct rfl)

/-- The heritage of a class spans what is read for it. -/
theorem heritage_spans : Spans text heritage := by
  -- The clauses of the typed dialects.
  have hclass : Spans text (do
      let value ← superclass
      let generics ← optional (field .typeArguments .typeArguments)
      return inRole .value value ++ generics) :=
    fun _ => superclass_spans.seq fun _ _ hvalue => (field_spans _ _).optional.seq
      fun _ _ hgenerics => .pure ((hvalue.inRole _).append hgenerics)
  have hextended : Spans text (optional do
      let word ← keyword "extends"
      let classes ← separated (punct ",") do
        let value ← superclass
        let generics ← optional (field .typeArguments .typeArguments)
        return inRole .value value ++ generics
      return construct .extendsClause (word ++ classes)) :=
    .optional fun _ => (keyword_spans _).seq fun _ _ hword =>
      (Spans.separated (punct_spans _) hclass).seq fun _ _ hclasses =>
        .pure ((hword.append hclasses).construct rfl)
  have himplemented : Spans text (optional do
      let word ← keyword "implements"
      let types ← separated (punct ",") (call .type)
      return construct .implementsClause (word ++ types)) :=
    .optional fun _ => (keyword_spans _).seq fun _ _ hword =>
      (Spans.separated (punct_spans _) (call_spans _)).seq fun _ _ htypes =>
        .pure ((hword.append htypes).construct rfl)
  intro c
  apply Leads.ahead typed_stays
  intro isTyped
  -- Without any clause there is no heritage; otherwise the clauses are gathered.
  apply Leads.cases
  · apply hextended.seq
    intro extended _ hextended
    apply himplemented.seq
    intro implemented _ himplemented
    apply Leads.pure
    have hclauses := hextended.append himplemented
    split
    · exact hclauses.sublist (List.nil_sublist _)
    · exact hclauses.construct rfl
  -- The plain dialects have one expression behind `extends`.
  · have hplain : Spans text (do
        let word ← keyword "extends"
        let value ← call .expression
        return construct .classHeritage (word ++ value)) :=
      fun _ => (keyword_spans _).seq fun _ _ hword => (call_spans _).seq fun _ _ hvalue =>
        .pure ((hword.append hvalue).construct rfl)
    exact hplain.optional c

/-- The tail of a class spans what is read for it. -/
theorem classTail_spans : Spans text classTail := by
  apply Spans.enclosed
  intro c
  apply Leads.ahead typed_stays
  intro isTyped
  apply Leads.either ((field_spans _ _).optional _) (Spans.none _)
  intro generics _ hgenerics
  apply heritage_spans.seq
  intro clauses _ hclauses
  apply classBody_spans.seq
  intro b _ hb
  exact .pure ((hgenerics.append hclauses).append hb)

/-- A class expression spans what is read for it. -/
theorem classExpression_spans : Spans text classExpression := by
  intro c
  apply decorators_spans.seq
  intro decorators _ hdecorators
  apply (keyword_spans _).seq
  intro word _ hword
  apply Leads.ahead look_stays
  intro t
  apply Leads.either (Spans.none _) ((className_spans.inRole _).optional _)
  intro name _ hname
  apply classTail_spans.seq
  intro tail _ htail
  exact .pure ((((hdecorators.append hword).append hname).append htail).construct rfl)

/-- A class declaration spans what is read for it. -/
theorem classDeclaration_spans : Spans text classDeclaration := by
  intro c
  apply decorators_spans.seq
  intro decorators _ hdecorators
  apply Leads.ahead typed_stays
  intro isTyped
  apply Leads.either ((keyword_spans _).optional _) (Spans.none _)
  intro isAbstract _ hisAbstract
  apply (keyword_spans _).seq
  intro word _ hword
  apply className_spans.seq
  intro name _ hname
  apply classTail_spans.seq
  intro tail _ htail
  -- The parts in front of the body, as they are put together.
  have hhead := (hdecorators.append hisAbstract).append hword
  have hparts := (hhead.append (hname.inRole .name)).append htail
  apply Leads.cases
  · apply (lineEnd_spans _ _).optional.seq
    intro ending _ hending
    exact .pure ((hparts.append hending).construct rfl)
  · exact .pure (hparts.construct rfl)

/-- An interface declaration spans what is read for it. -/
theorem interfaceDeclaration_spans : Spans text interfaceDeclaration := by
  -- The interfaces that it extends, if there are some.
  have hbases : Spans text (optional do
      let word ← keyword "extends"
      let types ← enclosed (separated (punct ",") do return inRole .type (← namedType))
      return construct .extendsTypeClause (word ++ types)) :=
    .optional fun _ => (keyword_spans _).seq fun _ _ hword =>
      (Spans.separated (punct_spans _) (namedType_spans.inRole _)).enclosed.seq fun _ _ htypes =>
        .pure ((hword.append htypes).construct rfl)
  intro c
  apply (keyword_spans _).seq
  intro word _ hword
  apply (nameAs_spans rfl).seq
  intro name _ hname
  apply (field_spans _ _).optional.seq
  intro generics _ hgenerics
  apply hbases.seq
  intro bases _ hbases
  apply objectType_spans.seq
  intro members _ hmembers
  exact .pure (((((hword.append (hname.inRole _)).append hgenerics).append hbases).append
    ((hmembers.asKind rfl).inRole _)).construct rfl)

/-- An enum member spans what is read for it. -/
theorem enumMember_spans : Spans text enumMember := by
  intro c
  apply (field_spans _ _).seq
  intro name _ hname
  apply Leads.ahead (atPunct_stays _)
  intro isAssigned
  apply Leads.cases _ (.pure hname)
  apply (defaultValue_spans _).seq
  intro value _ hvalue
  exact .pure ((hname.append hvalue).construct rfl)

/-- An enum declaration spans what is read for it. -/
theorem enumDeclaration_spans : Spans text enumDeclaration := by
  intro c
  apply (keyword_spans _).optional.seq
  intro isConst _ hisConst
  apply (keyword_spans _).seq
  intro word _ hword
  apply identifier_spans.seq
  intro name _ hname
  apply (punct_spans _).seq
  intro opening _ hopening
  apply enumMember_spans.commaItems.enclosed.seq
  intro members _ hmembers
  apply (punct_spans _).seq
  intro closing _ hclosing
  -- The body is a construct of its own.
  have hb := ((hopening.append hmembers).append hclosing).construct (k := .enumBody) rfl
  exact .pure ((((hisConst.append hword).append (hname.inRole _)).append (hb.inRole _)).construct
    rfl)

/-! ## Modules -/

/-- An exported name spans what is read for it. -/
theorem exportedName_spans : Spans text exportedName := by
  intro c
  apply Leads.ahead typed_stays
  intro isTyped
  apply Leads.ahead (atWord_stays _)
  intro isDefault
  exact .cases (keyword_spans _ c) (.orElse (string_spans c) (wordAs_spans rfl c))

/-- A source of imports spans what is read for it. -/
theorem fromClause_spans : Spans text fromClause :=
  fun _ => (keyword_spans _).seq fun _ _ hword => string_spans.seq fun _ _ hsource =>
    .pure (hword.append (hsource.inRole _))

/-- An import attribute spans what is read for it. -/
theorem importAttribute_spans : Spans text importAttribute :=
  fun _ => ((keyword_spans _).orElse (keyword_spans _)).seq fun _ _ hword =>
    objectLiteral_spans.seq fun _ _ hwhat => .pure ((hword.append hwhat).construct rfl)

/-- A mark for types spans what is read for it. -/
theorem typeMark_spans : Spans text typeMark := by
  intro c
  apply Leads.ahead look_stays
  intro t
  split
  iterate 3
    · exact .failure
  · exact keyword_spans _ c
  · exact keyword_spans _ c
  · exact .failure

/-- A specifier spans what is read for it. -/
theorem specifier_spans (hk : k.isPlain = true) : Spans text (specifier k) := by
  -- A name that is marked as a type, and the alias behind a name.
  have hmarked : Spans text (do
      let mark ← typeMark
      let name ← exportedName
      return mark ++ inRole .name name) :=
    fun _ => typeMark_spans.seq fun _ _ hmark => exportedName_spans.seq fun _ _ hname =>
      .pure (hmark.append (hname.inRole _))
  have hrenamed : Spans text (optional do
      let word ← keyword "as"
      let taken ← exportedName
      return word ++ inRole .alias taken) :=
    .optional fun _ => (keyword_spans _).seq fun _ _ hword => exportedName_spans.seq
      fun _ _ htaken => .pure (hword.append (htaken.inRole _))
  exact fun _ => (hmarked.orElse (exportedName_spans.inRole _)).seq fun _ _ hhead =>
    hrenamed.seq fun _ _ hrenamed => .pure ((hhead.append hrenamed).construct hk)

/-- Specifiers in braces span what is read for them. -/
theorem specifiers_spans {item : Kind} (hk : k.isPlain = true) (hitem : item.isPlain = true) :
    Spans text (specifiers k item) :=
  fun _ => (punct_spans _).seq fun _ _ hopening =>
    (specifier_spans hitem).commaItems.enclosed.seq fun _ _ hitems =>
      (punct_spans _).seq fun _ _ hclosing =>
        .pure (((hopening.append hitems).append hclosing).construct hk)

/-- A namespace import spans what is read for it. -/
theorem namespaceImport_spans : Spans text namespaceImport :=
  fun _ => (punct_spans _).seq fun _ _ hstar => (keyword_spans _).seq fun _ _ hword =>
    identifier_spans.seq fun _ _ hname =>
      .pure (((hstar.append hword).append hname).construct rfl)

/-- An import clause spans what is read for it. -/
theorem importClause_spans : Spans text importClause := by
  -- Names in braces or a whole module, alone or behind a default.
  have hcollected : Spans text (namespaceImport <|> specifiers .namedImports .importSpecifier) :=
    namespaceImport_spans.orElse (specifiers_spans rfl rfl)
  have hnamed : Spans text (do
      let name ← identifier
      let more ← optional do
        let comma ← punct ","
        let rest ← namespaceImport <|> specifiers .namedImports .importSpecifier
        return comma ++ rest
      return name ++ more) :=
    fun _ => identifier_spans.seq fun _ _ hname => Spans.seq (.optional fun _ =>
      (punct_spans _).seq fun _ _ hcomma => hcollected.seq fun _ _ hrest =>
        .pure (hcomma.append hrest)) fun _ _ hmore => .pure (hname.append hmore)
  exact fun _ => (hcollected.orElse hnamed).seq fun _ _ hf => .pure (hf.construct rfl)

/-- An import by a call spans what is read for it. -/
theorem requireClause_spans : Spans text requireClause := by
  intro c
  apply identifier_spans.seq
  intro name _ hname
  apply (punct_spans _).seq
  intro eq _ heq
  apply (keyword_spans _).seq
  intro word _ hword
  apply (punct_spans _).seq
  intro opening _ hopening
  apply string_spans.seq
  intro source _ hsource
  apply (punct_spans _).seq
  intro closing _ hclosing
  exact .pure ((((((hname.append heq).append hword).append hopening).append
    (hsource.inRole _)).append hclosing).construct rfl)

/-- A name with qualifiers spans what is read for it. -/
theorem nestedName_spans : Spans text nestedName := by
  intro c
  apply identifier_spans.seq
  intro head _ hhead
  apply Leads.extend hhead
  intro object _ hobject
  apply (punct_spans _).seq
  intro dot _ hdot
  apply (wordAs_spans rfl).seq
  intro name _ hname
  exact .pure ((((hobject.inRole _).append hdot).append (hname.inRole _)).construct rfl)

/-- The import alias span what is read for them. -/
theorem importAlias_spans : Spans text importAlias :=
  fun _ => (keyword_spans _).seq fun _ _ hword => identifier_spans.seq fun _ _ hname =>
    (punct_spans _).seq fun _ _ heq => nestedName_spans.seq fun _ _ htarget =>
      (semicolon_spans _).seq fun _ _ hending =>
        .pure (((((hword.append hname).append heq).append htarget).append hending).construct rfl)

/-- An import statement spans what is read for it. -/
theorem importStatement_spans : Spans text importStatement := by
  -- What comes between the keyword and the attributes, without a mark and with one.
  have hclause : Spans text (do
      let what ← importClause
      let source ← fromClause
      return what ++ source) :=
    fun _ => importClause_spans.seq fun _ _ hwhat => fromClause_spans.seq fun _ _ hsource =>
      .pure (hwhat.append hsource)
  have hunmarked : ∀ isTyped : Bool, Spans text ((do return inRole .source (← string)) <|> (do
      let what ← importClause
      let source ← fromClause
      return what ++ source) <|> (if isTyped then requireClause else failure)) :=
    fun _ => (string_spans.inRole _).orElse (hclause.orElse fun c =>
      .cases (requireClause_spans c) .failure)
  have hmarked : Spans text (do
      if !(← typed) then failure
      let mark ← keyword "type" <|> keyword "typeof"
      let rest ← (do
        let what ← importClause
        let source ← fromClause
        return what ++ source) <|> requireClause
      return mark ++ rest) :=
    fun _ => .ahead typed_stays fun _ => .guard (((keyword_spans _).orElse (keyword_spans _)).seq
      fun _ _ hmark => (hclause.orElse requireClause_spans).seq fun _ _ hrest =>
        .pure (hmark.append hrest))
  intro c
  apply (keyword_spans _).seq
  intro word _ hword
  apply Leads.ahead typed_stays
  intro isTyped
  -- A marked import is tried when an unmarked one cannot be read.
  apply ((hunmarked isTyped).orElse hmarked).seq
  intro what _ hwhat
  apply importAttribute_spans.optional.seq
  intro attributes _ hattributes
  apply (semicolon_spans _).seq
  intro ending _ hending
  exact .pure ((((hword.append hwhat).append hattributes).append hending).construct rfl)

/-- A list of exported names spans what is read for it. -/
theorem exportedNames_spans : Spans text exportedNames := by
  -- The three forms: everything, everything under a name, and a list of names.
  have heverything : Spans text (do
      let star ← punct "*"
      let source ← fromClause
      return star ++ source) :=
    fun _ => (punct_spans _).seq fun _ _ hstar => fromClause_spans.seq fun _ _ hsource =>
      .pure (hstar.append hsource)
  have hnamed : Spans text (do
      let star ← punct "*"
      let word ← keyword "as"
      let name ← exportedName
      let source ← fromClause
      return construct .namespaceExport (star ++ word ++ name) ++ source) :=
    fun _ => (punct_spans _).seq fun _ _ hstar => (keyword_spans _).seq fun _ _ hword =>
      exportedName_spans.seq fun _ _ hname => fromClause_spans.seq fun _ _ hsource =>
        .pure ((((hstar.append hword).append hname).construct rfl).append hsource)
  have hlisted : Spans text (do
      let names ← specifiers .exportClause .exportSpecifier
      let source ← optional fromClause
      return names ++ source) :=
    fun _ => (specifiers_spans rfl rfl).seq fun _ _ hnames =>
      fromClause_spans.optional.seq fun _ _ hsource => .pure (hnames.append hsource)
  intro c
  apply Leads.ahead typed_stays
  intro isTyped
  -- The mark of exported types is read in the typed dialects only.
  apply Leads.either ((keyword_spans _).optional _) (Spans.none _)
  intro mark _ hmark
  apply (heverything.orElse (hnamed.orElse hlisted)).seq
  intro what _ hwhat
  apply importAttribute_spans.optional.seq
  intro attributes _ hattributes
  apply (semicolon_spans _).seq
  intro ending _ hending
  exact .pure (((hmark.append hwhat).append hattributes).append hending)

variable {declaration : Grammar Forest}

/-- A default export spans what is read for it. -/
theorem defaultExport_spans (hdeclaration : Spans text declaration) :
    Spans text (defaultExport declaration) := by
  have hvalue : Spans text (do
      let v ← field .value .expression
      let ending ← semicolon true
      return v ++ ending) :=
    fun _ => (field_spans _ _).seq fun _ _ hv => (semicolon_spans _).seq fun _ _ hending =>
      .pure (hv.append hending)
  exact fun _ => (keyword_spans _).seq fun _ _ hword =>
    ((hdeclaration.inRole _).orElse hvalue).seq fun _ _ hwhat => .pure (hword.append hwhat)

/-- An export of a whole module spans what is read for it. -/
theorem wholeExport_spans : Spans text wholeExport := by
  intro c
  apply Leads.ahead typed_stays
  intro isTyped
  apply Leads.guard
  -- An assignment to the module, or a name for it in the global scope.
  apply Leads.orElse
  · apply (punct_spans _).seq
    intro eq _ heq
    apply (call_spans _).seq
    intro v _ hv
    apply (semicolon_spans _).seq
    intro ending _ hending
    exact .pure ((heq.append hv).append hending)
  · apply (keyword_spans _).seq
    intro as_ _ has
    apply (keyword_spans _).seq
    intro word _ hword
    apply identifier_spans.seq
    intro name _ hname
    apply (semicolon_spans _).seq
    intro ending _ hending
    exact .pure (((has.append hword).append hname).append hending)

/-- Nothing but decorators stands there, and comments. -/
def OnlyDecorators (f : Forest) : Prop :=
  ∀ t ∈ f, t.isComment = true ∨ t.isKind .decorator = true

/-- Only decorators are read in front of a class. -/
theorem decorators_yields : Yields OnlyDecorators classDecorators := by
  have hone : Yields OnlyDecorators decorator :=
    .seq fun _ => .seq fun _ => .pure (construct_forall (fun _ => .inl) (.inr (by simp)))
  refine .many (.bind hone fun f hf => .pure fun t ht => ?_) nofun
    fun _ _ hf hg => List.forall_mem_append.mpr ⟨hf, hg⟩
  obtain ⟨u, hu, rfl⟩ := List.mem_map.mp ht
  split
  · exact hf u hu
  · simpa [Tree.isComment] using hf u hu

/-- Decorators and a keyword start what is read. -/
theorem startsWithHead {decorators word : Forest} {spelling : String}
    (hdecorators : OnlyDecorators decorators)
    (hword : OneToken (.token spelling) word)
    (hhead : ∀ start stop, (Tree.leaf (.token spelling) start stop).isHead = true)
    (what : Forest) : StartsWithHead (decorators ++ word ++ what) := by
  -- The keyword is behind comments alone, so it is what comes first if no decorator does.
  obtain ⟨comments, start, stop, hcomments, rfl⟩ := hword
  intro first hfirst
  have hnone : comments.find? (fun t => !t.isComment) = none :=
    List.find?_eq_none.mpr fun t ht => by simp [hcomments t ht]
  have hleaf : (Tree.leaf (.token spelling) start stop).isComment = false := rfl
  cases hd : decorators.find? (fun t => !t.isComment) with
  | none =>
    have hfirst : Tree.leaf (.token spelling) start stop = first := by
      simpa [List.find?_append, hd, hnone, hleaf] using hfirst
    exact hfirst ▸ hhead start stop
  | some t =>
    have hfirst : t = first := by simpa [List.find?_append, hd] using hfirst
    have hcomment := List.find?_some hd
    have hdecorator := (hdecorators t (List.mem_of_find?_eq_some hd)).resolve_left (by
      simpa using hcomment)
    rw [← hfirst, Tree.isHead, hdecorator]
    rfl

/-- An export statement spans what is read for it. -/
theorem exportStatement_spans (hdeclaration : Spans text declaration) :
    Spans text (exportStatement declaration) := by
  intro c
  apply ((decorators_spans c).and decorators_yields).bind fun _ _ h => h.1.next
  rintro decorators _ ⟨hdecorators, hall⟩
  apply ((keyword_spans _ _).and (keyword_yields _)).bind fun _ _ h => h.1.next
  rintro word _ ⟨hword, htoken⟩
  apply (exportedNames_spans.orElse ((defaultExport_spans hdeclaration).orElse
    (wholeExport_spans.orElse (hdeclaration.inRole _)))).seq
  intro what _ hwhat
  exact .pure (((hdecorators.append hword).append hwhat).wrap rfl
    (startsWithHead hall htoken (fun _ _ => rfl) what))

/-- A module declaration spans what is read for it. -/
theorem moduleDeclaration_spans : Spans text moduleDeclaration := by
  intro c
  apply Leads.ahead look_stays
  intro t
  -- Both keywords go on in the same way.
  have hrest : ∀ k : Kind, k.isPlain = true → ∀ word next, Span text c word next → Leads text (do
      let next ← look
      if next.lineBreak then failure
      let name ← string <|> nestedName
      let b ← if ← atPunct "\x7b" then body false else pure []
      return construct k (word ++ inRole .name name ++ b)) next (Span text c) := by
    intro k hk word next hword
    apply Leads.ahead look_stays
    intro t
    apply Leads.guard
    apply (string_spans.orElse nestedName_spans).seq
    intro name _ hname
    apply Leads.ahead (atPunct_stays _)
    intro hasBody
    apply Leads.either (body_spans _ _) (Spans.none _)
    intro b _ hb
    exact .pure (((hword.append (hname.inRole _)).append hb).construct hk)
  split
  · exact (keyword_spans _).seq (hrest .namespaceDeclaration rfl)
  · exact (keyword_spans _).seq (hrest .moduleDeclaration rfl)
  · exact .stop

/-- An ambient declaration spans what is read for it. -/
theorem ambientDeclaration_spans (hdeclaration : Spans text declaration) :
    Spans text (ambientDeclaration declaration) := by
  have hglobal : Spans text (do
      let g ← keyword "global"
      let b ← call (.block false)
      return g ++ b) :=
    fun _ => (keyword_spans _).seq fun _ _ hg => (call_spans _).seq fun _ _ hb =>
      .pure (hg.append hb)
  intro c
  apply ((keyword_spans _ _).and (keyword_yields _)).bind fun _ _ h => h.1.next
  rintro word _ ⟨hword, htoken⟩
  apply Leads.ahead look_stays
  intro t
  apply Leads.guard
  -- The keyword `declare` is the head of the statement.
  apply (hglobal.orElse hdeclaration).seq
  intro what _ hwhat
  have hhead : StartsWithHead ([] ++ word ++ what) :=
    startsWithHead (List.forall_mem_nil _) htoken (fun _ _ => rfl) what
  exact .pure ((hword.append hwhat).wrap rfl hhead)

end ScriptGraph.Syntax.Grammar
