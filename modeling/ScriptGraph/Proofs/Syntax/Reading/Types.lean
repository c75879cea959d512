import ScriptGraph.Proofs.Syntax.Reading.Rules

/-!
# What the rules for types and patterns read

Each rule is made of tokens, of other rules and of calls, and gathers what these read in the order
in which it has been read.
-/

namespace ScriptGraph.Syntax.Grammar

variable {text : List Char} {c next : Cursor} {f : Forest} {k : Kind}

/-! ## Types -/

/-- A type ascription spans what is read for it. -/
theorem typeAscription_spans : Spans text typeAscription :=
  fun _ => (punct_spans _).seq fun _ _ hcolon => (call_spans _).seq fun _ _ ht =>
    .pure ((hcolon.append ht).construct rfl)

/-- An annotation in its role, which may be missing. -/
theorem typed_ascription_spans : Spans text (optional do return inRole .type (← typeAscription)) :=
  (typeAscription_spans.inRole _).optional

/-- A type predicate spans what is read for it. -/
theorem predicate_spans : Spans text predicate := by
  -- The name of a predicate is `this` or an identifier.
  have hsubject : Spans text (do
      if ← atWord "this" then acceptAs (← look) .thisExpression else identifier) := by
    intro c
    apply Leads.ahead (atWord_stays _)
    intro isThis
    apply Leads.cases
    · apply Leads.look
      intro t ht
      exact ht.acceptAs rfl
    · exact identifier_spans c
  have htest : Spans text (do
      let name ← (do if ← atWord "this" then acceptAs (← look) .thisExpression else identifier)
      let t ← look
      if t.lineBreak then failure
      let is ← keyword "is"
      let type ← field .type .type
      return construct .typePredicate (inRole .name name ++ is ++ type)) := by
    intro c
    apply hsubject.seq
    intro name _ hname
    apply Leads.ahead look_stays
    intro t
    apply Leads.guard
    apply (keyword_spans _).seq
    intro is _ his
    apply (field_spans _ _).seq
    intro type _ htype
    exact .pure ((((hname.inRole _).append his).append htype).construct rfl)
  apply Spans.orElse _ htest
  -- With `asserts` in front, the test may be missing.
  intro c
  apply (keyword_spans _).seq
  intro word _ hword
  apply (htest.orElse hsubject).seq
  intro what _ hwhat
  exact .pure ((hword.append hwhat).construct rfl)

/-- An ascribed result type spans what is read for it. -/
theorem resultAscription_spans : Spans text resultAscription := by
  apply Spans.orElse _ typeAscription_spans
  intro c
  apply (punct_spans _).seq
  intro colon _ hcolon
  apply predicate_spans.seq
  intro p _ hp
  exact .pure ((hcolon.append hp).construct (by split <;> rfl))

/-- The type arguments span what is read for them. -/
theorem typeArguments_spans : Spans text typeArguments :=
  fun _ => (symbol_spans _).seq fun _ _ hopening =>
    (Spans.separated (punct_spans _) (call_spans _)).enclosed.seq fun _ _ htypes =>
      (symbol_spans _).seq fun _ _ hclosing =>
        .pure (((hopening.append htypes).append hclosing).construct rfl)

/-- A type parameter spans what is read for it. -/
theorem typeParameter_spans : Spans text typeParameter := by
  intro c
  apply Spans.seq (.many _)
  · intro modifiers _ hmodifiers
    apply (nameAs_spans rfl).seq
    intro name _ hname
    apply Spans.seq (.optional _)
    · intro bound _ hbound
      apply Spans.seq (.optional _)
      · intro preset _ hpreset
        exact .pure ((((hmodifiers.append (hname.inRole _)).append hbound).append hpreset).construct
          rfl)
      · exact fun _ => (punct_spans _).seq fun _ _ heq => (call_spans _).seq fun _ _ ht =>
          .pure (((heq.append ht).construct rfl).inRole _)
    · exact fun _ => (keyword_spans _).seq fun _ _ hword => (call_spans _).seq fun _ _ ht =>
        .pure (((hword.append ht).construct rfl).inRole _)
  · intro c
    -- Words in front of the name are modifiers if a name follows.
    apply Leads.look
    intro t ht
    split
    iterate 3
      split
      · exact ht.acceptWord _
      · exact .failure
    · exact .failure

/-- The type parameters span what is read for them. -/
theorem typeParameters_spans : Spans text typeParameters :=
  fun _ => (symbol_spans _).seq fun _ _ hopening =>
    (Spans.separated (punct_spans _) typeParameter_spans).enclosed.seq fun _ _ hparams =>
      (symbol_spans _).seq fun _ _ hclosing =>
        .pure (((hopening.append hparams).append hclosing).construct rfl)

/-- A type of functions spans what is read for it. -/
theorem arrowType_spans {before : Forest} (hbefore : Span text c before next) (result : Field)
    (hk : k.isPlain = true) : Leads text (arrowType result k before) next (Span text c) := by
  apply (field_spans _ _).optional.seq
  intro generics _ hgenerics
  apply (field_spans _ _).seq
  intro params _ hparams
  apply (punct_spans _).seq
  intro arrow _ harrow
  apply (predicate_spans.orElse (call_spans _)).seq
  intro t _ ht
  exact .pure (((((hbefore.append hgenerics).append hparams).append harrow).append
    (ht.inRole _)).construct hk)

/-- The type of a function starts with its parameters. -/
theorem functionType_spans : Spans text (arrowType .returnType .functionType []) := by
  intro c
  constructor
  intro rules hrules hc
  exact (arrowType_spans (.nil hc) _ rfl).of_read rules hrules hc

/-- A constructor type spans what is read for it. -/
theorem constructorType_spans : Spans text constructorType := by
  intro c
  apply (keyword_spans _).optional.seq
  intro isAbstract _ hisAbstract
  apply (keyword_spans _).seq
  intro new _ hnew
  exact arrowType_spans (hisAbstract.append hnew) _ rfl

/-- A query path spans what is read for it. -/
theorem queryPath_spans : Spans text queryPath := by
  intro c
  -- The path starts at a name, at `this` or at an import, and goes on by dots.
  refine Leads.seq (?head : Leads text _ c (Span text c)) ?path
  case head =>
    apply Leads.look
    intro t ht
    split
    · exact ht.acceptAs rfl
    · apply (ht.acceptAs rfl).seq
      intro callee _ hcallee
      apply (field_spans _ _).seq
      intro args _ hargs
      exact .pure (((hcallee.inRole _).append hargs).construct rfl)
    · exact identifier_spans c
  case path =>
    intro start _ hstart
    apply Leads.extend hstart
    intro object _ hobject
    apply ((punct_spans _).orElse (punct_spans _)).seq
    intro dot _ hdot
    apply Leads.look
    intro t ht
    apply Leads.either (ht.acceptAs rfl) (wordAs_spans rfl _)
    intro property _ hproperty
    exact .pure ((((hobject.inRole _).append hdot).append (hproperty.inRole _)).construct rfl)

/-- A type query spans what is read for it. -/
theorem typeQuery_spans : Spans text typeQuery := by
  intro c
  apply (keyword_spans _).seq
  intro word _ hword
  apply queryPath_spans.seq
  intro path _ hpath
  apply Leads.ahead look_stays
  intro t
  -- Type arguments may follow on the same line.
  apply Leads.either _ (.pure hpath)
  · intro full _ hfull
    exact .pure ((hword.append hfull).construct rfl)
  · apply Leads.orElse _ (.pure hpath)
    apply (field_spans _ _).seq
    intro args _ hargs
    exact .pure ((hpath.append hargs).construct rfl)

/-- Names that are put together to a path stand where they have stood. -/
theorem assemble_spread {start stop : Nat} (qualifier rest : Forest)
    (h : Spread text start stop (qualifier ++ rest)) :
    Spread text start stop (namedType.assemble qualifier rest) := by
  -- The path is put together from the left, name by name.
  fun_induction namedType.assemble qualifier rest with
  | case1 qualifier dot last =>
    obtain ⟨_, hqualifier, hrest⟩ := h.parts
    obtain ⟨_, hdot, hlast⟩ := Spread.parts (f := [dot]) hrest
    exact (((hqualifier.inRole _).append hdot).append ((hlast.asKind rfl).inRole _)).construct rfl
  | case2 qualifier dot name rest _ ih =>
    obtain ⟨_, hqualifier, hrest⟩ := h.parts
    obtain ⟨_, hdot, hrest⟩ := Spread.parts (f := [dot]) hrest
    obtain ⟨_, hname, hrest⟩ := Spread.parts (f := [name]) hrest
    apply ih
    exact ((((hqualifier.inRole _).append hdot).append ((hname.asKind rfl).inRole _)).construct
      rfl).append hrest
  | case3 qualifier rest _ _ => exact h.sublist (List.sublist_append_left _ _)

/-- A type that goes by its name spans what is read for it. -/
theorem namedType_spans : Spans text namedType := by
  intro c
  apply Leads.look
  intro t ht
  -- A path of names, and type arguments behind it.
  have hdots : Spans text (many do
      let dot ← punct "."
      let name ← wordAs .identifier
      return dot ++ name) :=
    .many fun _ => (punct_spans _).seq fun _ _ hdot => (wordAs_spans rfl).seq fun _ _ hname =>
      .pure (hdot.append hname)
  refine Leads.seq (?qualified : Leads text _ c (Span text c)) ?generic
  case qualified =>
    apply (ht.nameAs (k := .identifier) rfl nofun).bind
    · rintro _ _ ⟨name, rfl, hname, hspan⟩
      exact hspan.next
    rintro _ _ ⟨name, rfl, hname, hspan⟩
    apply hdots.seq
    intro dots last hdots
    have hpath := hspan.append hdots
    -- Without dots the path is its first name.
    apply Leads.cases
    · have hfirst : (t.comments ++ [name]).Sublist (t.comments ++ ([name] ++ dots)) :=
        (List.sublist_append_left _ _).append_left _
      exact .pure (((ht.before.append hpath).sublist hfirst).asKind rfl)
    · -- No comment is part of the path, and those in front stay there.
      have hplain : (t.comments ++ [name] ++ dots).filter (fun p => !p.isComment) =
          name :: dots.filter fun p => !p.isComment := by
        rw [List.append_assoc, ht.filter_append]
        simp [hname]
      have hparts : ([name] ++ dots.filter fun p => !p.isComment).Sublist ([name] ++ dots) :=
        List.filter_sublist.append_left _
      rw [hplain]
      exact .pure (ht.before.append
        ⟨assemble_spread [name] _ (hpath.spread.sublist hparts), hdots.next⟩)
  -- An angle bracket behind the name may be that of type arguments, or belong to what follows.
  case generic =>
    intro name _ hname
    apply Leads.ahead look_stays
    intro following
    apply Leads.cases _ (.pure hname)
    apply Leads.orElse _ (.pure hname)
    apply (field_spans _ _).seq
    intro args _ hargs
    exact .pure (((hname.inRole _).append hargs).construct rfl)

/-- A tuple member spans what is read for it. -/
theorem tupleMember_spans : Spans text tupleMember := by
  -- The forms of a member in the order in which they are tried.
  have hnamed : Spans text (do
      let name ← identifier
      let mark ← optional (punct "?")
      let type ← typeAscription
      return construct (if mark.isEmpty then .requiredParameter else .optionalParameter)
        (inRole .name name ++ mark ++ inRole .type type)) :=
    fun _ => identifier_spans.seq fun _ _ hname => (punct_spans _).optional.seq fun _ _ hmark =>
      typeAscription_spans.seq fun _ _ htype =>
        .pure ((((hname.inRole _).append hmark).append (htype.inRole _)).construct
          (by split <;> rfl))
  have hnamedRest : Spans text (do
      let dots ← punct "..."
      let name ← identifier
      let type ← typeAscription
      return construct .requiredParameter
        (inRole .name (construct .restPattern (dots ++ name)) ++ inRole .type type)) :=
    fun _ => (punct_spans _).seq fun _ _ hdots => identifier_spans.seq fun _ _ hname =>
      typeAscription_spans.seq fun _ _ htype =>
        .pure (((((hdots.append hname).construct rfl).inRole _).append (htype.inRole _)).construct
          rfl)
  have hrest : Spans text (do
      let dots ← punct "..."
      let t ← call .type
      return construct .restType (dots ++ t)) :=
    fun _ => (punct_spans _).seq fun _ _ hdots => (call_spans _).seq fun _ _ ht =>
      .pure ((hdots.append ht).construct rfl)
  apply hnamed.orElse
  apply hnamedRest.orElse
  apply hrest.orElse
  -- A plain type is left, which may be marked as optional.
  intro c
  apply (call_spans _).seq
  intro t _ ht
  apply (punct_spans _).optional.seq
  intro mark _ hmark
  apply Leads.pure
  have hboth := ht.append hmark
  split
  · exact hboth.sublist (List.sublist_append_left _ _)
  · exact hboth.construct rfl

/-- The text of a template and its substitutions. -/
theorem templateParts_spans (n : Nonterminal) (hk : k.isPlain = true) : Spans text (many do
    let c ← get
    let length := Scan.templateChars c.rest
    if length != 0 then
      let after := c.advance length
      set after
      return [Tree.leaf (.construct .stringFragment) c.offset after.offset]
    else if "$\x7b".toList.isPrefixOf c.rest then
      let after := c.advance 2
      set after
      let inner ← enclosed (call n)
      let closing ← punct "\x7d"
      return construct k (Tree.leaf (.token "$\x7b") c.offset after.offset :: inner ++ closing)
    else failure) := by
  apply Spans.many
  intro c
  apply Leads.get
  intro hc
  -- A fragment of the text, or a substitution.
  apply Leads.cases
  · have hfragment := Span.leafAs (k := .stringFragment) hc rfl (Scan.templateChars c.rest)
    apply Leads.set hfragment.next
    exact .pure hfragment
  apply Leads.cases
  · have hdollar := Span.token hc "$\x7b" 2
    apply Leads.set hdollar.next
    apply (call_spans _).enclosed.seq
    intro inner _ hinner
    apply (punct_spans _).seq
    intro closing _ hclosing
    exact .pure (((hdollar.append hinner).append hclosing).construct hk)
  · exact .failure

/-- A type of templates spans what is read for it. -/
theorem templateType_spans : Spans text templateType := by
  intro c
  apply (symbol_spans _).seq
  intro opening _ hopening
  apply (templateParts_spans .type (k := .templateType) rfl).seq
  intro parts next hparts
  apply Leads.get
  intro hnext
  split
  · apply Leads.set (hnext.advance 1)
    exact .pure (((hopening.append hparts).append (.token hnext _ 1)).construct rfl)
  · exact .failure

/-- A type that starts with a word spans what is read for it. -/
theorem wordType_spans {t : Token} (ht : Token.At text c t) (w : String) :
    Leads text (wordType t w) c (Span text c) := by
  unfold wordType
  -- The words with a meaning of their own; any other word is a name.
  split
  · exact typeQuery_spans c
  · apply Leads.orElse _ (namedType_spans c)
    apply (keyword_spans _).seq
    intro word _ hword
    apply (call_spans _).seq
    intro operand _ hoperand
    exact .pure ((hword.append hoperand).construct rfl)
  · apply Leads.orElse _ (namedType_spans c)
    apply (keyword_spans _).seq
    intro word _ hword
    apply (keyword_spans _).seq
    intro symbol _ hsymbol
    exact .pure ((hword.append hsymbol).construct rfl)
  · exact ht.acceptAs rfl
  iterate 4
    · apply (ht.acceptAs rfl).seq
      intro literal _ hliteral
      exact .pure (hliteral.construct rfl)
  · exact queryPath_spans c
  · exact ht.acceptWord _
  · exact ht.acceptAs rfl
  · exact .cases (ht.acceptAs rfl) (namedType_spans c)

/-- An atomic type spans what is read for it. -/
theorem atomicType_spans : Spans text atomicType := by
  intro c
  apply Leads.look
  intro t ht
  -- One case for each token that a type may start with.
  split
  · exact wordType_spans ht _
  · apply (ht.acceptAs rfl).seq
    intro literal _ hliteral
    exact .pure (hliteral.construct rfl)
  · apply (ht.acceptAs rfl).seq
    intro literal _ hliteral
    exact .pure (hliteral.construct rfl)
  -- Braces: the type of an object.
  · exact call_spans _ c
  -- Brackets: a tuple.
  · apply (punct_spans _).seq
    intro opening _ hopening
    apply tupleMember_spans.commaItems.enclosed.seq
    intro members _ hmembers
    apply (punct_spans _).seq
    intro closing _ hclosing
    exact .pure (((hopening.append hmembers).append hclosing).construct rfl)
  -- Parentheses around a type.
  · apply (punct_spans _).seq
    intro opening _ hopening
    apply (call_spans _).enclosed.seq
    intro inner _ hinner
    apply (punct_spans _).seq
    intro closing _ hclosing
    exact .pure (((hopening.append hinner).append hclosing).construct rfl)
  · exact templateType_spans c
  -- A negative number.
  · apply (punct_spans _).seq
    intro sign _ hsign
    apply number_spans.seq
    intro n _ hn
    exact .pure ((((hsign.inRole _).append (hn.inRole _)).construct rfl).construct rfl)
  · exact ht.acceptAs rfl
  · exact .failure

/-- A primary type spans what is read for it. -/
theorem primaryType_spans : Spans text primaryType := by
  intro c
  apply atomicType_spans.seq
  intro first _ hfirst
  apply Leads.extend hfirst
  intro base _ hbase
  apply Leads.ahead look_stays
  intro t
  apply Leads.ahead surroundings_stays
  intro s
  -- Brackets behind a type make it an array or an element of it.
  apply Leads.guard
  apply (punct_spans _).seq
  intro opening _ hopening
  apply (call_spans _).enclosed.optional.seq
  intro inner _ hinner
  apply (punct_spans _).seq
  intro closing _ hclosing
  exact .pure ((((hbase.append hopening).append hinner).append hclosing).construct
    (by split <;> rfl))

/-- An operand type spans what is read for it. -/
theorem operandType_spans : Spans text operandType := by
  intro c
  apply Leads.ahead look_stays
  intro t
  dsimp only
  -- The prefixes of a type, and the forms of function types.
  split
  -- Anywhere else than in front of a type, the word is a name.
  · apply Leads.cases _ (primaryType_spans c)
    apply (keyword_spans _).seq
    intro word _ hword
    apply primaryType_spans.seq
    intro operand _ hoperand
    exact .pure ((hword.append hoperand).construct rfl)
  · apply Leads.cases _ (primaryType_spans c)
    apply (keyword_spans _).seq
    intro word _ hword
    apply (nameAs_spans rfl).seq
    intro name _ hname
    apply Spans.seq (.optional _)
    · intro bound _ hbound
      exact .pure (((hword.append hname).append hbound).construct rfl)
    · exact fun _ => (keyword_spans _).seq fun _ _ hextends => (call_spans _).seq fun _ _ hbound =>
        .pure (hextends.append hbound)
  · exact constructorType_spans c
  · exact .cases (constructorType_spans c) (primaryType_spans c)
  · exact .orElse (functionType_spans c) (primaryType_spans c)
  · exact functionType_spans c
  · exact primaryType_spans c

/-- A type with operands that are joined spans what is read for it. -/
theorem joinedType_spans {operand : Grammar Forest} (hoperand : Spans text operand)
    (operator : String) (hk : k.isPlain = true) : Spans text (joinedType operator k operand) := by
  intro c
  apply (punct_spans _).optional.seq
  intro leading _ hleading
  apply hoperand.seq
  intro first next hfirst
  have hboth := hleading.append hfirst
  -- An operator in front of the first operand is taken in.
  have hstart : Span text c (if leading.isEmpty then first else construct k (leading ++ first))
      next := by
    split
    · exact hboth.sublist (List.sublist_append_right _ _)
    · exact hboth.construct hk
  apply Leads.extend hstart
  intro left _ hleft
  apply (punct_spans _).seq
  intro op _ hop
  apply hoperand.seq
  intro right _ hright
  exact .pure (((hleft.append hop).append hright).construct hk)

/-- A type spans what is read for it. -/
theorem anyType_spans : Spans text anyType := by
  have hjoined : Spans text
      (joinedType "|" .unionType (joinedType "&" .intersectionType operandType)) :=
    joinedType_spans (joinedType_spans operandType_spans _ rfl) _ rfl
  intro c
  apply hjoined.seq
  intro left _ hleft
  apply Leads.ahead look_stays
  intro t
  apply Leads.ahead surroundings_stays
  intro s
  -- A condition on the type may follow.
  apply Leads.cases _ (.pure hleft)
  apply Leads.orElse _ (.pure hleft)
  apply (keyword_spans _).seq
  intro word _ hword
  apply hjoined.seq
  intro right _ hright
  apply (punct_spans _).seq
  intro mark _ hmark
  apply (field_spans _ _).seq
  intro consequence _ hconsequence
  apply (punct_spans _).seq
  intro colon _ hcolon
  apply (field_spans _ _).seq
  intro alternative _ halternative
  exact .pure (((((((hleft.inRole _).append hword).append (hright.inRole _)).append hmark).append
    hconsequence).append hcolon).append halternative |>.construct rfl)

/-! ## Patterns -/

/-- A computed name spans what is read for it. -/
theorem computedName_spans : Spans text computedName :=
  fun _ => (punct_spans _).seq fun _ _ hopening => (call_spans _).enclosed.seq fun _ _ hinner =>
    (punct_spans _).seq fun _ _ hclosing =>
      .pure (((hopening.append hinner).append hclosing).construct rfl)

/-- A property name spans what is read for it. -/
theorem propertyName_spans : Spans text propertyName := by
  intro c
  apply Leads.look
  intro t ht
  split
  iterate 4
    · exact ht.acceptAs rfl
  · exact computedName_spans c
  · exact .failure

/-- A default value spans what is read for it. -/
theorem defaultValue_spans (role : Field) : Spans text (defaultValue role) :=
  fun _ => (punct_spans _).seq fun _ _ heq => (field_spans _ _).enclosed.seq fun _ _ hvalue =>
    .pure (heq.append hvalue)

/-- A pattern with default spans what is read for it. -/
theorem patternWithDefault_spans : Spans text patternWithDefault := by
  intro c
  apply (call_spans _).seq
  intro p _ hp
  apply Leads.ahead (atPunct_stays _)
  intro isPreset
  apply Leads.cases _ (.pure hp)
  apply (defaultValue_spans _).seq
  intro preset _ hpreset
  exact .pure (((hp.inRole _).append hpreset).construct rfl)

/-- A rest pattern spans what is read for it. -/
theorem restPattern_spans : Spans text restPattern :=
  fun _ => (punct_spans _).seq fun _ _ hdots => (call_spans _).seq fun _ _ hp =>
    .pure ((hdots.append hp).construct rfl)

/-- An object pattern member spans what is read for it. -/
theorem objectPatternMember_spans : Spans text objectPatternMember := by
  -- A member that is renamed, before names that stand for themselves.
  have hrenamed : Spans text (do
      let key ← call .propertyName
      let colon ← punct ":"
      let value ← patternWithDefault
      return construct .pairPattern (inRole .key key ++ colon ++ inRole .value value)) :=
    fun _ => (call_spans _).seq fun _ _ hkey => (punct_spans _).seq fun _ _ hcolon =>
      patternWithDefault_spans.seq fun _ _ hvalue =>
        .pure ((((hkey.inRole _).append hcolon).append (hvalue.inRole _)).construct rfl)
  apply restPattern_spans.orElse
  apply hrenamed.orElse
  intro c
  apply (nameAs_spans rfl).seq
  intro name _ hname
  apply Leads.ahead (atPunct_stays _)
  intro isPreset
  apply Leads.cases _ (.pure hname)
  apply (defaultValue_spans _).seq
  intro preset _ hpreset
  exact .pure (((hname.inRole _).append hpreset).construct rfl)

/-- A destructuring pattern spans what is read for it. -/
theorem destructuring_spans : Spans text destructuring := by
  intro c
  apply Leads.ahead look_stays
  intro t
  -- The braces or brackets decide.
  split
  · apply (punct_spans _).seq
    intro opening _ hopening
    apply objectPatternMember_spans.commaItems.enclosed.seq
    intro members _ hmembers
    apply (punct_spans _).seq
    intro closing _ hclosing
    exact .pure (((hopening.append hmembers).append hclosing).construct rfl)
  · apply (punct_spans _).seq
    intro opening _ hopening
    apply (restPattern_spans.orElse patternWithDefault_spans).sparseItems.enclosed.seq
    intro items _ hitems
    apply (punct_spans _).seq
    intro closing _ hclosing
    exact .pure (((hopening.append hitems).append hclosing).construct rfl)
  · exact .failure

/-- A pattern spans what is read for it. -/
theorem pattern_spans : Spans text pattern := by
  intro c
  apply Leads.look
  intro t ht
  apply Leads.cases (ht.acceptAs rfl)
  exact .orElse (destructuring_spans c) (.orElse (restPattern_spans c) (identifier_spans c))

end ScriptGraph.Syntax.Grammar
