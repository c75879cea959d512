import ScriptGraph.Proofs.Syntax.Reading.Types

/-!
# What the rules for functions and expressions read

What extends an expression is read behind it, and takes it over as a part.
-/

namespace ScriptGraph.Syntax.Grammar

variable {text : List Char} {c next : Cursor} {f : Forest} {k : Kind}

/-! ## Functions -/

/-- A decorator spans what is read for it. -/
theorem decorator_spans : Spans text decorator := by
  have htarget : Spans text (do
      if ← atPunct "(" then
        let opening ← punct "("
        let inner ← enclosed (call .expression)
        let closing ← punct ")"
        return construct .parenthesizedExpression (opening ++ inner ++ closing)
      else
        let head ← identifier
        extend head fun object => do
          let t ← look
          if t.lexeme == .punct "." then
            let dot ← punct "."
            let name ← wordAs .propertyIdentifier
            return construct .memberExpression
              (inRole .object object ++ dot ++ inRole .property name)
          else
            let generics ← optional (field .typeArguments .typeArguments)
            if ← atPunct "(" then
              let args ← field .arguments .arguments
              return construct .callExpression (inRole .callee object ++ generics ++ args)
            else failure) := by
    -- An expression in parentheses, or a name with members and calls behind it.
    intro c
    apply Leads.ahead (atPunct_stays _)
    intro isComputed
    apply Leads.cases
    · apply (punct_spans _).seq
      intro opening _ hopening
      apply (call_spans _).enclosed.seq
      intro inner _ hinner
      apply (punct_spans _).seq
      intro closing _ hclosing
      exact .pure (((hopening.append hinner).append hclosing).construct rfl)
    · apply identifier_spans.seq
      intro head _ hhead
      -- Members and calls are read as long as any follow, each around what is there already.
      apply Leads.extend hhead
      intro object _ hobject
      apply Leads.ahead look_stays
      intro t
      apply Leads.cases
      · apply (punct_spans _).seq
        intro dot _ hdot
        apply (wordAs_spans rfl).seq
        intro name _ hname
        exact .pure ((((hobject.inRole _).append hdot).append (hname.inRole _)).construct rfl)
      · apply (field_spans _ _).optional.seq
        intro generics _ hgenerics
        apply Leads.ahead (atPunct_stays _)
        intro isCall
        apply Leads.cases _ .failure
        apply (field_spans _ _).seq
        intro args _ hargs
        exact .pure ((((hobject.inRole _).append hgenerics).append hargs).construct rfl)
  intro c
  -- The decorator is solid as its sign is.
  apply (punct_filled _).fill
  intro sign _ hsign hsolid
  apply htarget.seq
  intro what _ hwhat
  exact .pure ((hsign.append hwhat).member rfl (hsolid.append_left what))

/-- The decorators span what is read for them. -/
theorem decorators_spans : Spans text (many do return inRole .decorator (← decorator)) :=
  (decorator_spans.inRole _).many

/-- A parameter modifier spans what is read for it. -/
theorem parameterModifier_spans : Spans text parameterModifier := by
  intro c
  apply Leads.look
  intro t ht
  -- The modifiers are known by the words in front of which they stand.
  split
  · apply Leads.cases
    · apply (ht.acceptWord _).seq
      intro word _ hword
      exact .pure (hword.construct rfl)
    apply Leads.cases
    · apply (ht.acceptWord _).seq
      intro word _ hword
      exact .pure (hword.construct rfl)
    · exact .cases (ht.acceptWord _) .failure
  · exact .failure

/-- A typed parameter spans what is read for it. -/
theorem typedParameter_spans : Spans text typedParameter := by
  intro c
  apply decorators_spans.seq
  intro decorators _ hdecorators
  apply parameterModifier_spans.many.seq
  intro modifiers _ hmodifiers
  apply Leads.look
  intro t ht
  -- A name may be a keyword here, anything else is a pattern.
  apply Leads.either (ht.acceptAs rfl) (call_spans _ _)
  intro p _ hp
  apply (punct_spans _).optional.seq
  intro mark _ hmark
  apply typed_ascription_spans.seq
  intro type _ htype
  apply (defaultValue_spans _).optional.seq
  intro preset _ hpreset
  exact .pure ((((((hdecorators.append hmodifiers).append (hp.inRole _)).append hmark).append
    htype).append hpreset).construct (by split <;> rfl))

/-- The parameters span what is read for them. -/
theorem parameters_spans : Spans text parameters := by
  intro c
  apply (punct_spans _).seq
  intro opening _ hopening
  apply Leads.ahead typed_stays
  intro isTyped
  -- Which items there are depends on the dialect.
  have hitem :
      Spans text (if isTyped then typedParameter else restPattern <|> patternWithDefault) := by
    split
    · exact typedParameter_spans
    · exact restPattern_spans.orElse patternWithDefault_spans
  apply hitem.commaItems.enclosed.seq
  intro items _ hitems
  apply (punct_spans _).seq
  intro closing _ hclosing
  exact .pure (((hopening.append hitems).append hclosing).construct rfl)

/-- A signature of a function spans what is read for it. -/
theorem signature_spans : Spans text signature := by
  intro c
  apply Leads.ahead typed_stays
  intro isTyped
  apply Leads.either ((field_spans _ _).optional _) (Spans.none _)
  intro generics _ hgenerics
  apply (field_spans _ _).seq
  intro params _ hparams
  apply Leads.ahead typed_stays
  intro hasResult
  apply Leads.either ((resultAscription_spans.inRole _).optional _) (Spans.none _)
  intro result _ hresult
  exact .pure ((hgenerics.append hparams).append hresult)

/-- A body spans what is read for it. -/
theorem body_spans (inExpression : Bool) : Spans text (body inExpression) :=
  field_spans _ _

/-- A function expression spans what is read for it. -/
theorem functionExpression_spans : Spans text functionExpression := by
  intro c
  apply (keyword_spans _).optional.seq
  intro isAsync _ hisAsync
  apply (keyword_spans _).seq
  intro word _ hword
  apply (punct_spans _).optional.seq
  intro star _ hstar
  apply (identifier_spans.inRole _).optional.seq
  intro name _ hname
  apply signature_spans.enclosed.seq
  intro sig _ hsig
  apply (body_spans _).seq
  intro b _ hb
  -- The star decides which kind of function it is; both kinds span the same.
  exact .pure ((((((hisAsync.append hword).append hstar).append hname).append hsig).append
    hb).construct (by split <;> rfl))

/-- An arrow body spans what is read for it. -/
theorem arrowBody_spans (isBlock : Bool) : Spans text (arrowBody isBlock) := by
  intro c
  apply (punct_spans _).seq
  intro arrow _ harrow
  apply Leads.ahead (atPunct_stays _)
  intro isBrace
  apply Leads.guard
  -- A block, if the braces are read as one, or an expression.
  apply Leads.cases
  · apply (body_spans _).seq
    intro b _ hb
    exact .pure (harrow.append hb)
  · apply (field_spans _ _).seq
    intro value _ hvalue
    exact .pure (harrow.append hvalue)

/-- An arrow with a single name spans what is read for it. -/
theorem simpleArrow_spans (isBlock : Bool) : Spans text (simpleArrow isBlock) := by
  intro c
  apply Spans.seq (.optional _)
  -- The name may have `async` in front of it, on the same line.
  · intro isAsync _ hisAsync
    apply identifier_spans.seq
    intro name _ hname
    apply (arrowBody_spans _).seq
    intro rest _ hrest
    exact .pure (((hisAsync.append (hname.inRole _)).append hrest).construct rfl)
  · intro c
    apply Leads.ahead look_stays
    intro t
    split
    · exact .cases .failure (keyword_spans _ c)
    · exact .failure

/-- An arrow with a list of parameters spans what is read for it. -/
theorem fullArrow_spans (isBlock : Bool) : Spans text (fullArrow isBlock) := by
  intro c
  apply (keyword_spans _).optional.seq
  intro isAsync _ hisAsync
  apply Leads.ahead typed_stays
  intro isTyped
  -- Type parameters, and later on a result, are for typed dialects.
  apply Leads.either ((field_spans _ _).optional _) (Spans.none _)
  intro generics _ hgenerics
  apply (field_spans _ _).seq
  intro params _ hparams
  apply Leads.ahead typed_stays
  intro isTyped
  apply Leads.ahead surroundings_stays
  intro s
  apply Leads.either ((resultAscription_spans.inRole _).optional _) (Spans.none _)
  intro result _ hresult
  apply (arrowBody_spans _).seq
  intro rest _ hrest
  exact .pure (((((hisAsync.append hgenerics).append hparams).append hresult).append
    hrest).construct rfl)

/-- A method modifier spans what is read for it. -/
theorem methodModifier_spans (allowed : List String) : Spans text (methodModifier allowed) := by
  intro c
  apply Leads.look
  intro t ht
  apply Leads.cases (ht.acceptWord _)
  -- Words for accessors are modifiers only in front of a name.
  split
  · apply Leads.cases .failure
    apply Leads.cases
    · apply (ht.acceptWord _).seq
      intro word _ hword
      exact .pure (hword.construct rfl)
    apply Leads.cases
    · apply (ht.acceptWord _).seq
      intro word _ hword
      exact .pure (hword.construct rfl)
    · exact ht.acceptWord _
  · exact .failure

/-- An object method spans what is read for it. -/
theorem objectMethod_spans : Spans text objectMethod := by
  intro c
  apply (methodModifier_spans _).many.seq
  intro modifiers _ hmodifiers
  apply (fieldName_filled _).fill
  intro name _ hname hsolid
  apply signature_spans.enclosed.seq
  intro sig _ hsig
  apply (body_spans _).seq
  intro b _ hb
  exact .pure ((((hmodifiers.append hname).append hsig).append hb).member rfl
    (((hsolid.append_right modifiers).append_left sig).append_left b))

/-- `...value` in a list or between braces. -/
theorem spread_spans : Spans text (do
    let dots ← punct "..."
    let value ← call .expression
    return construct .spreadElement (dots ++ value)) :=
  fun _ => (punct_spans _).seq fun _ _ hdots => (call_spans _).seq fun _ _ hvalue =>
    .pure ((hdots.append hvalue).construct rfl)

/-- An object member spans what is read for it. -/
theorem objectMember_spans : Spans text objectMember := by
  have hpair : Spans text (do
      let key ← field .key .propertyName
      let colon ← punct ":"
      let value ← field .value .expression
      return construct .pair (key ++ colon ++ value)) :=
    fun _ => (field_spans _ _).seq fun _ _ hkey => (punct_spans _).seq fun _ _ hcolon =>
      (field_spans _ _).seq fun _ _ hvalue =>
        .pure (((hkey.append hcolon).append hvalue).construct rfl)
  apply spread_spans.orElse
  apply hpair.orElse
  apply objectMethod_spans.orElse
  intro c
  apply Leads.look
  -- What is left is a name by itself, with or without a default value.
  intro t ht
  apply (ht.nameAs (k := .shorthandPropertyIdentifier) rfl nofun).bind
    fun _ _ ⟨_, _, _, h⟩ => h.next
  rintro _ _ ⟨name, rfl, hname, hspan⟩
  apply Leads.ahead (atPunct_stays _)
  intro isPreset
  apply Leads.cases
  · -- The comments in front stay outside of the construct.
    have hplain : (t.comments ++ [name]).filter (fun p => !p.isComment) = [name] := by
      rw [ht.filter_append]
      simp [hname]
    apply (defaultValue_spans _).seq
    intro preset _ hpreset
    rw [hplain]
    exact .pure (ht.before.append
      ((((hspan.asKind rfl).inRole _).append hpreset).construct rfl))
  · exact .pure (ht.before.append hspan)

/-- An object literal spans what is read for it. -/
theorem objectLiteral_spans : Spans text objectLiteral :=
  fun _ => (punct_spans _).seq fun _ _ hopening =>
    objectMember_spans.sparseItems.enclosed.seq fun _ _ hmembers =>
      (punct_spans _).seq fun _ _ hclosing =>
        .pure (((hopening.append hmembers).append hclosing).construct rfl)

/-! ## Markup -/

/-- A word in markup spans what is read for it. -/
theorem markupWord_spans (hk : k.isPlain = true) : Spans text (markupWord k) := by
  intro c
  apply Leads.get
  intro hc
  have hbefore := Span.skipTrivia hc
  apply Leads.guard
  have hword := Span.leafAs hbefore.next hk (Scan.markupName c.skipTrivia.here.rest)
  apply Leads.set hword.next
  exact .pure (hbefore.append hword)

/-- An element name spans what is read for it. -/
theorem elementName_spans : Spans text elementName := by
  intro c
  apply (markupWord_spans rfl).seq
  intro head _ hhead
  apply Leads.ahead (atPunct_stays _)
  intro isQualified
  -- Names go on with a colon or with dots, never with both.
  apply Leads.cases
  · apply (punct_spans _).seq
    intro colon _ hcolon
    apply (markupWord_spans rfl).seq
    intro name _ hname
    exact .pure (((hhead.append hcolon).append hname).construct rfl)
  · apply Leads.extend hhead
    intro object _ hobject
    apply (punct_spans _).seq
    intro dot _ hdot
    apply (wordAs_spans rfl).seq
    intro name _ hname
    exact .pure ((((hobject.inRole _).append hdot).append (hname.inRole _)).construct rfl)

/-- An expression in markup spans what is read for it. -/
theorem markupExpression_spans : Spans text markupExpression :=
  fun _ => (punct_spans _).seq fun _ _ hopening =>
    (spread_spans.orElse (call_spans _)).optional.enclosed.seq fun _ _ hinner =>
      (punct_spans _).seq fun _ _ hclosing =>
        .pure (((hopening.append hinner).append hclosing).construct rfl)

/-- An attribute spans what is read for it. -/
theorem attribute_spans : Spans text attribute_ := by
  intro c
  apply Leads.seq (Leads.orElse _ (markupExpression_spans c))
  · intro what _ hwhat
    exact .pure (hwhat.inRole _)
  · apply (markupWord_spans rfl).seq
    intro name _ hname
    apply Leads.ahead (atPunct_stays _)
    intro isQualified
    -- A value may follow whichever form the name has.
    have hfull : ∀ full next, Span text c full next → Leads text (do
        let value ← optional do
          let eq ← punct "="
          let v ← string <|> markupExpression <|> call .markup
          return eq ++ v
        return construct .jsxAttribute (full ++ value)) next (Span text c) := by
      intro full _ hfull
      apply Spans.seq (.optional _)
      · intro value _ hvalue
        exact .pure ((hfull.append hvalue).construct rfl)
      · intro c
        apply (punct_spans _).seq
        intro eq _ heq
        apply (string_spans.orElse (markupExpression_spans.orElse (call_spans _))).seq
        intro v _ hv
        exact .pure (heq.append hv)
    -- The name by itself, or behind a namespace and a colon.
    apply Leads.cases
    · apply (punct_spans _).seq
      intro colon _ hcolon
      apply (markupWord_spans rfl).seq
      intro local_ _ hlocal
      exact hfull _ _ ((((hname.asKind rfl).append hcolon).append hlocal).construct rfl)
    · exact hfull _ _ hname

/-- A text in markup spans what is read for it. -/
theorem markupText_spans : Spans text markupText := by
  intro c
  apply Leads.get
  intro hc
  have hread : ∀ {k : Kind} (n : Nat), k.isPlain = true → Leads text (do
      let after := c.advance n
      set after
      return [Tree.leaf (.construct k) c.offset after.offset]) c (Span text c) :=
    fun n hk => .set (hc.advance n) (.pure (.leafAs hc hk n))
  apply Leads.cases (hread _ rfl)
  apply Leads.cases (hread _ rfl)
  exact .cases (hread _ rfl) .failure

/-- A closing tag spans what is read for it. -/
theorem closingTag_spans : Spans text closingTag :=
  fun _ => (symbol_spans _).seq fun _ _ hopening => (symbol_spans _).seq fun _ _ hslash =>
    (elementName_spans.inRole _).optional.seq fun _ _ hname =>
      (symbol_spans _).seq fun _ _ hclosing =>
        .pure ((((hopening.append hslash).append hname).append hclosing).construct rfl)

/-- An element spans what is read for it. -/
theorem element_spans : Spans text element := by
  intro c
  apply (symbol_spans _).seq
  intro opening _ hopening
  apply (elementName_spans.inRole _).optional.seq
  intro name _ hname
  apply Leads.ahead typed_stays
  intro isTyped
  apply Leads.either ((field_spans _ _).optional _) (Spans.none _)
  intro generics _ hgenerics
  -- Attributes belong to a named element; a fragment has none.
  apply Leads.either (Spans.none _) (attribute_spans.many.enclosed _)
  intro attributes _ hattributes
  apply (symbol_spans _).optional.seq
  intro slash _ hslash
  apply (symbol_spans _).seq
  intro closing _ hclosing
  have htag := ((hopening.append hname).append hgenerics).append hattributes
  -- The element ends at once or goes on to its closing tag.
  apply Leads.cases
  · exact .pure (((htag.append hslash).append hclosing).construct rfl)
  · have hopened := (((htag.append hslash).append hclosing).sublist
      ((List.sublist_append_left _ slash).append_right closing)).construct
        (k := .jsxOpeningElement) rfl
    apply Spans.seq (.many _)
    · intro inner _ hinner
      apply closingTag_spans.seq
      intro closed _ hclosed
      exact .pure ((((hopened.inRole _).append hinner).append (hclosed.inRole _)).construct rfl)
    · intro c
      apply Leads.get
      intro _
      apply Leads.guard
      exact .orElse (markupText_spans c) (.orElse (markupExpression_spans c) (call_spans _ c))

/-! ## Expressions -/

/-- An argument list spans what is read for it. -/
theorem argumentList_spans : Spans text argumentList :=
  fun _ => (punct_spans _).seq fun _ _ hopening =>
    (spread_spans.orElse (call_spans _)).sparseItems.enclosed.seq fun _ _ hitems =>
      (punct_spans _).seq fun _ _ hclosing =>
        .pure (((hopening.append hitems).append hclosing).construct rfl)

/-- A template literal spans what is read for it. -/
theorem templateLiteral_spans : Spans text templateLiteral := by
  intro c
  apply (symbol_spans _).seq
  intro opening _ hopening
  apply (templateParts_spans .expressions (k := .templateSubstitution) rfl).seq
  intro parts next hparts
  apply Leads.get
  intro hnext
  split
  · apply Leads.set (hnext.advance 1)
    exact .pure (((hopening.append hparts).append (.token hnext _ 1)).construct rfl)
  · exact .failure

/-- A regular expression spans what is read for it. -/
theorem regex_spans : Spans text regex := by
  intro c
  apply (symbol_spans _).seq
  intro opening next hopening
  apply Leads.get
  intro hnext
  split
  · exact .failure
  · rename_i n _
    -- Pattern and flags are read by characters, not by tokens.
    have hpattern := Span.leafAs (k := .regexPattern) hnext rfl n
    have hslash := Span.token hpattern.next "/" 1
    let after := (next.advance n).advance 1
    let flagged := after.advance (after.rest.takeWhile Char.isAlpha).length
    let leaf := Tree.leaf (.construct .regexFlags) after.offset flagged.offset
    have hflags : Span text after
        (if flagged.offset == after.offset then [] else inRole .flags [leaf]) flagged := by
      have hall := Span.leafAs (k := .regexFlags) hslash.next rfl
        (after.rest.takeWhile Char.isAlpha).length
      split
      · exact hall.sublist (List.nil_sublist _)
      · exact hall.inRole _
    apply Leads.set hflags.next
    have hparts := ((hopening.append (hpattern.inRole .pattern)).append hslash).append hflags
    exact .pure (hparts.construct rfl)

/-- An expression in parentheses spans what is read for it. -/
theorem parenthesized_spans : Spans text parenthesized := by
  intro c
  apply (punct_spans _).seq
  intro opening _ hopening
  apply (call_spans _).enclosed.seq
  intro inner _ hinner
  apply Leads.ahead typed_stays
  intro isTyped
  apply Leads.either (typed_ascription_spans _) (Spans.none _)
  intro type _ htype
  apply (punct_spans _).seq
  intro closing _ hclosing
  exact .pure ((((hopening.append hinner).append htype).append hclosing).construct rfl)

/-- An array literal spans what is read for it. -/
theorem arrayLiteral_spans : Spans text arrayLiteral :=
  fun _ => (punct_spans _).seq fun _ _ hopening =>
    (spread_spans.orElse (call_spans _)).sparseItems.enclosed.seq fun _ _ hitems =>
      (punct_spans _).seq fun _ _ hclosing =>
        .pure (((hopening.append hitems).append hclosing).construct rfl)

/-- An import expression spans what is read for it. -/
theorem importExpression_spans {t : Token} (ht : Token.At text c t) :
    Leads text (importExpression t) c (Span text c) := by
  apply Leads.cases _ (ht.acceptAs rfl)
  apply (keyword_spans _).seq
  intro word _ hword
  apply (punct_spans _).seq
  intro dot _ hdot
  apply (keyword_spans _).seq
  intro name _ hname
  exact .pure (((hword.append hdot).append hname).construct rfl)

/-- An atom spans what is read for it. -/
theorem atom_spans : Spans text atom := by
  intro c
  apply Leads.look
  intro t ht
  -- One case for each token that an atom may start with.
  split
  · split
    iterate 6
      · exact ht.acceptAs rfl
    · exact functionExpression_spans c
    · exact call_spans _ c
    · exact importExpression_spans ht
    · exact .cases (functionExpression_spans c) (ht.acceptAs rfl)
    · exact identifier_spans c
  · exact ht.acceptAs rfl
  · exact ht.acceptAs rfl
  · exact parenthesized_spans c
  · exact arrayLiteral_spans c
  · exact objectLiteral_spans c
  · exact templateLiteral_spans c
  · exact regex_spans c
  · exact regex_spans c
  · exact call_spans _ c
  · apply Leads.ahead surroundings_stays
    intro s
    exact .cases (call_spans _ c) .failure
  · exact .failure

/-! ### What extends an expression -/

/-- The mark of an optional chain spans what is read for it. -/
theorem optionalChain_spans {t : Token} (ht : Token.At text c t) :
    Leads text (do return inRole .optionalChain (← acceptAs t .optionalChain)) next
      (Span text c) := by
  apply (ht.acceptAs rfl).seq
  intro chain _ hchain
  exact .pure (hchain.inRole _)

variable {first : Cursor} {base : Forest}

section Extends

variable (hbase : Span text first base c)
include hbase

/-- A member access spans what is read for it. -/
theorem memberOf_spans : Leads text (memberOf base) c (Span text first) := by
  apply Leads.look
  intro t ht
  -- The two ways to reach a member go on alike.
  have hrest : ∀ dot next, Span text c dot next → Leads text (do
      let name ← look
      let property ← if name.lexeme == .privateName then acceptAs name .privatePropertyIdentifier
        else wordAs .propertyIdentifier
      return construct .memberExpression (inRole .object base ++ dot ++ inRole .property property))
      next (Span text first) := by
    intro dot next hdot
    apply Leads.look
    intro name hname
    apply Leads.either (hname.acceptAs rfl) (wordAs_spans rfl _)
    intro property _ hproperty
    exact .pure ((((hbase.inRole _).append hdot).append (hproperty.inRole _)).construct rfl)
  dsimp only
  split
  · exact (punct_spans _).seq hrest
  · exact (optionalChain_spans ht).seq hrest
  · exact .stop

/-- An element access spans what is read for it. -/
theorem elementOf_spans : Leads text (elementOf base) c (Span text first) := by
  apply Leads.look
  intro t ht
  apply Leads.either (optionalChain_spans ht) (Spans.none _)
  intro chain _ hchain
  apply (punct_spans _).seq
  intro opening _ hopening
  apply (field_spans _ _).enclosed.seq
  intro index _ hindex
  apply (punct_spans _).seq
  intro closing _ hclosing
  exact .pure (((((hbase.inRole _).append hchain).append hopening).append hindex).append
    hclosing |>.construct rfl)

/-- A call with type arguments spans what is read for it. -/
theorem genericCallOf_spans : Leads text (genericCallOf base) c (Span text first) := by
  apply (field_spans _ _).seq
  intro generics _ hgenerics
  apply Leads.ahead look_stays
  intro t
  apply Leads.cases
  · apply (field_spans _ _).seq
    intro args _ hargs
    exact .pure ((((hbase.inRole _).append hgenerics).append hargs).construct rfl)
  · exact .cases (.pure ((hbase.append hgenerics).construct rfl)) .failure

/-- What trails an expression spans what is read for it. -/
theorem trailerOf_spans (calls : Bool) :
    Leads text (trailerOf calls base) c (Span text first) := by
  apply Leads.look
  intro t ht
  -- The trailers by the token they start with: members, calls, elements, templates and assertions.
  split
  · exact memberOf_spans hbase
  · apply Leads.guard
    apply Leads.cases (elementOf_spans hbase)
    apply Leads.cases _ (memberOf_spans hbase)
    apply Leads.ahead typed_stays
    intro isTyped
    -- The question mark is a token in the typed dialects and a construct in the plain ones.
    apply Leads.either (punct_spans _ _) (optionalChain_spans ht)
    intro chain _ hchain
    apply (field_spans _ _).optional.seq
    intro generics _ hgenerics
    apply (field_spans _ _).seq
    intro args _ hargs
    exact .pure (((((hbase.inRole _).append hchain).append hgenerics).append hargs).construct rfl)
  · exact elementOf_spans hbase
  · apply Leads.guard
    apply (field_spans _ _).seq
    intro args _ hargs
    exact .pure (((hbase.inRole _).append hargs).construct rfl)
  · apply Leads.guard
    apply templateLiteral_spans.seq
    intro args _ hargs
    exact .pure (((hbase.inRole _).append (hargs.inRole _)).construct rfl)
  · apply Leads.ahead typed_stays
    intro isTyped
    apply Leads.ahead surroundings_stays
    intro s
    apply Leads.guard
    apply (punct_spans _).seq
    intro mark _ hmark
    exact .pure ((hbase.append hmark).construct rfl)
  -- Type arguments may be opened by one angle bracket or by two that are read as one sign.
  iterate 2
    · apply Leads.ahead typed_stays
      intro isTyped
      exact .guard (genericCallOf_spans hbase)
  · exact .failure

/-- A call spans what is read for it. -/
theorem calledOf_spans : Leads text (calledOf base) c (Span text first) := by
  apply (field_spans _ _).optional.seq
  intro args _ hargs
  apply Leads.pure
  split
  · exact (hbase.append hargs).sublist (List.sublist_append_left _ _)
  · exact ((hbase.inRole _).append hargs).construct rfl

/-- An expression with an ascribed type spans what is read for it. -/
theorem ascribedOf_spans : Leads text (ascribedOf base) c (Span text first) := by
  apply Leads.ahead look_stays
  intro t
  apply Leads.ahead typed_stays
  intro isTyped
  apply Leads.ahead surroundings_stays
  intro s
  -- Both words go on with a type.
  apply Leads.guard
  split
  iterate 2
    · apply (keyword_spans _).seq
      intro word _ hword
      apply (call_spans _).seq
      intro type _ htype
      exact .pure (((hbase.append hword).append htype).construct rfl)
  · exact .failure

/-- A conditional spans what is read for it. -/
theorem conditional_spans : Leads text (conditional base) c (Span text first) := by
  apply (punct_spans _).seq
  intro mark start hmark
  -- The first branch is read inside of what is around, or on its own.
  have hbranch : ∀ {yes : Grammar Forest}, Spans text yes → Leads text (do
      let yes ← yes
      let colon ← punct ":"
      return (yes, colon)) start fun parts next => Span text start (parts.1 ++ parts.2) next :=
    fun hyes => hyes.seq fun _ _ hyes => (punct_spans _).seq fun _ _ hcolon =>
      .pure (hyes.append hcolon)
  apply Leads.bind (.orElse (hbranch (field_spans _ _).enclosed)
    (hbranch (field_spans _ _).within.enclosed)) fun _ _ h => h.next
  rintro ⟨yes, colon⟩ _ hparts
  apply (field_spans _ _).seq
  intro no _ hno
  have hall := (((hbase.inRole .condition).append hmark).append hparts).append hno
  rw [← List.append_assoc] at hall
  exact .pure (hall.construct rfl)

end Extends

/-- A new expression spans what is read for it. -/
theorem newExpression_spans (fuel : Nat) : Spans text (newExpression fuel) := by
  -- The fuel bounds how often `new` stands behind `new`.
  induction fuel with
  | zero => exact fun _ => .failure
  | succ fuel ih =>
    intro c
    apply (keyword_spans _).seq
    intro word start hword
    apply Leads.ahead (atPunct_stays _)
    intro isTarget
    apply Leads.cases
    · apply (punct_spans _).seq
      intro dot _ hdot
      apply (keyword_spans _).seq
      intro target _ htarget
      exact .pure (((hword.append hdot).append htarget).construct rfl)
    · apply Leads.ahead (atWord_stays _)
      intro isNew
      -- Type arguments count only in front of arguments or at an end.
      have hgenerics : Spans text (do
          let args ← field .typeArguments .typeArguments
          let t ← look
          if t.lexeme == .punct "(" || endsInstantiation t then return args else failure) :=
        fun _ => (field_spans _ _).seq fun _ _ hargs => .ahead look_stays fun _ =>
          .cases (.pure hargs) .failure
      have hrest : ∀ head next, Span text start head next → Leads text (do
          let ctor ← extend head (trailerOf false)
          let generics ← if ← typed then optional do
              let args ← field .typeArguments .typeArguments
              let t ← look
              if t.lexeme == .punct "(" || endsInstantiation t then return args else failure
            else pure []
          let args ← optional (field .arguments .arguments)
          return construct .newExpression
            (word ++ inRole .constructed ctor ++ generics ++ args)) next (Span text c) := by
        intro head next hhead
        apply (Leads.extend hhead fun _ _ hf => trailerOf_spans hf false).seq
        intro ctor _ hctor
        apply Leads.ahead typed_stays
        intro isTyped
        apply Leads.either (hgenerics.optional _) (Spans.none _)
        intro generics _ hgenerics
        apply (field_spans _ _).optional.seq
        intro args _ hargs
        exact .pure ((((hword.append (hctor.inRole _)).append hgenerics).append hargs).construct
          rfl)
      apply Leads.cases
      -- Another `new` may be constructed in turn, called or not.
      · apply ih.seq
        intro made _ hmade
        exact (calledOf_spans hmade).seq hrest
      · exact atom_spans.seq hrest

/-- An arrow spans what is read for it. -/
theorem arrow_spans (isBlock : Bool) : Spans text (arrow isBlock) := by
  intro c
  apply Leads.ahead look_stays
  intro t
  apply Leads.ahead surroundings_stays
  intro s
  apply Leads.guard
  apply Leads.cases (fullArrow_spans _ c)
  exact .orElse (simpleArrow_spans _ c) (fullArrow_spans _ c)

/-- A chain of postfixes spans what is read for it. -/
theorem postfixChain_spans : Spans text postfixChain := by
  intro c
  apply Leads.ahead (atWord_stays _)
  intro isNew
  have hrest : ∀ head next, Span text c head next →
      Leads text (extend head (trailerOf true)) next (Span text c) :=
    fun _ _ hhead => .extend hhead fun _ _ hf => trailerOf_spans hf true
  apply Leads.cases
  · exact .get fun _ => (newExpression_spans _).seq hrest
  · exact ((arrow_spans _).orElse atom_spans).seq hrest

/-- An update spans what is read for it. -/
theorem updated_spans : Spans text updated := by
  intro c
  apply postfixChain_spans.seq
  intro base next hbase
  apply Leads.ahead look_stays
  intro t
  split
  -- One case for each of the two operators.
  iterate 2
    · apply Leads.ahead surroundings_stays
      intro s
      apply Leads.cases (.pure hbase)
      split
      · apply (punct_spans _).seq
        intro op _ hop
        exact .pure (((hbase.inRole _).append (hop.inRole _)).construct rfl)
      · exact .pure hbase
  · exact .pure hbase

/-- An operand in a role spans what is read for it. -/
theorem operandAt_spans (role : Field) (n : Nonterminal) : Spans text (operandAt role n) :=
  ((arrow_spans _).orElse (call_spans _)).inRole role

/-- An operator that has been looked at, and what follows it. -/
theorem operator_spans (t : Token) {Q : Forest → Cursor → Prop} {rest : Forest → Grammar Forest}
    (hrest : ∀ op next, Span text c op next → Leads text (rest op) next Q) :
    Leads text (match t.lexeme with
      | .punct spelling => punct spelling >>= rest
      | .word w => keyword w >>= rest
      | _ => failure >>= rest) c Q := by
  split
  · exact (punct_spans _).seq hrest
  · exact (keyword_spans _).seq hrest
  · exact .stop

/-- An unary expression spans what is read for it. -/
theorem unaryExpression_spans : Spans text unaryExpression := by
  intro c
  apply Leads.ahead look_stays
  intro t
  -- Whatever the operator is, an operand follows.
  have hoperand : ∀ k : Kind, k.isPlain = true → ∀ op next, Span text c op next → Leads text (do
      let operand ← operandAt .argument .unary
      return construct k (inRole .operator op ++ operand)) next (Span text c) :=
    fun _ hk _ _ hop => (operandAt_spans _ _).seq fun _ _ hoperand =>
      .pure (((hop.inRole _).append hoperand).construct hk)
  split
  -- Seven operators with an operand, and the two that count up and down.
  iterate 7
    · exact operator_spans t (hoperand .unaryExpression rfl)
  iterate 2
    · dsimp only
      split
      · exact (punct_spans _).seq (hoperand .updateExpression rfl)
      · exact .stop
  · apply Leads.orElse _ (updated_spans c)
    apply (keyword_spans _).seq
    intro word _ hword
    apply ((arrow_spans _).orElse (call_spans _)).seq
    intro operand _ hoperand
    apply (Leads.extend hoperand fun _ _ hf => ascribedOf_spans hf).seq
    intro full _ hfull
    exact .pure ((hword.append hfull).construct rfl)
  · apply Leads.ahead surroundings_stays
    intro s
    apply Leads.cases _ (updated_spans c)
    apply (call_spans _).seq
    intro generics _ hgenerics
    apply (call_spans _).seq
    intro operand _ hoperand
    exact .pure ((hgenerics.append hoperand).construct rfl)
  · exact updated_spans c

/-- A test for a private name spans what is read for it. -/
theorem privateTest_spans : Spans text privateTest := by
  intro c
  apply Leads.look
  intro t ht
  apply Leads.guard
  apply (ht.acceptAs rfl).seq
  intro name _ hname
  apply (keyword_spans _).seq
  intro op _ hop
  apply (operandAt_spans _ _).seq
  intro right _ hright
  exact .pure ((((hname.inRole _).append (hop.inRole _)).append hright).construct rfl)

/-- A binary expression spans what is read for it. -/
theorem binaryExpression_spans (level : Nat) : Spans text (binaryExpression level) := by
  intro c
  apply (privateTest_spans.orElse (call_spans _)).seq
  intro first _ hfirst
  apply Leads.extend hfirst
  intro left _ hleft
  apply Leads.ahead look_stays
  intro t
  apply Leads.ahead surroundings_stays
  intro s
  -- An operator with its level, or an ascription.
  split
  · apply Leads.guard
    apply operator_spans
    intro op _ hop
    apply (operandAt_spans _ _).seq
    intro right _ hright
    exact .pure ((((hleft.inRole _).append (hop.inRole _)).append hright).construct rfl)
  · exact .cases (ascribedOf_spans hleft) .failure

/-- A yield expression spans what is read for it. -/
theorem yieldExpression_spans : Spans text yieldExpression := by
  intro c
  apply (keyword_spans _).seq
  intro word _ hword
  apply Leads.ahead look_stays
  intro t
  apply Leads.ahead surroundings_stays
  intro s
  -- Nothing follows at the end of a line.
  apply Leads.cases (.pure (hword.construct rfl))
  apply (punct_spans _).optional.seq
  intro star _ hstar
  apply (call_spans _).optional.seq
  intro value _ hvalue
  exact .pure (((hword.append hstar).append hvalue).construct rfl)

/-- An operation spans what is read for it. -/
theorem operation_spans : Spans text operation := by
  intro c
  apply (call_spans _).seq
  intro left _ hleft
  apply Leads.ahead look_stays
  intro t
  -- An assignment, a conditional, another assignment or the operand alone.
  split
  · apply (punct_spans _).seq
    intro eq _ heq
    apply (field_spans _ _).seq
    intro right _ hright
    exact .pure ((((hleft.asPatterns.inRole _).append heq).append hright).construct rfl)
  · exact conditional_spans hleft
  · apply Leads.cases _ (.pure hleft)
    apply (punct_spans _).seq
    intro op _ hop
    apply (field_spans _ _).seq
    intro right _ hright
    exact .pure ((((hleft.inRole _).append (hop.inRole _)).append hright).construct rfl)
  · exact .pure hleft

/-- An expression spans what is read for it. -/
theorem expression_spans : Spans text expression := by
  intro c
  apply Leads.ahead look_stays
  intro t
  apply Leads.orElse (arrow_spans _ c)
  exact .cases (.orElse (yieldExpression_spans c) (operation_spans c)) (operation_spans c)

/-- A sequence of expressions spans what is read for it. -/
theorem expressions_spans : Spans text expressions := by
  intro c
  apply (call_spans _).seq
  intro first _ hfirst
  apply Spans.seq (.many _)
  · intro more _ hmore
    apply Leads.pure
    have hboth := hfirst.append hmore
    split
    · exact hboth.sublist (List.sublist_append_left _ _)
    · exact hboth.construct rfl
  · exact fun _ => (punct_spans _).seq fun _ _ hcomma => (call_spans _).seq fun _ _ hnext =>
      .pure (hcomma.append hnext)

end ScriptGraph.Syntax.Grammar
