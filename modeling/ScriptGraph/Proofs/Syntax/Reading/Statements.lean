import ScriptGraph.Proofs.Syntax.Reading.Declarations

/-!
# What a text is read as

The rules for statements, and with them the tree of a whole text. By the number of calls that are
nested, every rule reads trees that stand one after the other, and the name of a property is not
empty.

- `Grammar.readFrom_sound`: the reader of nonterminals
- `readProgram_placed`: every part of the tree of a text stands in its place
-/

namespace ScriptGraph.Syntax

variable {text : List Char} {c next : Cursor} {f : Forest} {k : Kind}

namespace Grammar

/-! ## Blocks and variables -/

/-- A block spans what is read for it. -/
theorem block_spans (inExpression : Bool) : Spans text (block inExpression) :=
  fun _ => (punct_spans _).seq fun _ _ hopening =>
    (call_spans _).many.atStatements.seq fun _ _ hstatements =>
      (punct_spans _).seq fun _ _ hclosing => (lineEnd_spans _ _).optional.seq fun _ _ hending =>
        .pure ((((hopening.append hstatements).append hclosing).append hending).construct rfl)

/-- An initial value spans what is read for it. -/
theorem initialValue_spans : Spans text initialValue :=
  fun _ => (punct_spans _).seq fun _ _ heq => (field_spans _ _).seq fun _ _ hvalue =>
    .pure (heq.append hvalue)

/-- A variable declarator spans what is read for it. -/
theorem variableDeclarator_spans : Spans text variableDeclarator := by
  intro c
  apply (destructuring_spans.orElse identifier_spans).seq
  intro name _ hname
  apply Leads.ahead typed_stays
  intro isTyped
  -- Marks and types are for typed dialects.
  apply Leads.either ((punct_spans _).optional _) (Spans.none _)
  intro mark _ hmark
  apply Leads.ahead typed_stays
  intro isTyped
  apply Leads.either (typed_ascription_spans _) (Spans.none _)
  intro type _ htype
  apply initialValue_spans.optional.seq
  intro value _ hvalue
  exact .pure (((((hname.inRole _).append hmark).append htype).append hvalue).construct rfl)

/-- The variable declarators span what is read for them. -/
theorem variableDeclarators_spans :
    Leads text variableDeclarators c fun r next => Span text c r.1 next := by
  apply variableDeclarator_spans.seq
  intro first _ hfirst
  apply Spans.seq (.many _)
  · intro more _ hmore
    exact .pure (hfirst.append hmore)
  · exact fun _ => (punct_spans _).seq fun _ _ hcomma =>
      variableDeclarator_spans.seq fun _ _ hnext => .pure (hcomma.append hnext)

/-- Trees between two cursors, and the plain kind of the construct that they belong to. -/
def Labelled (text : List Char) (c : Cursor) (r : Forest × Kind) (next : Cursor) : Prop :=
  Span text c r.1 next ∧ r.2.isPlain = true

/-- The keyword of a declaration of variables says what is declared. -/
theorem variableKeyword_labelled : Leads text variableKeyword c (Labelled text c) := by
  apply Leads.ahead look_stays
  intro t
  split
  · exact (keyword_spans _).seq fun _ _ hword => .pure ⟨hword, rfl⟩
  iterate 2
    · exact (keyword_spans _).seq fun _ _ hword => .pure ⟨hword.inRole _, rfl⟩
  · exact .failure

/-- A variable declaration spans what is read for it. -/
theorem variableDeclaration_spans {ending : Bool → Grammar Forest}
    (hending : ∀ valued, Spans text (ending valued)) :
    Spans text (variableDeclaration ending) := by
  intro c
  apply variableKeyword_labelled.bind fun _ _ h => h.1.next
  rintro ⟨word, kind⟩ _ ⟨hword, hkind⟩
  apply variableDeclarators_spans.bind fun _ _ h => h.next
  rintro ⟨names, valued⟩ _ hnames
  apply (hending valued).seq
  intro last _ hlast
  exact .pure (((hword.append hnames).append hlast).construct hkind)

/-! ## Declarations -/

/-- A function declaration spans what is read for it. -/
theorem functionDeclaration_spans : Spans text functionDeclaration := by
  -- The word `async` counts only in front of `function` on the same line.
  have hasync : Spans text (optional do
      let t ← look
      let next := lookPast t
      if next.lexeme == .word "function" && !next.lineBreak then keyword "async" else failure) :=
    .optional fun c => .ahead look_stays fun _ => .cases (keyword_spans _ c) .failure
  intro c
  apply hasync.seq
  intro isAsync _ hisAsync
  apply (keyword_spans _).seq
  intro word _ hword
  apply (punct_spans _).optional.seq
  intro star _ hstar
  apply identifier_spans.seq
  intro name _ hname
  apply signature_spans.seq
  intro sig _ hsig
  have hhead := (((hisAsync.append hword).append hstar).append (hname.inRole .name)).append hsig
  -- With a body or, in typed dialects, without.
  apply Leads.ahead (atPunct_stays _)
  intro hasBody
  apply Leads.cases
  · apply (body_spans _).seq
    intro b _ hb
    exact .pure ((hhead.append hb).construct (by split <;> rfl))
  · apply Leads.ahead typed_stays
    intro isTyped
    apply Leads.cases _ .failure
    apply ((lineEnd_spans _ _).orElse (punct_spans _)).seq
    intro ending _ hending
    exact .pure ((hhead.append hending).construct rfl)

/-- A type alias declaration spans what is read for it. -/
theorem typeAliasDeclaration_spans : Spans text typeAliasDeclaration := by
  intro c
  apply (keyword_spans _).seq
  intro word _ hword
  apply (nameAs_spans rfl).seq
  intro name _ hname
  apply (field_spans _ _).optional.seq
  intro generics _ hgenerics
  apply (punct_spans _).seq
  intro eq _ heq
  apply (field_spans _ _).seq
  intro type _ htype
  apply (semicolon_spans _).seq
  intro ending _ hending
  exact .pure ((((((hword.append (hname.inRole _)).append hgenerics).append heq).append
    htype).append hending).construct rfl)

/-- A declaration of the typed dialects spans what is read for it. -/
theorem typedDeclaration_spans {nested : Grammar Forest} (hnested : Spans text nested) :
    Spans text (typedDeclaration nested) := by
  intro c
  apply Leads.ahead typed_stays
  intro isTyped
  apply Leads.guard
  apply Leads.ahead look_stays
  intro t
  -- The word in front decides.
  split
  · exact typeAliasDeclaration_spans c
  · exact interfaceDeclaration_spans c
  · exact moduleDeclaration_spans c
  · exact moduleDeclaration_spans c
  · exact ambientDeclaration_spans hnested c
  · exact enumDeclaration_spans c
  · exact enumDeclaration_spans c
  · exact classDeclaration_spans c
  · exact importAlias_spans c
  · exact .failure

/-- A declaration of some depth spans what is read for it. -/
theorem declarationFrom_spans (depth : Nat) : Spans text (declarationFrom depth) := by
  -- The depth bounds declarations inside of ambient ones.
  induction depth with
  | zero => exact fun _ => .failure
  | succ depth ih =>
    intro c
    apply Leads.ahead look_stays
    intro t
    apply Leads.orElse (typedDeclaration_spans ih c)
    split
    iterate 3
      · exact variableDeclaration_spans semicolon_spans c
    iterate 2
      · exact functionDeclaration_spans c
    iterate 2
      · exact classDeclaration_spans c
    · exact .failure

/-- A declaration spans what is read for it. -/
theorem declaration_spans : Spans text declaration :=
  declarationFrom_spans 4

/-! ## Statements -/

/-- A condition in a role spans what is read for it. -/
theorem condition_spans (role : Field) : Spans text (condition role) :=
  fun _ => (punct_spans _).seq fun _ _ hopening => (call_spans _).enclosed.seq fun _ _ hinner =>
    (punct_spans _).seq fun _ _ hclosing =>
      .pure ((((hopening.append hinner).append hclosing).construct rfl).inRole role)

/-- An if statement spans what is read for it. -/
theorem ifStatement_spans : Spans text ifStatement := by
  have helse : Spans text (optional do
      let word ← keyword "else"
      let s ← call .statement
      return inRole .alternative (construct .elseClause (word ++ s))) :=
    .optional fun _ => (keyword_spans _).seq fun _ _ hword => (call_spans _).seq fun _ _ hs =>
      .pure (((hword.append hs).construct rfl).inRole _)
  exact fun _ => (keyword_spans _).seq fun _ _ hword => (condition_spans _).seq fun _ _ htest =>
    (field_spans _ _).seq fun _ _ hyes => helse.seq fun _ _ hno =>
      .pure ((((hword.append htest).append hyes).append hno).construct rfl)

/-- The label of a case says whether it is the default. -/
theorem switchLabel_labelled : Leads text switchLabel c (Labelled text c) := by
  apply Leads.ahead (atWord_stays _)
  intro isDefault
  apply Leads.cases
  · exact (keyword_spans _).seq fun _ _ hword => (punct_spans _).seq fun _ _ hcolon =>
      .pure ⟨hword.append hcolon, rfl⟩
  · exact (keyword_spans _).seq fun _ _ hword => (field_spans _ _).seq fun _ _ hvalue =>
      (punct_spans _).seq fun _ _ hcolon => .pure ⟨(hword.append hvalue).append hcolon, rfl⟩

/-- A switch statement spans what is read for it. -/
theorem switchStatement_spans : Spans text switchStatement := by
  intro c
  apply (keyword_spans _).seq
  intro word _ hword
  apply (condition_spans _).seq
  intro value _ hvalue
  apply (punct_spans _).seq
  intro opening _ hopening
  -- The cases of the block, and the block around them.
  refine (Spans.many ?case).atStatements.seq fun cases _ hcases => ?body
  case case =>
    intro c
    apply switchLabel_labelled.bind fun _ _ h => h.1.next
    rintro ⟨label, kind⟩ _ ⟨hlabel, hkind⟩
    apply (field_spans _ _).many.seq
    intro statements _ hstatements
    exact .pure ((hlabel.append hstatements).construct hkind)
  case body =>
    apply (punct_spans _).seq
    intro closing _ hclosing
    have hb := ((hopening.append hcases).append hclosing).construct (k := .switchBody) rfl
    exact .pure (((hword.append hvalue).append (hb.inRole _)).construct rfl)

/-- An iteration header spans what is read for it. -/
theorem iterationHeader_spans : Spans text iterationHeader := by
  -- The parts of the header: a value, an assigned target, and what stands in front of the word.
  have hvalue : Spans text (optional do
      let eq ← punct "="
      let v ← within (fun s => { s with allowIn := false }) (field .value .expression)
      return eq ++ v) :=
    .optional fun _ => (punct_spans _).seq fun _ _ heq => (field_spans _ _).within.seq
      fun _ _ hv => .pure (heq.append hv)
  have hassigned : Spans text (do
      let target ← postfixChain
      return inRole .left (target.map fun t => if t.isComment then t else t.asPattern)) :=
    fun _ => postfixChain_spans.seq fun _ _ htarget => .pure (htarget.asPatterns.inRole _)
  have hhead : ∀ {left : Grammar Forest}, Spans text left → Spans text (do
      let target ← left
      let op ← keyword "of" <|> keyword "in"
      return target ++ inRole .operator op) :=
    fun hleft _ => hleft.seq fun _ _ htarget => ((keyword_spans _).orElse (keyword_spans _)).seq
      fun _ _ hop => .pure (htarget.append (hop.inRole _))
  intro c
  -- A declaration or a target in front of the word, and what is gone through behind it.
  refine ((hhead ?declared).orElse (hhead hassigned)).seq fun start _ hstart => ?right
  case declared =>
    intro c
    apply variableKeyword_labelled.bind fun _ _ h => h.1.next
    rintro ⟨word, kind⟩ _ ⟨hword, -⟩
    apply (destructuring_spans.orElse identifier_spans).seq
    intro name _ hname
    apply hvalue.seq
    intro value _ hvalue
    exact .pure (((hword.inRole _).append (hname.inRole _)).append hvalue)
  case right =>
    apply (field_spans _ _).seq
    intro right _ hright
    exact .pure (hstart.append hright)

/-- An empty statement in a role spans what is read for it. -/
theorem emptyIn_spans (role : Field) : Spans text (emptyIn role) :=
  fun _ => (punct_spans _).seq fun _ _ hending => .pure ((hending.construct rfl).inRole role)

/-- A counting header spans what is read for it. -/
theorem countingHeader_spans : Spans text countingHeader := by
  -- A declaration or an expression in front, then a test and a step.
  have hdeclared : Spans text (do
      return inRole .initializer (← variableDeclaration fun _ => punct ";")) :=
    (variableDeclaration_spans fun _ => punct_spans _).inRole _
  have hcomputed : Spans text (do
      let first ← field .initializer .expressions
      let ending ← punct ";"
      return first ++ ending) :=
    fun _ => (field_spans _ _).seq fun _ _ hfirst => (punct_spans _).seq fun _ _ hending =>
      .pure (hfirst.append hending)
  have htest : Spans text (do
      let e ← call .expressions
      let ending ← punct ";"
      return inRole .condition (e ++ ending)) :=
    fun _ => (call_spans _).seq fun _ _ he => (punct_spans _).seq fun _ _ hending =>
      .pure ((he.append hending).inRole _)
  intro c
  apply (hdeclared.orElse ((emptyIn_spans _).orElse hcomputed)).within.seq
  intro first _ hfirst
  apply ((emptyIn_spans _).orElse htest).seq
  intro tested _ htested
  apply (field_spans _ _).optional.seq
  intro step _ hstep
  exact .pure ((hfirst.append htested).append hstep)

/-- A for statement spans what is read for it. -/
theorem forStatement_spans : Spans text forStatement := by
  -- Both kinds of header end with the parenthesis.
  have hheader : ∀ {header : Grammar Forest} {k : Kind} {c : Cursor}, Spans text header →
      k.isPlain = true → Leads text (do
        let h ← enclosed header
        let closing ← punct ")"
        return (h ++ closing, k)) c (Labelled text c) :=
    fun hheader hk => hheader.enclosed.seq fun _ _ hh => (punct_spans _).seq fun _ _ hclosing =>
      .pure ⟨hh.append hclosing, hk⟩
  intro c
  apply (keyword_spans _).seq
  intro word _ hword
  apply (keyword_spans _).optional.seq
  intro isAwait _ hisAwait
  apply (punct_spans _).seq
  intro opening _ hopening
  apply (Leads.orElse (hheader iterationHeader_spans rfl)
    (hheader countingHeader_spans rfl)).bind fun _ _ h => h.1.next
  rintro ⟨header, kind⟩ _ ⟨hheader, hkind⟩
  apply (field_spans _ _).seq
  intro b _ hb
  exact .pure (((((hword.append hisAwait).append hopening).append hheader).append hb).construct
    hkind)

/-- A loop with a condition spans what is read for it. -/
theorem whileStatement_spans : Spans text whileStatement :=
  fun _ => (keyword_spans _).seq fun _ _ hword => (condition_spans _).seq fun _ _ htest =>
    (field_spans _ _).seq fun _ _ hb =>
      .pure (((hword.append htest).append hb).construct rfl)

/-- A loop with the condition at its end spans what is read for it. -/
theorem doStatement_spans : Spans text doStatement :=
  fun _ => (keyword_spans _).seq fun _ _ hword => (field_spans _ _).seq fun _ _ hb =>
    (keyword_spans _).seq fun _ _ hwhile => (condition_spans _).seq fun _ _ htest =>
      (semicolon_spans _).optional.seq fun _ _ hending =>
        .pure (((((hword.append hb).append hwhile).append htest).append hending).construct rfl)

/-- A with statement spans what is read for it. -/
theorem withStatement_spans : Spans text withStatement :=
  fun _ => (keyword_spans _).seq fun _ _ hword => (condition_spans _).seq fun _ _ hobject =>
    (field_spans _ _).seq fun _ _ hb =>
      .pure (((hword.append hobject).append hb).construct rfl)

/-- The parameter of a handler spans what is read for it. -/
theorem handlerParameter_spans : Spans text handlerParameter := by
  intro c
  apply (punct_spans _).seq
  intro opening _ hopening
  apply (destructuring_spans.orElse identifier_spans).enclosed.seq
  intro name _ hname
  apply Leads.ahead typed_stays
  intro isTyped
  apply Leads.either (typed_ascription_spans _) (Spans.none _)
  intro type _ htype
  apply (punct_spans _).seq
  intro closing _ hclosing
  exact .pure (((hopening.append (hname.inRole _)).append htype).append hclosing)

/-- A try statement spans what is read for it. -/
theorem tryStatement_spans : Spans text tryStatement := by
  -- Each of the two clauses may be missing.
  have hhandler : Spans text (optional do
      let word ← keyword "catch"
      let parameter ← optional handlerParameter
      let b ← body false
      return inRole .handler (construct .catchClause (word ++ parameter ++ b))) :=
    .optional fun _ => (keyword_spans _).seq fun _ _ hword =>
      handlerParameter_spans.optional.seq fun _ _ hparameter => (body_spans _).seq fun _ _ hb =>
        .pure ((((hword.append hparameter).append hb).construct rfl).inRole _)
  have hfinalizer : Spans text (optional do
      let word ← keyword "finally"
      let b ← body false
      return inRole .finalizer (construct .finallyClause (word ++ b))) :=
    .optional fun _ => (keyword_spans _).seq fun _ _ hword => (body_spans _).seq fun _ _ hb =>
      .pure (((hword.append hb).construct rfl).inRole _)
  exact fun _ => (keyword_spans _).seq fun _ _ hword => (body_spans _).seq fun _ _ htried =>
    hhandler.seq fun _ _ hhandler => hfinalizer.seq fun _ _ hfinalizer =>
      .pure ((((hword.append htried).append hhandler).append hfinalizer).construct rfl)

/-- A jump spans what is read for it. -/
theorem jumpStatement_spans (spelling : String) (hk : k.isPlain = true) :
    Spans text (jumpStatement spelling k) := by
  have hlabelled : Spans text (do
      let label ← nameAs .statementIdentifier
      let ending ← semicolon false
      return inRole .label label ++ ending) :=
    fun _ => (nameAs_spans rfl).seq fun _ _ hlabel => (semicolon_spans _).seq fun _ _ hending =>
      .pure ((hlabel.inRole _).append hending)
  exact fun _ => (keyword_spans _).seq fun _ _ hword =>
    ((semicolon_spans _).orElse hlabelled).seq fun _ _ hrest =>
      .pure ((hword.append hrest).construct hk)

/-- A statement that leaves its surroundings spans what is read for it. -/
theorem leavingStatement_spans (spelling : String) (hk : k.isPlain = true) :
    Spans text (leavingStatement spelling k) := by
  have hvalued : Spans text (do
      let value ← call .expressions
      let ending ← semicolon true
      return value ++ ending) :=
    fun _ => (call_spans _).seq fun _ _ hvalue => (semicolon_spans _).seq fun _ _ hending =>
      .pure (hvalue.append hending)
  exact fun _ => (keyword_spans _).seq fun _ _ hword =>
    ((semicolon_spans _).orElse hvalued).seq fun _ _ hrest =>
      .pure ((hword.append hrest).construct hk)

/-- A labeled statement spans what is read for it. -/
theorem labeledStatement_spans : Spans text labeledStatement :=
  fun _ => (nameAs_spans rfl).seq fun _ _ hlabel => (punct_spans _).seq fun _ _ hcolon =>
    (field_spans _ _).seq fun _ _ hs =>
      .pure ((((hlabel.inRole _).append hcolon).append hs).construct rfl)

/-- An expression statement spans what is read for it. -/
theorem expressionStatement_spans : Spans text expressionStatement :=
  fun _ => (call_spans _).seq fun _ _ he => (semicolon_spans _).seq fun _ _ hending =>
    .pure ((he.append hending).construct rfl)

/-- A statement that starts with a word spans what is read for it. -/
theorem wordStatement_spans (w : String) : Spans text (wordStatement w) := by
  unfold wordStatement
  split
  · exact ifStatement_spans
  · exact switchStatement_spans
  · exact forStatement_spans
  · exact whileStatement_spans
  · exact doStatement_spans
  · exact withStatement_spans
  · exact tryStatement_spans
  · exact jumpStatement_spans _ rfl
  · exact jumpStatement_spans _ rfl
  · exact leavingStatement_spans _ rfl
  · exact leavingStatement_spans _ rfl
  -- A word by itself.
  · exact fun _ => (keyword_spans _).seq fun _ _ hword => (semicolon_spans _).seq
      fun _ _ hending => .pure ((hword.append hending).construct rfl)
  -- Words that start a declaration in some places only are read as expressions in the others.
  · exact importStatement_spans.orElse (declaration_spans.orElse expressionStatement_spans)
  · exact exportStatement_spans declaration_spans
  · exact declaration_spans.orElse (labeledStatement_spans.orElse expressionStatement_spans)

/-- A statement spans what is read for it. -/
theorem statement_spans : Spans text statement := by
  intro c
  apply Leads.ahead look_stays
  intro t
  split
  · exact wordStatement_spans _ c
  · exact block_spans _ c
  · exact (punct_spans _).seq fun _ _ hending => .pure (hending.construct rfl)
  · exact .orElse (exportStatement_spans declaration_spans c) (declaration_spans c)
  · exact .failure
  · exact .failure
  · exact expressionStatement_spans c

/-! ## All rules -/

/-- The rule of a nonterminal spans what is read for it. -/
theorem rule_spans (n : Nonterminal) : Spans text (rule n) := by
  cases n with
  | statement => exact statement_spans
  | block inExpression => exact block_spans inExpression
  | expression => exact expression_spans
  | expressions => exact expressions_spans
  | binary level => exact binaryExpression_spans level
  | unary => exact unaryExpression_spans
  | arguments => exact argumentList_spans
  | pattern => exact pattern_spans
  | parameters => exact parameters_spans
  | type => exact anyType_spans
  | primaryType => exact primaryType_spans
  | typeArguments => exact typeArguments_spans
  | typeParameters => exact typeParameters_spans
  | objectType => exact objectType_spans
  | propertyName => exact propertyName_spans
  | className => exact classExpression_spans
  | markup => exact element_spans

/-- The name of a property is a token, or stands between brackets. -/
theorem rule_propertyName_filled : Leads text propertyName c (Filled text c) := by
  apply Leads.look
  intro t ht
  -- A word, a string or a number is a token; other names stand between brackets.
  split
  iterate 4
    · rename_i hlexeme
      exact ht.accept_filled (by rintro k ⟨⟩; rfl) nofun (by simp [hlexeme]) (by simp [hlexeme])
  · apply (punct_filled _).fill
    intro opening _ hopening hsolid
    apply (call_spans _).enclosed.seq
    intro inner _ hinner
    apply (punct_spans _).seq
    intro closing _ hclosing
    have hall := (hopening.append hinner).append hclosing
    exact .pure ⟨hall.construct rfl,
      hall.spread.solid_construct ((hsolid.append_left inner).append_left closing) nofun⟩
  · exact .failure

/-- However deeply calls are nested, what is called reads trees that stand one after the other. -/
theorem readFrom_sound (depth : Nat) (s : Surroundings) :
    (⟨s, readFrom depth⟩ : Rules).Sound text := by
  induction depth generalizing s with
  | zero => exact ⟨nofun, nofun⟩
  | succ depth ih =>
    exact ⟨fun n s c f next hc hread => (rule_spans n c).of_read _ (ih s) hc f next hread,
      fun s c f next hc hread => (rule_propertyName_filled.of_read _ (ih s) hc f next hread).2⟩

end Grammar

/-! ## Texts -/

/-- Statements one after the other span what is read for them. -/
theorem statementsFrom_span {read : Cursor → Option (Forest × Cursor)}
    (hread : ∀ c f next, c.In text → read c = some (f, next) → Span text c f next) (count : Nat)
    (hc : c.In text) :
    Span text c (statementsFrom read count c).1 (statementsFrom read count c).2 := by
  -- The count bounds the statements, and what is read moves the cursor on.
  induction count generalizing c with
  | zero => exact .nil hc
  | succ count ih =>
    unfold statementsFrom
    split
    · exact .nil hc
    · rename_i forest next hforest
      have hfirst := hread c forest next hc hforest
      split
      · exact .nil hc
      · exact hfirst.append (ih hfirst.next)

/-- The line for an interpreter spans what is read for it. -/
theorem hashBang_span (hc : c.In text) : Span text c (hashBang c).1 (hashBang c).2 := by
  unfold hashBang
  split
  · exact .leafAs hc rfl _
  · exact .nil hc

/-- What no rule accepts becomes one node at the end. -/
theorem rest_spread (hc : c.In text) :
    Spread text c.offset (byteLength text)
      (if c.skipTrivia.here.rest.isEmpty then c.skipTrivia.comments
        else c.skipTrivia.comments ++
          [Tree.leaf (.construct .error) c.skipTrivia.here.offset (byteLength text)]) := by
  have hcomments := Span.skipTrivia hc
  have hle := hcomments.next.offset_le
  split
  -- The comments at the end stay; anything else that is left is the error.
  · exact hcomments.spread.widen (Nat.le_refl _) hle
  · have hend : Boundary text (byteLength text) := ⟨text, [], by simp, rfl⟩
    apply hcomments.spread.append
    apply Spread.leaf hle hcomments.next.boundary hend
    rintro k ⟨⟩
    rfl

/-- The offset of the first of some trees, or else another one. -/
def firstByte (bytes : Nat) : Forest → Nat
  | [] => bytes
  | t :: _ => t.start

/-- A tree over all of a text, from the first of its parts on. -/
theorem Spread.program {start stop bytes : Nat} (h : Spread text start stop f)
    (hstop : Boundary text stop) (hbytes : Boundary text bytes) (hle : bytes ≤ stop) :
    (Tree.node (.construct .program) none (firstByte bytes f) stop f).Throughout
      (Placed text) := by
  cases f with
  | nil =>
    exact .intro ⟨hle, hbytes, hstop, .nil, nofun, by rintro k ⟨⟩ ⟨⟩, by rintro k ⟨⟩ ⟨⟩⟩ nofun
  | cons t rest =>
    have hfirst := (h.placed t List.mem_cons_self).here
    have hwithin : ∀ u ∈ t :: rest, t.start ≤ u.start ∧ u.stop ≤ stop :=
      fun u hu => ⟨h.start_le u hu, (h.within u hu).2⟩
    exact .intro ⟨hfirst.start_le_stop.trans (hwithin t List.mem_cons_self).2, hfirst.start,
      hstop, h.inOrder, hwithin, by rintro k ⟨⟩ ⟨⟩, by rintro k ⟨⟩ ⟨⟩⟩ h.placed

/-- Every part of the tree of a text stands between characters of the text, around its own parts,
which stand one after the other. -/
theorem readProgram_placed (dialect : Dialect) (text : String) :
    (readProgram dialect text).Throughout (Placed text.toList) := by
  let start : Cursor := ⟨text.toList, 0⟩
  have hstart : start.In text.toList := ⟨[], rfl, rfl⟩
  -- The head, the statements and the rest follow one another.
  have hhead := hashBang_span hstart
  let read := Grammar.readFrom (nestingBound text.toList.length) .statement (.atTop dialect)
  have hread : ∀ c f next, c.In text.toList → read c = some (f, next) → Span text.toList c f next :=
    (Grammar.readFrom_sound (nestingBound text.toList.length) (.atTop dialect)).reads .statement _
  have hstatements := statementsFrom_span hread (text.toList.length + 1) hhead.next
  have hall := (hhead.append hstatements).spread.append (rest_spread hstatements.next)
  have hend : Boundary text.toList text.utf8ByteSize :=
    ⟨text.toList, [], by simp, byteLength_toList text⟩
  have hspaces := hstart.skipSpaces
  have hle := hspaces.offset_le
  rw [byteLength_toList] at hall hle
  exact hall.program hend hspaces.boundary hle

end ScriptGraph.Syntax
