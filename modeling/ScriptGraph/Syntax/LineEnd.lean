import ScriptGraph.Dialect
import ScriptGraph.Syntax.Scanner

/-!
# Line ends that end a statement

A statement may end without a semicolon: at the end of the text, before a closing brace, or at a
line break after which the text cannot go on with the same statement. `endsStatement` decides
this from the characters that follow. Typed dialects leave a comment that stands before the line
break to the statement; plain ones look through it.
-/

namespace ScriptGraph.Syntax.LineEnd

/-- How a look-ahead over white space and comments ended. -/
inductive Passage
  | illegal
  | undecided (rest : List Char)
  | passed (rest : List Char)

/-- Passes a block comment after its opening, and tells whether it held a line break. -/
def passBlock (broken : Bool) : List Char → Bool × List Char
  | [] => (broken, [])
  | '*' :: '/' :: rest => (broken, rest)
  | c :: rest => passBlock (broken || c == '\n' || c.val == 0x2028 || c.val == 0x2029) rest

/-- Passing a block comment leaves no more than there was. -/
theorem passBlock_length_le (broken : Bool) (cs : List Char) :
    (passBlock broken cs).2.length ≤ cs.length := by
  fun_induction passBlock broken cs <;> simp_all <;> omega

/-- Passes white space and comments. With `firstBlock`, a block comment that no other comment
follows at once decides: it passes when it held a line break, and leaves the question open
otherwise. -/
def passTrivia (firstBlock : Bool) (cs : List Char) : Passage :=
  match _h : cs.dropWhile Scan.isSpace with
  | '/' :: '/' :: rest =>
    passTrivia firstBlock
      (rest.dropWhile fun c => !(c == '\n' || c.val == 0x2028 || c.val == 0x2029))
  | '/' :: '*' :: rest =>
    match _hb : passBlock false rest with
    | (broken, after) =>
      -- Another comment right behind it takes over the decision.
      if firstBlock && after.head? != some '/' then
        if broken then .passed after else .undecided after
      else passTrivia firstBlock after
  | '/' :: _ => .illegal
  | rest => .passed rest
termination_by cs.length
decreasing_by
  · have h1 : (cs.dropWhile Scan.isSpace).length ≤ cs.length :=
      (List.dropWhile_sublist _).length_le
    have h2 := (List.dropWhile_sublist
      (l := rest) fun c => !(c == '\n' || c.val == 0x2028 || c.val == 0x2029)).length_le
    rw [_h] at h1
    simp at h1
    omega
  · have h1 : (cs.dropWhile Scan.isSpace).length ≤ cs.length :=
      (List.dropWhile_sublist _).length_le
    have h2 := passBlock_length_le false rest
    rw [_h] at h1
    rw [_hb] at h2
    simp at h1 h2
    omega

/-- Whether a text starts with `in` or `instanceof` as whole words. -/
def startsRelation (cs : List Char) : Bool :=
  let w := cs.takeWhile Char.isAlpha
  w == "in".toList || w == "instanceof".toList

/-- Whether what follows a line break starts something new. `operand` says that the text before
it could be followed by an operator. -/
def startsAfresh (typed operand signature : Bool) : List Char → Bool
  | [] => true
  | c :: rest =>
    -- A line that starts with one of these goes on with the same statement.
    if c.val == 0x60 || ",:;*%><=?^|&/".toList.contains c then false
    -- A point may start a fraction, which plain dialects take for a statement.
    else if c == '.' then !typed && (rest.head?.map Char.isDigit).getD false
    -- A brace after a signature opens the body that it still lacks.
    else if c == '\x7b' then !(typed && signature)
    -- Behind an operand these call or index it.
    else if c == '(' || c == '[' then typed && !operand
    -- A doubled sign belongs to what follows, a single one joins it to what stands before.
    else if c == '+' then rest.head? == some '+'
    else if c == '-' then rest.head? == some '-'
    else if c == '!' then rest.head? != some '='
    else !startsRelation (c :: rest)

/-- The rule of the typed dialects, from the end of the last token or comment on. -/
def endsTyped (operand signature : Bool) : List Char → Bool
  | [] => true
  | '\x7d' :: rest =>
    -- Before a colon the brace closes an object pattern and no block.
    if (rest.dropWhile Scan.isSpace).head? == some ':' then operand else true
  | c :: rest =>
    if !Scan.isSpace c then false
    else if c == '\n' then
      match passTrivia false rest with
      | .passed after => startsAfresh true operand signature after
      | _ => false
    else endsTyped operand signature rest

/-- The test of the plain dialects at a character that starts no comment; `further` is the rule for
what follows white space. -/
def endsAtCharacter (operand : Bool) (further : List Char → Bool) : List Char → Bool
  | [] => false
  | c :: rest =>
    if c == '\x7d' then true
    else if c == '\n' || c.val == 0x2028 || c.val == 0x2029 then
      match passTrivia false rest with
      | .passed after => startsAfresh false operand false after
      | _ => false
    else if !Scan.isSpace c then false
    else further rest

/-- The rule of the plain dialects, from the end of the last token or comment on. -/
def endsPlain (operand : Bool) : Nat → List Char → Bool
  | 0, _ => false
  | fuel + 1, cs =>
    match cs with
    | [] => true
    | '/' :: _ =>
      -- The line break that ends the statement may stand in a comment or behind it.
      match passTrivia true cs with
      | .illegal => false
      | .passed after =>
        if !operand && after.head? != some ',' && after.head? != some '=' then true
        else endsAtCharacter operand (endsPlain operand fuel) after
      | .undecided after => endsAtCharacter operand (endsPlain operand fuel) after
    | _ => endsAtCharacter operand (endsPlain operand fuel) cs

/-- Whether a statement may end here without a semicolon. `operand` says that an operator could
follow, `signature` that a body could. -/
def endsStatement (dialect : Dialect) (operand signature : Bool) (cs : List Char) : Bool :=
  if dialect.isTyped then endsTyped operand signature cs
  else endsPlain operand (cs.length + 1) cs

end ScriptGraph.Syntax.LineEnd
