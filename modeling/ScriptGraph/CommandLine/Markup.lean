/-!
# Style markup in messages

Texts shown in tables and messages may carry style tags in square brackets: `[bold]`, `[/bold]`,
`[/]`. A tag starts with a lower-case letter or one of `#`, `/` and `@`; brackets with anything
else inside are plain text, and a backslash in front of a tag makes it plain. A closing tag without
an opening one is an error. Only the plain text is kept here.
-/

namespace ScriptGraph.CommandLine.Markup

/-- Whether a character may start a tag. -/
def startsTag (c : Char) : Bool :=
  c.isLower || c == '#' || c == '/' || c == '@'

/-- The inside of a tag and what follows it, read after the opening bracket. -/
def tag? (cs : List Char) : Option (List Char × List Char) :=
  match cs with
  | [] => none
  | c :: rest =>
    if startsTag c then
      let inner := rest.takeWhile fun d => d != ']' && d != '['
      match rest.drop inner.length with
      | ']' :: after => some (c :: inner, after)
      | _ => none
    else none

/-- The name of a tag, without the value after an equals sign. -/
def tagName (inner : List Char) : List Char :=
  let name := inner.takeWhile (· != '=')
  (name.dropWhile Char.isWhitespace).reverse.dropWhile Char.isWhitespace |>.reverse

/-- The open tags after another tag; `none` if it closes what is not open. -/
def openTags? (stack : List (List Char)) (inner : List Char) : Option (List (List Char)) :=
  match inner with
  | '/' :: rest =>
    let name := tagName rest
    -- A closing tag without a name closes the tag that was opened last.
    if name.isEmpty then stack.tail?
    else if stack.contains name then some (stack.erase name) else none
  | _ => some (tagName inner :: stack)

/-- The plain text of a marked-up one, read at most `fuel` pieces long. -/
def plainFrom (stack : List (List Char)) : Nat → List Char → Option (List Char)
  | 0, _ => some []
  | _ + 1, [] => some []
  | fuel + 1, c :: rest =>
    if c == '\\' then
      let slashes := rest.takeWhile (· == '\\')
      let after := rest.drop slashes.length
      let count := slashes.length + 1
      match after with
      | '[' :: inside =>
        match tag? inside with
        | some (inner, following) =>
          let kept := List.replicate (count / 2) '\\'
          -- Backslashes escape each other in pairs; one that is left over escapes the tag.
          if count % 2 == 1 then
            (plainFrom stack fuel following).map fun t => kept ++ '[' :: inner ++ ']' :: t
          else do
            let t ← plainFrom (← openTags? stack inner) fuel following
            return kept ++ t
        | none =>
          (plainFrom stack fuel inside).map fun t => List.replicate (count - 1) '\\' ++ '[' :: t
      | _ => (plainFrom stack fuel after).map fun t => List.replicate count '\\' ++ t
    else if c == '[' then
      match tag? rest with
      | some (inner, following) => do plainFrom (← openTags? stack inner) fuel following
      | none => (plainFrom stack fuel rest).map (c :: ·)
    else (plainFrom stack fuel rest).map (c :: ·)

/-- The plain text of a marked-up one; `none` if its tags do not match. -/
def plain? (text : String) : Option String :=
  (plainFrom [] (text.length + 1) text.toList).map String.ofList

end ScriptGraph.CommandLine.Markup
