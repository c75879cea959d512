/-!
# Slash-separated paths

Paths are texts with `/` between their parts. Joining, splitting and normalising are operations
on the text alone; no file system is consulted. A path that does not start with `/` is taken
relative to the working directory `/proj`.
-/

namespace ScriptGraph.Path

/-- The directory that relative paths start from. -/
def workingDirectory : String := "/proj"

/-- The parts between the slashes of a path; empty parts are kept. -/
def splitParts : List Char → List (List Char)
  | [] => [[]]
  | c :: rest =>
    if c = '/' then [] :: splitParts rest
    else match splitParts rest with
      | [] => [[c]]
      | part :: parts => (c :: part) :: parts

/-- Whether a path starts at the root. -/
def isAbsolute (path : String) : Bool :=
  path.toList.head? == some '/'

/-- `name` seen from the directory `dir`. -/
def join (dir name : String) : String :=
  if isAbsolute name then name
  else if dir.isEmpty || dir.toList.getLast? == some '/' then dir ++ name
  else dir ++ "/" ++ name

/-- Drops empty parts and `.`, and lets `..` cancel the part before it. A `..` with nothing to
cancel stays, except at the root. `kept` holds the parts so far, last one first. -/
def resolveDots (rooted : Bool) (kept : List (List Char)) : List (List Char) → List (List Char)
  | [] => kept.reverse
  | part :: rest =>
    if part.isEmpty || part == ['.'] then resolveDots rooted kept rest
    else if part == ['.', '.'] then
      match kept with
      | last :: below =>
        -- A `..` that has been kept cannot be cancelled.
        if last == ['.', '.'] then resolveDots rooted (part :: kept) rest
        else resolveDots rooted below rest
      | [] => if rooted then resolveDots rooted [] rest else resolveDots rooted [part] rest
    else resolveDots rooted (part :: kept) rest

/-- The slashes at the start of a normal path: exactly two are kept, any other number is one. -/
def leadingSlashes (path : List Char) : List Char :=
  match (path.takeWhile (· == '/')).length with
  | 0 => []
  | 2 => ['/', '/']
  | _ => ['/']

/-- The shortest path that names the same place. -/
def normalize (path : String) : String :=
  let chars := path.toList
  let root := leadingSlashes chars
  let parts := resolveDots (!root.isEmpty) [] (splitParts chars)
  let text := root ++ ['/'].intercalate parts
  if text.isEmpty then "." else String.ofList text

/-- The normal absolute form of a path. -/
def absolute (path : String) : String :=
  normalize (if isAbsolute path then path else join workingDirectory path)

/-- Whether two paths name the same place. -/
def same (a b : String) : Bool :=
  absolute a == absolute b

/-- The characters after the last slash. -/
def baseChars (path : List Char) : List Char :=
  (path.reverse.takeWhile (· != '/')).reverse

/-- The part after the last slash. -/
def baseName (path : String) : String :=
  String.ofList (baseChars path.toList)

/-- The part before the last slash, without slashes at its end unless it has nothing else. -/
def dirName (path : String) : String :=
  let head := (path.toList.reverse.dropWhile (· != '/')).reverse
  let trimmed := (head.reverse.dropWhile (· == '/')).reverse
  String.ofList (if trimmed.isEmpty then head else trimmed)

/-- The part after the last slash, or the whole path when that part is empty. -/
def displayName (path : String) : String :=
  let base := baseName path
  if base.isEmpty then path else base

/-- Splits a path before the last dot of its base name; dots at the start of the base name do
not count. -/
def splitExtension (path : String) : String × String :=
  let chars := path.toList
  let base := baseChars chars
  let dots := base.takeWhile (· == '.')
  let name := base.drop dots.length
  let ext := (name.reverse.takeWhile (· != '.')).reverse
  -- Without a dot all of the name has been taken.
  if ext.length == name.length then (path, "")
  else (String.ofList (chars.take (chars.length - ext.length - 1)), String.ofList ('.' :: ext))

end ScriptGraph.Path
