/-!
# Dialects

The four syntaxes of script files and the rule that picks one from a file name and the language
an editor reports: the first matching row wins, and anything else is typed without markup.
-/

namespace ScriptGraph

/-- A script syntax: plain or typed, each with or without markup elements. -/
inductive Dialect
  | js | jsx | ts | tsx
deriving DecidableEq, Repr, Inhabited

namespace Dialect

/-- The name of a dialect. -/
def name : Dialect → String
  | js => "js"
  | jsx => "jsx"
  | ts => "ts"
  | tsx => "tsx"

/-- Whether the dialect has type annotations. -/
def isTyped : Dialect → Bool
  | ts | tsx => true
  | js | jsx => false

/-- Whether `<` at the start of an expression opens a markup element. -/
def hasMarkup : Dialect → Bool
  | ts => false
  | js | jsx | tsx => true

/-- Whether a file name ends in an extension, in whatever case it is written. -/
def hasExtension (fileName : String) (extension : String) : Bool :=
  (extension.toList.reverse).isPrefixOf ((fileName.toList.map Char.toLower).reverse)

/-- The dialect of a file. -/
def pick (fileName languageId : String) : Dialect :=
  let ends := hasExtension fileName
  if ends ".tsx" || languageId == "typescriptreact" then tsx
  else if ends ".jsx" || languageId == "javascriptreact" then jsx
  else if ends ".js" || ends ".mjs" || ends ".cjs" || languageId == "javascript" then js
  else ts

end Dialect

end ScriptGraph
