import ScriptGraph.Analysis
import ScriptGraph.CommandLine.Markup
import ScriptGraph.Graph.Selection

/-!
# Reports

What a command shows: plain text, a framed line, or tables with a title, a header and rows.
-/

namespace ScriptGraph.CommandLine

/-- One part of what a command shows. -/
inductive Block
  | text (content : String)
  | panel (content : String)
  | table (title : String) (header : List String) (rows : List (List String))
deriving DecidableEq, Repr

/-- The plain form of a part; `none` if its style tags do not match. -/
def Block.plain? : Block → Option Block
  | text content => some (text content)
  | panel content => (Markup.plain? content).map panel
  | table title header rows => do
    return table (← Markup.plain? title) header (← rows.mapM fun r => r.mapM Markup.plain?)

/-- A row of a table as a line. -/
def rowLine (cells : List String) : String :=
  " | ".intercalate cells ++ "\n"

/-- A part as it is printed. -/
def Block.render : Block → String
  | text content => content ++ "\n"
  | panel content => content ++ "\n"
  | table title header rows =>
    title ++ "\n" ++ rowLine header ++ String.join (rows.map rowLine)

/-- Where a target is declared, in short. -/
def shownOrigin (origin : Option Origin) : String :=
  match origin with
  | none => "unresolved"
  | some o =>
    let start := o.location.range.start
    -- Readers count lines and characters from one.
    Path.baseName o.location.fileName ++ ":" ++ toString (start.line + 1) ++ ":" ++
      toString (start.character + 1)

/-- The row of a ranked target. -/
def callRow (place : Nat) (r : CallRecord) : List String :=
  let isExternal := (r.origin.map (·.isExternal)).getD false
  [toString place, r.callee, toString r.count, shownOrigin r.origin,
    if isExternal then "yes" else ""]

/-- The table of ranked targets. -/
def callsTable (title : String) (calls : List CallRecord) : Block :=
  .table title ["#", "Callee", "Count", "Declaration", "External"]
    (calls.zipIdx.map fun (r, i) => callRow (i + 1) r)

/-- The table of imports. -/
def importsTable (imports : List ImportRecord) : Block :=
  .table "Imports" ["Source", "Kind", "Specifiers"]
    (imports.map fun r => [r.module, r.kind.name, ", ".intercalate r.specifiers])

/-- The table of exports. -/
def exportsTable (exports : List ExportRecord) : Block :=
  .table "Exports" ["Name", "Kind"] (exports.map fun r => [r.name, r.kind.name])

/-- The size of a graph in one line. -/
def graphLine (g : Graph) : String :=
  let counts := Graph.EdgeKind.produced.map fun k =>
    k.name ++ ": " ++ toString (g.edges.filter (·.kind == k)).length
  "Graph: " ++ toString g.nodes.length ++ " nodes | " ++ " | ".intercalate counts

/-- What is shown of an analysis. -/
def analysisBlocks (fileName : String) (chars : Nat) (a : Analysis) : List Block :=
  [.panel (fileName ++ "  " ++ toString chars ++ " chars"), importsTable a.imports,
    exportsTable a.exports, callsTable "Calls" a.calls, .text (graphLine a.graph)]

mutual

/-- The text of a setting's value inside another one. -/
def innerValueText : Json → String
  | .string s => "'" ++ s ++ "'"
  | .array items => "[" ++ ", ".intercalate (innerTexts items) ++ "]"
  | .object members => "\x7b" ++ ", ".intercalate (memberTexts members) ++ "\x7d"
  | .bool b => if b then "True" else "False"
  | .null => "None"
  | .integer n => toString n
  | .decimal d => Json.decimalText d

/-- The texts of the items of a setting's value. -/
def innerTexts : List Json → List String
  | [] => []
  | j :: rest => innerValueText j :: innerTexts rest

/-- The texts of the members of a setting's value. -/
def memberTexts : List (String × Json) → List String
  | [] => []
  | (name, j) :: rest => ("'" ++ name ++ "': " ++ innerValueText j) :: memberTexts rest

end

/-- The text of a setting's value. A list can only be shown if it holds texts. -/
def valueText? : Json → Option String
  | .string s => some s
  | .array items => (items.mapM Json.text?).map (", ".intercalate ·)
  | j => some (innerValueText j)

/-- The table of settings; `none` if a value cannot be shown. -/
def settingsTable? (s : Settings) : Option Block := do
  let members := match s.toJson with
    | .object members => members
    | _ => []
  let rows ← members.mapM fun m => do return [m.1, ← valueText? m.2]
  return .table "Analysis settings" ["Key", "Value"] rows

end ScriptGraph.CommandLine
