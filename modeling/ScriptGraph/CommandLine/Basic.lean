import ScriptGraph.CommandLine.Arguments
import ScriptGraph.CommandLine.Report
import ScriptGraph.Graph.Dot
import ScriptGraph.Settings.Toml

/-!
# The command line

`run` carries out one command: `analyze`, `calls`, `graph` or `config`. Files are read from a disk
and none is written; the files to write are part of the outcome.
-/

namespace ScriptGraph.CommandLine

/-- What a command can see: the files around it and its configuration file. -/
structure Environment where
  disk : Disk
  configuration : Option String
  configurationPath : String

/-- What a command has done: its exit code, what it shows and the files that it writes, by normal
absolute path. -/
structure Outcome where
  exitCode : Nat
  shown : List Block := []
  written : List (String × String) := []
deriving DecidableEq, Repr

/-- Why a command ends early. -/
inductive Failure
  | usage
  | failed
deriving DecidableEq, Repr

/-- The exit code of a command that ends early. -/
def Failure.exitCode : Failure → Nat
  | usage => 2
  | failed => 1

/-- What a command comes to, or why it ends early. -/
abbrev Result := Except Failure Outcome

/-- The text with every line end written as a line feed. -/
def unixLines : List Char → List Char
  | [] => []
  | '\r' :: '\n' :: rest => '\n' :: unixLines rest
  | '\r' :: rest => '\n' :: unixLines rest
  | c :: rest => c :: unixLines rest

/-- The files of a disk as they are read. -/
def readableFiles (files : List (String × String)) : Disk :=
  .ofFiles (files.map fun f => (f.1, String.ofList (unixLines f.2.toList)))

/-- The version that is shown. -/
def versionText : String :=
  "CodeGraph TS v0.1.0"

/-- How a command is used. -/
def helpText : String :=
  "Commands: analyze FILE, calls FILE, graph FILE, config"

/-- The option that asks for help. -/
def helpRule : OptionRule :=
  ⟨"--help", none, false⟩

/-- The option that names the language of a file. -/
def languageRule : OptionRule :=
  ⟨"--language-id", some 'l', true⟩

/-- The option that names the file to write. -/
def outputRule : OptionRule :=
  ⟨"--output", some 'o', true⟩

/-- The options before the command. -/
def programRules : List OptionRule :=
  [helpRule, ⟨"--version", some 'V', false⟩, ⟨"--verbose", some 'v', false⟩]

/-- The options of `analyze`. -/
def analyzeRules : List OptionRule :=
  [helpRule, languageRule, outputRule, ⟨"--json", none, false⟩]

/-- The options of `calls`. -/
def callsRules : List OptionRule :=
  [helpRule, languageRule, ⟨"--limit", some 'n', true⟩]

/-- The options of `graph`. -/
def graphRules : List OptionRule :=
  [helpRule, languageRule, outputRule, ⟨"--format", some 'f', true⟩, ⟨"--kind", some 'k', true⟩,
    ⟨"--focus", none, true⟩]

/-- A value, or a failure if there is none. -/
def orFail (failure : Failure) (value : Option α) : Except Failure α :=
  match value with
  | some a => .ok a
  | none => .error failure

/-- The settings of the configuration file. -/
def settings (env : Environment) : Except Failure Settings :=
  let root := match env.configuration with
    -- A configuration that cannot be read counts as an empty one.
    | some text => (Toml.parse? text).getD []
    | none => []
  match Settings.ofLayers (Toml.analysisTable root) [] with
  | .ok s => .ok s
  | .error _ => .error .failed

/-- A path without empty parts and single dots. -/
def tidyPath (path : String) : String :=
  let chars := path.toList
  let parts := (Path.splitParts chars).filter fun p => !p.isEmpty && p != ['.']
  let text := Path.leadingSlashes chars ++ ['/'].intercalate parts
  if text.isEmpty then "." else String.ofList text

/-- The one operand of a command. -/
def operand (a : Arguments) : Except Failure String :=
  match a.operands with
  | [path] => .ok path
  | _ => .error .usage

/-- A file that has been analysed. -/
structure Analysed where
  path : String
  text : String
  languageId : String
  analysis : Analysis

/-- The name of an analysed file. -/
def Analysed.name (a : Analysed) : String :=
  Path.baseName a.path

/-- Reads and analyses the file that a command names. -/
def analysed (env : Environment) (a : Arguments) : Except Failure Analysed := do
  let path := Path.absolute (← operand a)
  -- The file is looked for before the settings are read, whose failure has another exit code.
  let text ← orFail .usage (env.disk.read? path)
  let settings ← settings env
  let languageId := (a.value? "--language-id").getD ""
  let source := Source.ofText path text (Dialect.pick path languageId)
  return ⟨path, text, languageId, Analysis.ofSource settings env.disk Ambient.library source⟩

/-- Whether a file can be written. -/
def isWritable (d : Disk) (path : String) : Bool :=
  let isDirectory (p : String) : Bool :=
    -- The working directory and those around it exist even when no file lies in them.
    d.isDirectory p || p == Path.workingDirectory || Disk.isBelow p Path.workingDirectory
  isDirectory (Path.dirName path) && !isDirectory path

/-- Shows a text, or writes it to the file that the arguments name. -/
def emit (env : Environment) (a : Arguments) (text : String) : Result :=
  match a.value? "--output" with
  | none => .ok { exitCode := 0, shown := [.text text] }
  | some output => do
    let path := Path.absolute output
    if !isWritable env.disk path then throw .failed
    let message ← orFail .failed (Markup.plain? ("Wrote " ++ tidyPath output))
    return { exitCode := 0, shown := [.text message], written := [(path, text)] }

/-- Shows blocks. -/
def display (blocks : List Block) : Result := do
  return { exitCode := 0, shown := ← orFail .failed (blocks.mapM Block.plain?) }

/-- Shows how to use the program. -/
def help : Result :=
  .ok { exitCode := 0, shown := [.text helpText] }

/-- The command `analyze`. -/
def analyze (env : Environment) (words : List String) : Result := do
  let a ← orFail .usage (readArguments analyzeRules false words)
  if a.has "--help" then help
  else
    let file ← analysed env a
    let stats := TextStats.ofText file.text
    -- Only JSON can be written to a file.
    if a.has "--json" || a.has "--output" then
      emit env a (file.analysis.envelope file.path file.languageId stats).indented
    else display (analysisBlocks file.name stats.chars file.analysis)

/-- The number of rows that the arguments ask for. -/
def rowLimit (a : Arguments) : Except Failure Nat :=
  match a.value? "--limit" with
  | none => .ok 20
  | some word =>
    match wholeNumber? word with
    | some n => if 1 ≤ n then .ok n.toNat else .error .usage
    | none => .error .usage

/-- The command `calls`. -/
def calls (env : Environment) (words : List String) : Result := do
  let a ← orFail .usage (readArguments callsRules false words)
  if a.has "--help" then help
  else
    let limit ← rowLimit a
    let file ← analysed env a
    if file.analysis.calls.isEmpty then display [.text "No calls found."]
    else display [callsTable ("Top calls in " ++ file.name) (file.analysis.calls.take limit)]

/-- The kinds of edges that the arguments ask for. -/
def edgeKinds (a : Arguments) : Except Failure (List Graph.EdgeKind) :=
  (a.values "--kind").mapM fun name =>
    orFail .usage (Graph.EdgeKind.produced.find? fun k => k.name == name)

/-- The command `graph`. -/
def graph (env : Environment) (words : List String) : Result := do
  let a ← orFail .usage (readArguments graphRules false words)
  if a.has "--help" then help
  else
    let format := String.ofList (((a.value? "--format").getD "json").toList.map Char.toLower)
    if format != "json" && format != "dot" then throw .usage
    -- All arguments are checked before the file is read.
    let kinds ← edgeKinds a
    let file ← analysed env a
    let part := file.analysis.graph.select kinds ((a.value? "--focus").getD "")
    emit env a (if format == "dot" then part.toDot else part.toJson.indented)

/-- The command `config`. -/
def config (env : Environment) (words : List String) : Result := do
  let a ← orFail .usage (readArguments [helpRule] false words)
  if a.has "--help" then help
  else if !a.operands.isEmpty then throw .usage
  else
    let table ← orFail .failed (settingsTable? (← settings env))
    let source := if env.configuration.isSome then env.configurationPath else "defaults"
    display [table, .text ("Source: " ++ source)]

/-- The command of a name. -/
def command? : String → Option (Environment → List String → Result)
  | "analyze" => some analyze
  | "calls" => some calls
  | "graph" => some graph
  | "config" => some config
  | _ => none

/-- Carries out a command line. -/
def result (env : Environment) (words : List String) : Result := do
  let a ← orFail .usage (readArguments programRules true words)
  if a.has "--help" then help
  else if a.has "--version" then return { exitCode := 0, shown := [.text versionText] }
  else match a.operands with
    | [] => throw .usage
    | name :: rest =>
      let command ← orFail .usage (command? name)
      command env rest

/-- Carries out a command line. A command that ends early shows and writes nothing. -/
def run (env : Environment) (words : List String) : Outcome :=
  match result env words with
  | .ok outcome => outcome
  | .error failure => { exitCode := failure.exitCode }

end ScriptGraph.CommandLine
