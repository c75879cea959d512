import ScriptGraph.CommandLine.Basic

/-!
# The program

Reads the files below the working directory and the configuration file, carries out the command
line, and prints and writes what comes of it.
-/

namespace ScriptGraph

/-- The files below a directory, by path from it; those that are no text are left out. `name` is
the path of the directory. -/
partial def filesBelow (name : String) (directory : IO.FS.DirEntry) :
    IO (List (String × String)) := do
  let entries := (← directory.path.readDir.toBaseIO).toOption.getD #[]
  let mut files := []
  for entry in entries do
    let path := name ++ "/" ++ entry.fileName
    match ← entry.path.metadata.toBaseIO with
    | .error _ => pure ()
    | .ok data =>
      if data.type == .dir then files := files ++ (← filesBelow path entry)
      else match ← (IO.FS.readFile entry.path).toBaseIO with
        | .ok text => files := files ++ [(path, text)]
        | .error _ => pure ()
  return files

/-- The path of the configuration file. -/
def configurationPath : IO String := do
  let directory ← match ← IO.getEnv "CODEGRAPH_TS_HOME" with
    | some home => pure home
    | none => do pure ((← IO.getEnv "HOME").getD "" ++ "/.codegraph-ts")
  return directory ++ "/config.toml"

/-- The path from the working directory to a normal path below it. -/
def relativePath (path : String) : String :=
  String.ofList (path.toList.drop (Path.workingDirectory.length + 1))

/-- Runs a command line in the current directory. -/
def runHere (words : List String) : IO UInt32 := do
  let files ← filesBelow Path.workingDirectory ⟨← IO.currentDir, "."⟩
  let configurationPath ← configurationPath
  let configuration := (← (IO.FS.readFile configurationPath).toBaseIO).toOption
  let outcome := CommandLine.run
    { disk := CommandLine.readableFiles files, configuration, configurationPath } words
  for block in outcome.shown do
    IO.print block.render
  for (path, text) in outcome.written do
    IO.FS.writeFile (relativePath path) text
  return outcome.exitCode.toUInt32

end ScriptGraph

/-- Runs the command line that the program was started with. -/
def main (words : List String) : IO UInt32 :=
  ScriptGraph.runHere words
