import ScriptGraph.Json.Reader
import ScriptGraph.Workspace.Disk

/-!
# From module specifiers to files

A relative or rooted specifier names a file directly, perhaps without its extension or as a
directory with an index file. Any other specifier names a package in the `node_modules` directory
of the importing file's directory or of one around it, or the types published for that package.
-/

namespace ScriptGraph.Resolution

/-- The extensions that a specifier may leave out, in the order in which they are tried. -/
def extensions : List String :=
  [".ts", ".tsx", ".d.ts", ".js", ".jsx", ".mjs", ".cjs"]

/-- The extensions of files whose typed sources may stand under the same name. -/
def compiledExtensions : List String :=
  [".js", ".jsx", ".mjs", ".cjs"]

/-- The extensions of typed sources. -/
def typedExtensions : List String :=
  [".ts", ".tsx", ".d.ts"]

/-- The paths that a path written in a specifier may stand for as it is. -/
def spelledCandidates (base : String) : List String :=
  if extensions.any fun e => base.endsWith e then
    let (stem, extension) := Path.splitExtension base
    -- Sources may import what they are compiled to.
    base :: if compiledExtensions.contains extension then typedExtensions.map (stem ++ ·) else []
  else []

/-- The paths that a path written in a specifier may stand for, the best one first. -/
def candidates (base : String) : List String :=
  spelledCandidates base ++ extensions.map (base ++ ·) ++
    extensions.map fun e => Path.join base ("index" ++ e)

/-- The file that a path written in a specifier stands for. -/
def file? (d : Disk) (base : String) : Option String :=
  ((candidates base).find? d.isFile).map Path.normalize

/-- The entries of a manifest that may name the main file, the best one first. -/
def manifestFields : List String :=
  ["types", "typings", "module", "main"]

/-- The entry points that a manifest names. -/
def entryPoints (manifest : String) : List String :=
  match Json.parse? manifest with
  | some table => manifestFields.filterMap fun f =>
      ((table.find? f).bind Json.text?).filter fun entry => !entry.isEmpty
  | none => []

/-- The file that a package's own name stands for. -/
def mainFile? (d : Disk) (package : String) : Option String :=
  let entries := match d.read? (Path.join package "package.json") with
    | some manifest => entryPoints manifest
    | none => []
  (entries ++ ["index"]).findSome? fun entry => file? d (Path.join package entry)

/-- The file that a path within a package stands for; the empty path is its main file. -/
def inPackage? (d : Disk) (package inner : String) : Option String :=
  if !d.isDirectory package then none
  else if inner.isEmpty then mainFile? d package
  else file? d (Path.join package inner)

/-- The name of a package and the path within it. -/
structure PackagePath where
  package : String
  inner : String
deriving DecidableEq, Repr

/-- Splits a specifier after the package's name, which has two parts when it starts with `@`. -/
def PackagePath.ofSpecifier (specifier : String) : PackagePath :=
  let parts := (Path.splitParts specifier.toList).map String.ofList
  -- In `@scope/name/path` the first two parts name the package.
  let count := if specifier.startsWith "@" && 1 < parts.length then 2 else 1
  ⟨"/".intercalate (parts.take count), "/".intercalate (parts.drop count)⟩

/-- The name under which the types of a package are published. -/
def typesName (package : String) : String :=
  if package.startsWith "@" then
    String.join ((package.toList.drop 1).map fun c => if c == '/' then "__" else String.singleton c)
  else package

/-- The file that a package path stands for in one `node_modules` directory. -/
def inModules? (d : Disk) (modules : String) (p : PackagePath) : Option String :=
  if !d.isDirectory modules then none
  else
    -- Types that come with the package win over those that are published apart.
    (inPackage? d (Path.join modules p.package) p.inner).or
      (inPackage? d (Path.join (Path.join modules "@types") (typesName p.package)) p.inner)

/-- A directory and the directories around it, at most `depth` of them. -/
def ancestorsFrom : Nat → String → List String
  | 0, directory => [directory]
  | depth + 1, directory =>
    let parent := Path.dirName directory
    if parent == directory then [directory] else directory :: ancestorsFrom depth parent

/-- A directory and the directories around it, the innermost one first. -/
def ancestors (directory : String) : List String :=
  ancestorsFrom directory.length directory

/-- The file that a package path stands for, seen from a directory. -/
def package? (d : Disk) (directory : String) (p : PackagePath) : Option String :=
  (ancestors directory).findSome? fun a => inModules? d (Path.join a "node_modules") p

/-- Whether a specifier is a path of its own. -/
def isPath (specifier : String) : Bool :=
  specifier.startsWith "." || specifier.startsWith "/"

/-- The file that a specifier stands for in an importing file. -/
def resolve? (d : Disk) (specifier importer : String) : Option String :=
  let directory := Path.dirName (Path.absolute importer)
  if isPath specifier then file? d (Path.join directory specifier)
  else package? d directory (.ofSpecifier specifier)

end ScriptGraph.Resolution
