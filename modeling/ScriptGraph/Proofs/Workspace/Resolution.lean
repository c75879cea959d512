import ScriptGraph.Proofs.Path
import ScriptGraph.Workspace.Resolution

/-!
# What specifiers resolve to

A specifier resolves to a file of the disk, written in its normal form. A specifier that is not a
path resolves in the nearest directory around the file that has its package or the types of its
package, and what resolves still does when files are added.

- `ancestors_dirName`: a package is looked for in the directories around a file, up to the root
- `inModules?_eq`: packages lie below the `node_modules` that they are looked for in
- `file?_isSome`: a path that stands for a file still does on a larger disk
- `resolve?_soundNearestMonotone`: what a specifier resolves to
-/

namespace ScriptGraph

open ScriptGraph.Path (Rooted IsName)

namespace Disk

variable {d larger : Disk}

/-- A disk contains the paths of its files. -/
theorem contains_keys {path : String} : d.files.contains path = true ↔ path ∈ d.files.keys := by
  simp [Table.contains, Table.keys]

/-- Every file of a disk is a file of another one, with the same text. -/
def Within (d larger : Disk) : Prop :=
  ∀ path text, d.files.find? path = some text → larger.files.find? path = some text

/-- A disk is within another one that has all its files. -/
theorem Within.of_entries (h : ∀ e ∈ d.files.entries, larger.files.find? e.1 = some e.2) :
    d.Within larger :=
  fun _ _ hfind => h _ (Table.mem_entries_of_find? hfind)

/-- A path on a disk is on a larger one. -/
theorem Within.mem_keys (h : d.Within larger) {path : String} (hpath : path ∈ d.files.keys) :
    path ∈ larger.files.keys := by
  have hfound : (d.files.find? path).isSome = true := by
    simpa [Table.find?, Table.keys, List.find?_isSome] using hpath
  obtain ⟨text, htext⟩ := Option.isSome_iff_exists.mp hfound
  exact List.mem_map_of_mem (Table.mem_entries_of_find? (h path text htext))

/-- A file on a disk is one on a larger one. -/
theorem Within.isFile (h : d.Within larger) {path : String} (hpath : d.isFile path = true) :
    larger.isFile path = true :=
  contains_keys.mpr (h.mem_keys (contains_keys.mp hpath))

/-- A directory on a disk is one on a larger one. -/
theorem Within.isDirectory (h : d.Within larger) {path : String}
    (hpath : d.isDirectory path = true) : larger.isDirectory path = true := by
  obtain ⟨file, hfile, hbelow⟩ := List.any_eq_true.mp hpath
  exact List.any_eq_true.mpr ⟨file, h.mem_keys hfile, hbelow⟩

/-- A file reads the same on a larger disk. -/
theorem Within.read? (h : d.Within larger) {path text : String} (hpath : d.read? path = some text) :
    larger.read? path = some text :=
  h _ text hpath

/-- A path is below a directory if it goes on after it with a slash. -/
theorem isBelow_text {r : Rooted} (h : r.names ≠ []) {path : String} :
    isBelow r.text path = true ↔ r.text.toList ++ ['/'] <+: path.toList := by
  have hroot : (r.text == "/") = false := by
    refine beq_eq_false_iff_ne.mpr fun he => h ?_
    have hnames := r.resolveDots_toList_text []
    rw [he] at hnames
    exact hnames.symm
  simp [isBelow, hroot, String.startsWith_string_iff]

/-- What lies below a directory lies below the directories around it. -/
theorem isDirectory_of_names (around inner : Rooted) (hslashes : inner.slashes = around.slashes)
    (hnames : around.names <+: inner.names) (hne : around.names ≠ [])
    (h : d.isDirectory inner.text = true) : d.isDirectory around.text = true := by
  obtain ⟨more, hmore⟩ := hnames
  have hinner : inner.names ≠ [] := by simp [← hmore, hne]
  -- The text of the outer directory and a slash start that of the inner one and a slash.
  have hlead : around.text.toList ++ ['/'] <+: inner.text.toList ++ ['/'] := by
    rw [Rooted.toList_text, Rooted.toList_text, hslashes, ← hmore]
    by_cases hempty : more = []
    · simp [hempty]
    · rw [Path.intercalate_append hne hempty]
      exact ⟨['/'].intercalate more ++ ['/'], by simp⟩
  rw [isDirectory, Rooted.absolute_text] at h ⊢
  obtain ⟨file, hfile, hbelow⟩ := List.any_eq_true.mp h
  exact List.any_eq_true.mpr ⟨file, hfile,
    (isBelow_text hne).mpr (hlead.trans ((isBelow_text hinner).mp hbelow))⟩

end Disk

namespace Resolution

/-! ## Files -/

/-- The last name of an absolute path is shorter than the path. -/
theorem length_baseChars_lt {path : List Char} (h : path.head? = some '/') :
    (Path.baseChars path).length < path.length := by
  obtain ⟨rest, rfl⟩ := List.head?_eq_some_iff.mp h
  have hbase := (List.takeWhile_sublist (l := rest.reverse) (· != '/')).length_le
  rw [Path.baseChars, List.length_reverse, List.reverse_cons, List.takeWhile_append]
  rw [List.length_reverse] at hbase
  split
  · simp
  · exact Nat.lt_succ_of_le hbase

/-- The slash that a path starts with does not belong to its extension. -/
theorem isAbsolute_splitExtension {path : String} (h : Path.isAbsolute path = true) :
    Path.isAbsolute (Path.splitExtension path).1 = true := by
  have hbase := length_baseChars_lt (Path.isAbsolute_iff.mp h)
  rw [Path.splitExtension]
  generalize hname : (Path.baseChars path.toList).drop
    ((Path.baseChars path.toList).takeWhile (· == '.')).length = name
  -- The extension is cut off behind the base of the path, which begins after a slash.
  have hle : name.length ≤ (Path.baseChars path.toList).length := by
    rw [← hname, List.length_drop]
    exact Nat.sub_le _ _
  have hext := (List.takeWhile_sublist (l := name.reverse) (· != '.')).length_le
  split
  next => exact h
  next hne =>
    simp only [List.length_reverse, beq_iff_eq] at hext hne
    rw [Path.isAbsolute_iff, String.toList_ofList, List.head?_take, if_neg]
    · exact Path.isAbsolute_iff.mp h
    · rw [List.length_reverse]
      omega

/-- All that a rooted path may stand for is rooted. -/
theorem isAbsolute_of_mem_candidates {base candidate : String} (h : Path.isAbsolute base = true)
    (hmem : candidate ∈ candidates base) : Path.isAbsolute candidate = true := by
  -- The path as it is spelled, with extensions, or an index file in it.
  rcases List.mem_append.mp hmem with hmem | hmem
  · rcases List.mem_append.mp hmem with hmem | hmem
    · rw [spelledCandidates] at hmem
      split at hmem
      · rcases List.mem_cons.mp hmem with rfl | hmem
        · exact h
        · split at hmem
          · obtain ⟨extension, -, rfl⟩ := List.mem_map.mp hmem
            exact Path.isAbsolute_append (isAbsolute_splitExtension h) extension
          · exact absurd hmem List.not_mem_nil
      · exact absurd hmem List.not_mem_nil
    · obtain ⟨extension, -, rfl⟩ := List.mem_map.mp hmem
      exact Path.isAbsolute_append h extension
  · obtain ⟨extension, -, rfl⟩ := List.mem_map.mp hmem
    exact Path.isAbsolute_join h _

/-- A path is a normal absolute one and names a file of the disk. -/
structure IsNormalFile (d : Disk) (path : String) : Prop where
  isAbsolute : Path.isAbsolute path = true
  normalize_eq : Path.normalize path = path
  mem_keys : path ∈ d.files.keys

variable {d larger : Disk}

/-- A rooted path stands for a file of the disk, in its normal form. -/
theorem isNormalFile_of_file? {base path : String} (hbase : Path.isAbsolute base = true)
    (h : file? d base = some path) : IsNormalFile d path := by
  obtain ⟨candidate, hfind, rfl⟩ := Option.map_eq_some_iff.mp h
  have hcandidate : Path.isAbsolute candidate = true :=
    isAbsolute_of_mem_candidates hbase (List.mem_of_find?_eq_some hfind)
  have hfile : d.isFile candidate = true := List.find?_some hfind
  rw [Disk.isFile, Path.absolute_of_isAbsolute hcandidate] at hfile
  refine ⟨?_, Path.normalize_normalize hcandidate, Disk.contains_keys.mp hfile⟩
  rw [← Rooted.text_ofAbsolute hcandidate]
  exact Rooted.isAbsolute_text _

/-- A path that stands for a file still does on a larger disk. -/
theorem file?_isSome (hd : d.Within larger) {base : String} (h : (file? d base).isSome = true) :
    (file? larger base).isSome = true := by
  rw [file?, Option.isSome_map, List.find?_isSome] at h ⊢
  obtain ⟨candidate, hmem, hfile⟩ := h
  exact ⟨candidate, hmem, hd.isFile hfile⟩

/-! ## Packages -/

/-- What is found in a package is a file under a normal path. -/
theorem isNormalFile_of_inPackage? {package inner path : String}
    (hpackage : Path.isAbsolute package = true) (h : inPackage? d package inner = some path) :
    IsNormalFile d path := by
  rw [inPackage?] at h
  split at h
  · exact nomatch h
  · split at h
    · obtain ⟨entry, -, hentry⟩ := List.exists_of_findSome?_eq_some h
      exact isNormalFile_of_file? (Path.isAbsolute_join hpackage entry) hentry
    · exact isNormalFile_of_file? (Path.isAbsolute_join hpackage inner) h

/-- The main file of a package may change when files are added, but it still has one. -/
theorem mainFile?_isSome (hd : d.Within larger) {package : String}
    (h : (mainFile? d package).isSome = true) : (mainFile? larger package).isSome = true := by
  rw [mainFile?, List.findSome?_isSome_iff] at h ⊢
  obtain ⟨entry, hentry, hfile⟩ := h
  refine ⟨entry, ?_, file?_isSome hd hfile⟩
  rcases List.mem_append.mp hentry with hentry | hentry
  · -- The entry stands in a manifest, which has not been changed.
    cases hread : d.read? (Path.join package "package.json") with
    | none => simp [hread] at hentry
    | some manifest =>
      rw [hread] at hentry
      rw [hd.read? hread]
      exact List.mem_append_left _ hentry
  · exact List.mem_append_right _ hentry

/-- What is found in a package is found on a larger disk. -/
theorem inPackage?_isSome (hd : d.Within larger) {package inner : String}
    (h : (inPackage? d package inner).isSome = true) :
    (inPackage? larger package inner).isSome = true := by
  by_cases hdir : d.isDirectory package = true
  · by_cases hinner : inner.isEmpty = true
    · simp only [inPackage?, hdir, hinner, hd.isDirectory hdir] at h ⊢
      exact mainFile?_isSome hd h
    · simp only [inPackage?, hdir, hinner, hd.isDirectory hdir] at h ⊢
      exact file?_isSome hd h
  · simp [inPackage?, hdir] at h

/-- What is found among modules is found on a larger disk. -/
theorem inModules?_isSome (hd : d.Within larger) {modules : String} {p : PackagePath}
    (h : (inModules? d modules p).isSome = true) : (inModules? larger modules p).isSome = true := by
  by_cases hdir : d.isDirectory modules = true
  · simp only [inModules?, hdir, hd.isDirectory hdir, Bool.not_true, Bool.false_eq_true, if_false,
      Option.isSome_or, Bool.or_eq_true] at h ⊢
    exact h.imp (inPackage?_isSome hd) (inPackage?_isSome hd)
  · simp [inModules?, hdir] at h

/-! ## Directories around a file -/

/-- A directory and those around it, the innermost one first. -/
def outward (directory : Rooted) : List Rooted :=
  (List.range (directory.names.length + 1)).reverse.map directory.take

/-- The directories around a file, the innermost one first. -/
def directoriesAround (file : String) : List Rooted :=
  let place := Rooted.ofPath file
  outward (place.take (place.names.length - 1))

/-- The way outwards starts at the directory itself. -/
theorem outward_eq_cons (directory : Rooted) : outward directory = directory ::
    (List.range directory.names.length).reverse.map directory.take := by
  have hself : directory.take directory.names.length = directory :=
    Rooted.ext rfl (List.take_length)
  rw [outward, List.range_succ, List.reverse_append, List.reverse_singleton, List.singleton_append,
    List.map_cons, hself]

/-- It goes on at the directory above. -/
theorem outward_take {directory : Rooted} (h : directory.names ≠ []) :
    outward (directory.take (directory.names.length - 1)) =
      (List.range directory.names.length).reverse.map directory.take := by
  have hlength : (directory.take (directory.names.length - 1)).names.length + 1 =
      directory.names.length := by
    have := List.length_pos_iff.mpr h
    rw [Rooted.take_names, List.length_take]
    omega
  rw [outward, hlength]
  refine List.map_congr_left fun count hcount => Rooted.ext rfl ?_
  have hlt : count < directory.names.length := List.mem_range.mp (List.mem_reverse.mp hcount)
  rw [Rooted.take_names, Rooted.take_names, Rooted.take_names, List.take_take,
    Nat.min_eq_left (by omega)]

/-- With enough steps every directory up to the root is reached. -/
theorem ancestorsFrom_text {depth : Nat} {directory : Rooted} (h : directory.names.length ≤ depth) :
    ancestorsFrom depth directory.text = (outward directory).map Rooted.text := by
  induction depth generalizing directory with
  | zero =>
    have hempty := List.eq_nil_of_length_eq_zero (Nat.le_zero.mp h)
    simp [ancestorsFrom, outward_eq_cons, hempty]
  | succ depth ih =>
    rw [ancestorsFrom, directory.dirName_text]
    -- The directory around the root is the root itself.
    by_cases hempty : directory.names = []
    · have hself : directory.take (directory.names.length - 1) = directory :=
        Rooted.ext rfl (by simp [hempty])
      rw [hself]
      simp [outward_eq_cons, hempty]
    · have hpos := List.length_pos_iff.mpr hempty
      have hlength : (directory.take (directory.names.length - 1)).names.length =
          directory.names.length - 1 := by
        rw [Rooted.take_names, List.length_take]
        omega
      have hne : (directory.take (directory.names.length - 1)).text ≠ directory.text := by
        intro he
        have hnames := congrArg List.length (Rooted.names_of_text_eq he)
        omega
      rw [if_neg (by simpa using hne), ih (by omega), outward_take hempty,
        outward_eq_cons directory, List.map_cons]

/-- A package is looked for in the directories around a file, up to the root. -/
theorem ancestors_dirName (importer : String) :
    ancestors (Path.dirName (Path.absolute importer)) =
      (directoriesAround importer).map Rooted.text := by
  rw [← Rooted.text_ofPath, Rooted.dirName_text, ancestors,
    ancestorsFrom_text (Rooted.length_names_le _)]
  rfl

/-! ## Places of packages -/

/-- The directory of a package in the `node_modules` of a directory. -/
def packageDirectory (directory : Rooted) (p : PackagePath) : String :=
  Path.join (Path.join directory.text "node_modules") p.package

/-- The directory of the types that are published for a package. -/
def typesDirectory (directory : Rooted) (p : PackagePath) : String :=
  Path.join (Path.join (Path.join directory.text "node_modules") "@types") (typesName p.package)

/-- A text starts with a character if this is its first one. -/
theorem startsWith_iff {lead : String} {c : Char} (hlead : lead.toList = [c]) (text : String) :
    text.startsWith lead = true ↔ text.toList.head? = some c := by
  rw [String.startsWith_string_iff, hlead, List.head?_eq_some_iff]
  exact ⟨fun ⟨rest, h⟩ => ⟨rest, h.symm⟩, fun ⟨rest, h⟩ => ⟨rest, h.symm⟩⟩

/-- A specifier that is not a path starts like its first part. -/
theorem exists_firstPart {specifier : String} (h : isPath specifier = false) :
    ∃ first rest, Path.splitParts specifier.toList = first :: rest ∧
      first.head? = specifier.toList.head? ∧ (first = [] ∨ IsName first) := by
  rw [isPath, Bool.or_eq_false_iff] at h
  have hdot : specifier.toList.head? ≠ some '.' :=
    mt (startsWith_iff rfl specifier).mpr (Bool.eq_false_iff.mp h.1)
  have hslash : specifier.toList.head? ≠ some '/' :=
    mt (startsWith_iff rfl specifier).mpr (Bool.eq_false_iff.mp h.2)
  generalize specifier.toList = chars at hdot hslash ⊢
  cases chars with
  | nil => exact ⟨[], [], rfl, rfl, .inl rfl⟩
  | cons c chars =>
    have hdot : c ≠ '.' := by simpa using hdot
    have hslash : c ≠ '/' := by simpa using hslash
    obtain ⟨part, parts, hparts⟩ := List.exists_cons_of_ne_nil (List.splitOn_ne_nil '/' chars)
    rw [← Path.splitParts_eq_splitOn] at hparts
    have hfirst : Path.splitParts (c :: chars) = (c :: part) :: parts := by
      rw [Path.splitParts, if_neg hslash, hparts]
    -- The first part is not empty, and neither of the parts that lead elsewhere.
    refine ⟨_, _, hfirst, rfl, .inr ⟨List.cons_ne_nil _ _, ?_, by simp [hdot], by simp [hdot]⟩⟩
    exact Path.slash_notMem_of_mem_splitParts (hfirst ▸ List.mem_cons_self)

/-- A package has a name of one part, which is not `..`, or of two parts, where the first is a name
and starts with `@`. -/
theorem package_cases {specifier : String} (h : isPath specifier = false) :
    ('/' ∉ (PackagePath.ofSpecifier specifier).package.toList ∧
      (PackagePath.ofSpecifier specifier).package.toList ≠ ['.', '.']) ∨
    (∃ scope name, (PackagePath.ofSpecifier specifier).package.toList = scope ++ '/' :: name ∧
      '/' ∉ name ∧ IsName scope ∧ scope.head? = some '@') := by
  obtain ⟨first, rest, hparts, hhead, hfirst⟩ := exists_firstPart h
  have hslash : '/' ∉ first := Path.slash_notMem_of_mem_splitParts (hparts ▸ List.mem_cons_self)
  -- With a scope, the first two parts make up the name.
  by_cases hscoped : specifier.startsWith "@" = true ∧ rest ≠ []
  · obtain ⟨hat, hrest⟩ := hscoped
    obtain ⟨second, rest, rfl⟩ := List.exists_cons_of_ne_nil hrest
    have hfirstAt : first.head? = some '@' := hhead.trans ((startsWith_iff rfl specifier).mp hat)
    refine .inr ⟨first, second, ?_, ?_, ?_, hfirstAt⟩
    · simp [PackagePath.ofSpecifier, hparts, hat, String.intercalate_cons_cons]
    · exact Path.slash_notMem_of_mem_splitParts (hparts ▸ List.mem_cons_of_mem _ List.mem_cons_self)
    · exact hfirst.resolve_left (by rintro rfl; exact nomatch hfirstAt)
  · have hcount : ¬(specifier.startsWith "@" = true ∧ 1 < (first :: rest).length) := fun hc =>
      hscoped ⟨hc.1, List.ne_nil_of_length_pos (Nat.lt_of_succ_lt_succ hc.2)⟩
    have hpackage : (PackagePath.ofSpecifier specifier).package.toList = first := by
      simp only [PackagePath.ofSpecifier, hparts, List.length_map, Bool.and_eq_true,
        decide_eq_true_eq, hcount, if_false]
      simp
    refine .inl ⟨hpackage ▸ hslash, hpackage ▸ ?_⟩
    · rintro rfl
      exact hfirst.elim (fun h => nomatch h) fun hname => hname.ne_dots rfl

/-- The types of a package have a name of one part. -/
theorem slash_notMem_typesName {specifier : String} (h : isPath specifier = false) :
    '/' ∉ (typesName (PackagePath.ofSpecifier specifier).package).toList := by
  -- A scope and a name are joined by underscores; a name alone has no slash.
  rw [typesName]
  split
  next =>
    rw [String.toList_join, List.flatMap_map]
    intro hmem
    obtain ⟨c, -, hc⟩ := List.mem_flatMap.mp hmem
    split at hc
    next => simp at hc
    next hne =>
      rw [String.toList_singleton, List.mem_singleton] at hc
      exact hne (by simp [← hc])
  next hat =>
    rcases package_cases h with ⟨hslash, -⟩ | ⟨scope, name, hname, -, -, hhead⟩
    · exact hslash
    · refine absurd ((startsWith_iff rfl _).mpr ?_) hat
      rw [hname, List.head?_append, hhead]
      rfl

/-- What is joined to a directory lies below those that the names of both continue. -/
theorem isDirectory_of_join {d : Disk} (around inner : Rooted)
    (hslashes : inner.slashes = around.slashes) (hne : around.names ≠ [])
    (hinner : inner.names ≠ []) {name : String}
    (hname : Path.isAbsolute name = false) (hlead : around.names <+: (inner.continued name).names)
    (h : d.isDirectory (Path.join inner.text name) = true) : d.isDirectory around.text = true := by
  refine Disk.isDirectory_of_names around (inner.continued name) hslashes hlead hne ?_
  rw [Disk.isDirectory,
    Path.absolute_of_isAbsolute (Path.isAbsolute_join inner.isAbsolute_text name),
    inner.normalize_join hinner hname] at h
  rwa [Disk.isDirectory, Rooted.absolute_text]

/-- The `node_modules` of a directory. -/
def modulesOf (directory : Rooted) : Rooted :=
  directory.continued "node_modules"

/-- The directory of modules has a name. -/
theorem isName_modules : IsName "node_modules".toList := by decide

/-- The directory of type declarations has a name. -/
theorem isName_types : IsName "@types".toList := by decide

/-- The modules of a directory are in the directory below it. -/
theorem join_modules (directory : Rooted) :
    Path.join directory.text "node_modules" = (modulesOf directory).text :=
  directory.join_name isName_modules

/-- The directory of modules is not the root. -/
theorem modulesOf_names_ne_nil (directory : Rooted) : (modulesOf directory).names ≠ [] := by
  simp [modulesOf, directory.names_continued_name isName_modules]

section Places

variable {d : Disk} {directory : Rooted} {specifier : String}

/-- A package lies below the `node_modules` that it is looked for in. -/
theorem isDirectory_modulesOf_of_package (h : isPath specifier = false)
    (hdir : d.isDirectory (packageDirectory directory (.ofSpecifier specifier)) = true) :
    d.isDirectory (modulesOf directory).text = true := by
  have hne := modulesOf_names_ne_nil directory
  rw [packageDirectory, join_modules] at hdir
  -- The package has one part, or a scope and a name.
  rcases package_cases h with ⟨hslash, hdots⟩ | ⟨scope, name, hname, hslash, hscope, -⟩
  · have hsplit := Path.splitParts_of_notMem hslash
    refine isDirectory_of_join (modulesOf directory) (modulesOf directory) rfl hne hne
      (Path.isAbsolute_eq_false hsplit (.inr rfl)) ?_ hdir
    have hlead := Path.prefix_resolveDots_of_ne hdots (modulesOf directory).names.reverse
    rwa [List.reverse_reverse, ← hsplit] at hlead
  · have hsplit : Path.splitParts (PackagePath.ofSpecifier specifier).package.toList =
        [scope, name] := by
      rw [hname, Path.splitParts_append_slash, Path.splitParts_of_notMem hscope.slash_notMem,
        Path.splitParts_of_notMem hslash]
      rfl
    refine isDirectory_of_join (modulesOf directory) (modulesOf directory) rfl hne hne
      (Path.isAbsolute_eq_false hsplit (.inl hscope.ne_nil)) ?_ hdir
    have hlead := Path.prefix_resolveDots_singleton hscope.ne_dots
      (modulesOf directory).names.reverse name
    rwa [List.reverse_reverse, ← Path.resolveDots_cons_name hscope, ← hsplit] at hlead

/-- The types of a package lie below the `node_modules` that they are looked for in. -/
theorem isDirectory_modulesOf_of_types (h : isPath specifier = false)
    (hdir : d.isDirectory (typesDirectory directory (.ofSpecifier specifier)) = true) :
    d.isDirectory (modulesOf directory).text = true := by
  have hslash := slash_notMem_typesName h
  have hsplit := Path.splitParts_of_notMem hslash
  have htypes := (modulesOf directory).names_continued_name isName_types
  rw [typesDirectory, join_modules, Rooted.join_name _ isName_types] at hdir
  refine isDirectory_of_join (modulesOf directory) ((modulesOf directory).continued "@types") rfl
    (modulesOf_names_ne_nil directory) (by simp [htypes])
    (Path.isAbsolute_eq_false hsplit (.inr rfl)) ?_ hdir
  -- At most `@types` itself is cancelled.
  have hlead := Path.prefix_resolveDots_singleton isName_types.ne_dots
    (modulesOf directory).names.reverse
    (typesName (PackagePath.ofSpecifier specifier).package).toList
  rw [List.reverse_reverse, ← hsplit] at hlead
  rw [Rooted.names_continued, htypes, List.reverse_append, List.reverse_singleton,
    List.singleton_append]
  exact hlead

end Places

/-- The file that a package path stands for in a directory: the package itself comes before the
types that are published for it. -/
theorem inModules?_eq (d : Disk) (directory : Rooted) {specifier : String}
    (h : isPath specifier = false) :
    inModules? d (Path.join directory.text "node_modules") (.ofSpecifier specifier) =
      (inPackage? d (packageDirectory directory (.ofSpecifier specifier))
        (PackagePath.ofSpecifier specifier).inner).or
      (inPackage? d (typesDirectory directory (.ofSpecifier specifier))
        (PackagePath.ofSpecifier specifier).inner) := by
  rw [inModules?]
  split
  next hdir =>
    -- Without `node_modules` there are no directories below it.
    rw [join_modules] at hdir
    have hpackage := mt (isDirectory_modulesOf_of_package h) (by simpa using hdir)
    have htypes := mt (isDirectory_modulesOf_of_types h) (by simpa using hdir)
    rw [inPackage?, inPackage?, if_pos (by simpa using hpackage), if_pos (by simpa using htypes)]
    rfl
  next => rfl

/-- What a directory gives for a specifier that is not a path. -/
def given? (d : Disk) (specifier : String) (directory : Rooted) : Option String :=
  inModules? d (Path.join directory.text "node_modules") (.ofSpecifier specifier)

/-- A specifier that is not a path resolves to what the directories around the file give. -/
theorem resolve?_eq_findSome? (d : Disk) {specifier : String} (h : isPath specifier = false)
    (importer : String) :
    resolve? d specifier importer =
      (directoriesAround importer).findSome? (given? d specifier) := by
  rw [resolve?, h, if_neg Bool.false_ne_true, package?, ancestors_dirName, List.findSome?_map]
  rfl

/-- A directory gives nothing if neither the package nor its types have the module. -/
theorem given?_eq_none (d : Disk) {specifier : String} (h : isPath specifier = false)
    (directory : Rooted) : given? d specifier directory = none ↔
      inPackage? d (packageDirectory directory (.ofSpecifier specifier))
        (PackagePath.ofSpecifier specifier).inner = none ∧
      inPackage? d (typesDirectory directory (.ofSpecifier specifier))
        (PackagePath.ofSpecifier specifier).inner = none := by
  rw [given?, inModules?_eq d directory h, Option.or_eq_none_iff]

/-- A directory gives what the package has, or else what its types have. -/
theorem given?_eq_some (d : Disk) {specifier : String} (h : isPath specifier = false)
    (directory : Rooted) (path : String) : given? d specifier directory = some path ↔
      inPackage? d (packageDirectory directory (.ofSpecifier specifier))
        (PackagePath.ofSpecifier specifier).inner = some path ∨
      inPackage? d (packageDirectory directory (.ofSpecifier specifier))
        (PackagePath.ofSpecifier specifier).inner = none ∧
      inPackage? d (typesDirectory directory (.ofSpecifier specifier))
        (PackagePath.ofSpecifier specifier).inner = some path := by
  rw [given?, inModules?_eq d directory h, Option.or_eq_some_iff]

/-- What a specifier resolves to is a normal path of a file. -/
theorem isNormalFile_of_resolve? {d : Disk} {specifier importer path : String}
    (h : resolve? d specifier importer = some path) : IsNormalFile d path := by
  by_cases hpath : isPath specifier = true
  · rw [resolve?, if_pos hpath, ← Rooted.text_ofPath, Rooted.dirName_text] at h
    exact isNormalFile_of_file? (Path.isAbsolute_join (Rooted.isAbsolute_text _) specifier) h
  · rw [resolve?_eq_findSome? d (Bool.eq_false_iff.mpr hpath)] at h
    obtain ⟨directory, -, hgiven⟩ := List.exists_of_findSome?_eq_some h
    have hmodules := Path.isAbsolute_join directory.isAbsolute_text "node_modules"
    rcases (given?_eq_some d (Bool.eq_false_iff.mpr hpath) directory path).mp hgiven with
      hown | ⟨-, htypes⟩
    · exact isNormalFile_of_inPackage? (Path.isAbsolute_join hmodules _) hown
    · exact isNormalFile_of_inPackage?
        (Path.isAbsolute_join (Path.isAbsolute_join hmodules _) _) htypes

/-- What resolves still does when files are added. -/
theorem resolve?_isSome {d larger : Disk} (hd : d.Within larger) {specifier importer : String}
    (h : (resolve? d specifier importer).isSome = true) :
    (resolve? larger specifier importer).isSome = true := by
  unfold resolve? at h ⊢
  split at h
  next hpath =>
    rw [if_pos hpath]
    exact file?_isSome hd h
  next hpath =>
    rw [if_neg hpath]
    rw [package?, List.findSome?_isSome_iff] at h ⊢
    -- The directory that gave a file gives one, unless a nearer one does.
    exact h.imp fun directory ⟨hmem, hgiven⟩ => ⟨hmem, inModules?_isSome hd hgiven⟩

/-- What a specifier resolves to is a normal path of a file. A specifier that is not a path resolves
in the nearest directory around the file that gives one, where the package itself comes before its
types, and to nothing only when no directory up to the root gives one. What resolves still does when
files are added. -/
theorem resolve?_sound_nearest_monotone (d : Disk) (specifier importer : String) :
    (∀ path, resolve? d specifier importer = some path → IsNormalFile d path) ∧
    (isPath specifier = false →
      let p := PackagePath.ofSpecifier specifier
      let own (directory : Rooted) := inPackage? d (packageDirectory directory p) p.inner
      let types (directory : Rooted) := inPackage? d (typesDirectory directory p) p.inner
      (∀ path, resolve? d specifier importer = some path ↔ ∃ nearer directory further,
        directoriesAround importer = nearer ++ directory :: further ∧
        (∀ a ∈ nearer, own a = none ∧ types a = none) ∧
        (own directory = some path ∨ own directory = none ∧ types directory = some path)) ∧
      (resolve? d specifier importer = none ↔
        ∀ a ∈ directoriesAround importer, own a = none ∧ types a = none)) ∧
    (∀ larger : Disk, d.Within larger → (resolve? d specifier importer).isSome = true →
      (resolve? larger specifier importer).isSome = true) := by
  refine ⟨fun _ => isNormalFile_of_resolve?, fun hpath => ?_, fun _ hd => resolve?_isSome hd⟩
  dsimp only
  -- Both parts follow from the search through the directories, taken as a list.
  refine ⟨fun path => ?_, ?_⟩
  · simp only [resolve?_eq_findSome? d hpath, List.findSome?_eq_some_iff, given?_eq_none d hpath,
      given?_eq_some d hpath]
    constructor
    · rintro ⟨nearer, directory, further, haround, hgiven, hnearer⟩
      exact ⟨nearer, directory, further, haround, hnearer, hgiven⟩
    · rintro ⟨nearer, directory, further, haround, hnearer, hgiven⟩
      exact ⟨nearer, directory, further, haround, hgiven, hnearer⟩
  · simp only [resolve?_eq_findSome? d hpath, List.findSome?_eq_none_iff, given?_eq_none d hpath]

/-- A disk with the types of a package. -/
def typesDisk : Disk :=
  .ofFiles [("node_modules/@types/org__lib/index.d.ts", "")]

/-- The same disk after the package has been added nearer to the sources. -/
def packageDisk : Disk :=
  .ofFiles [("node_modules/@types/org__lib/index.d.ts", ""),
    ("src/node_modules/@org/lib/index.js", "")]

/-- A scoped package without files of its own is resolved to its type declarations. -/
theorem resolve?_scopedPackage :
    IsNormalFile typesDisk "/proj/node_modules/@types/org__lib/index.d.ts" ∧
    (∃ a ∈ directoriesAround "src/main.ts",
      given? typesDisk "@org/lib" a = some "/proj/node_modules/@types/org__lib/index.d.ts") ∧
    (resolve? packageDisk "@org/lib" "src/main.ts").isSome = true := by
  have hresolved : resolve? typesDisk "@org/lib" "src/main.ts" =
      some "/proj/node_modules/@types/org__lib/index.d.ts" := by decide +kernel
  have hpath : isPath "@org/lib" = false := by decide +kernel
  have hwithin : typesDisk.Within packageDisk := .of_entries (by decide +kernel)
  have hsome : (resolve? typesDisk "@org/lib" "src/main.ts").isSome = true :=
    Option.isSome_of_eq_some hresolved
  -- Of the disk with types alone, all three parts are used.
  obtain ⟨hfile, hnearest, hmonotone⟩ :=
    resolve?_sound_nearest_monotone typesDisk "@org/lib" "src/main.ts"
  obtain ⟨nearer, directory, further, haround, -, hgiven⟩ := ((hnearest hpath).1 _).mp hresolved
  refine ⟨hfile _ hresolved, ⟨directory, ?_, ?_⟩, hmonotone _ hwithin hsome⟩
  · exact haround ▸ List.mem_append_right nearer List.mem_cons_self
  · exact (given?_eq_some typesDisk hpath directory _).mpr hgiven

/-- The package itself is found once it has been added nearer to the sources. -/
example : resolve? packageDisk "@org/lib" "src/main.ts" =
    some "/proj/src/node_modules/@org/lib/index.js" := by
  decide +kernel

end Resolution

end ScriptGraph
