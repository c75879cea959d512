import ScriptGraph.Path

/-!
# Normal absolute paths

A normal absolute path is its slashes at the start and the names after them, and these can be read
off its text. Normalising any absolute path gives one, and normalising it again changes nothing.

- `Rooted.normalize_text`: a normal absolute path is normal
- `Rooted.text_ofPath`: every path has one
- `Rooted.dirName_text`: the directory around it drops the last name
- `Rooted.normalize_join`: what is written below it continues its names
-/

namespace ScriptGraph.Path

/-! ## Parts -/

/-- The parts of a path are what stands between its slashes. -/
theorem splitParts_eq_splitOn (path : List Char) : splitParts path = path.splitOn '/' := by
  induction path with
  | nil => rfl
  | cons c rest ih =>
    rw [splitParts, List.splitOn_cons_eq_if_modifyHead, ih]
    by_cases h : c = '/'
    · simp [h]
    · obtain ⟨part, parts, hparts⟩ := List.exists_cons_of_ne_nil (List.splitOn_ne_nil '/' rest)
      simp [h, hparts]

/-- A slash separates the parts before it from those after it. -/
theorem splitParts_append_slash (path rest : List Char) :
    splitParts (path ++ '/' :: rest) = splitParts path ++ splitParts rest := by
  simp only [splitParts_eq_splitOn, List.splitOn_append_cons_self]

/-- A text without slashes is one part. -/
theorem splitParts_of_notMem {part : List Char} (h : '/' ∉ part) : splitParts part = [part] := by
  rw [splitParts_eq_splitOn, List.splitOn_eq_singleton h]

/-- There are no slashes in parts. -/
theorem slash_notMem_of_mem_splitParts {path part : List Char} (h : part ∈ splitParts path) :
    '/' ∉ part := by
  -- By induction on the path: a slash ends a part, any other character goes into the first one.
  induction path generalizing part with
  | nil => simp_all [splitParts]
  | cons c rest ih =>
    rw [splitParts] at h
    split at h
    next =>
      rcases List.mem_cons.mp h with rfl | h
      · exact List.not_mem_nil
      · exact ih h
    next hc =>
      split at h
      next => simp [List.mem_singleton.mp h, Ne.symm hc]
      next first parts hparts =>
        rcases List.mem_cons.mp h with rfl | h
        · have hfirst : '/' ∉ first := ih (hparts ▸ List.mem_cons_self)
          simp [hfirst, Ne.symm hc]
        · exact ih (hparts ▸ List.mem_cons_of_mem _ h)

/-- A part that names something in a directory. -/
structure IsName (part : List Char) : Prop where
  ne_nil : part ≠ []
  slash_notMem : '/' ∉ part
  ne_dot : part ≠ ['.']
  ne_dots : part ≠ ['.', '.']

instance (part : List Char) : Decidable (IsName part) :=
  decidable_of_iff (part ≠ [] ∧ '/' ∉ part ∧ part ≠ ['.'] ∧ part ≠ ['.', '.'])
    ⟨fun ⟨a, b, c, d⟩ => ⟨a, b, c, d⟩, fun ⟨a, b, c, d⟩ => ⟨a, b, c, d⟩⟩

/-- Dots are resolved part by part. -/
theorem resolveDots_cons (rooted : Bool) (kept : List (List Char)) (part : List Char)
    (rest : List (List Char)) : resolveDots rooted kept (part :: rest) =
      if part.isEmpty || part == ['.'] then resolveDots rooted kept rest
      else if part == ['.', '.'] then
        match kept with
        | last :: below =>
          if last == ['.', '.'] then resolveDots rooted (part :: kept) rest
          else resolveDots rooted below rest
        | [] => if rooted then resolveDots rooted [] rest else resolveDots rooted [part] rest
      else resolveDots rooted (part :: kept) rest :=
  resolveDots.eq_def rooted kept (part :: rest)

/-- A name is kept. -/
theorem resolveDots_cons_name {part : List Char} (h : IsName part) (rooted : Bool)
    (kept rest : List (List Char)) :
    resolveDots rooted kept (part :: rest) = resolveDots rooted (part :: kept) rest := by
  simp [resolveDots_cons, h.ne_nil, h.ne_dot, h.ne_dots]

/-- An empty part is left out. -/
theorem resolveDots_cons_nil (rooted : Bool) (kept rest : List (List Char)) :
    resolveDots rooted kept ([] :: rest) = resolveDots rooted kept rest := by
  simp [resolveDots_cons]

/-- Names are kept. -/
theorem resolveDots_of_isName {names : List (List Char)} (h : ∀ n ∈ names, IsName n) (rooted : Bool)
    (kept : List (List Char)) : resolveDots rooted kept names = kept.reverse ++ names := by
  induction names generalizing kept with
  | nil => simp [resolveDots]
  | cons n names ih =>
    rw [resolveDots_cons_name (h n List.mem_cons_self),
      ih fun m hm => h m (List.mem_cons_of_mem _ hm)]
    simp

/-- What stands before is resolved first. -/
theorem resolveDots_append (rooted : Bool) (kept parts rest : List (List Char)) :
    resolveDots rooted kept (parts ++ rest) =
      resolveDots rooted (resolveDots rooted kept parts).reverse rest := by
  induction parts generalizing kept with
  | nil => simp [resolveDots]
  | cons part parts ih =>
    rw [List.cons_append, resolveDots_cons, resolveDots_cons]
    split
    · exact ih kept
    · split
      · cases kept <;> dsimp only <;> split <;> exact ih _
      · exact ih _

/-- A part cancels at most the last name. -/
theorem prefix_resolveDots_singleton {last : List Char} (h : last ≠ ['.', '.'])
    (kept : List (List Char)) (part : List Char) :
    kept.reverse <+: resolveDots true (last :: kept) [part] := by
  rw [resolveDots_cons]
  split
  · simp [resolveDots]
  · split <;> simp [h, resolveDots]

/-- Only two dots take away what has been kept. -/
theorem prefix_resolveDots_of_ne {part : List Char} (h : part ≠ ['.', '.'])
    (kept : List (List Char)) : kept.reverse <+: resolveDots true kept [part] := by
  rw [resolveDots_cons]
  split <;> simp [h, resolveDots]

/-- Only names are left below the root. -/
theorem isName_of_mem_resolveDots {kept parts : List (List Char)} (hkept : ∀ n ∈ kept, IsName n)
    (hparts : ∀ p ∈ parts, '/' ∉ p) : ∀ n ∈ resolveDots true kept parts, IsName n := by
  induction parts generalizing kept with
  | nil => simpa [resolveDots] using hkept
  | cons part parts ih =>
    have hrest : ∀ p ∈ parts, '/' ∉ p := fun p hp => hparts p (List.mem_cons_of_mem _ hp)
    rw [resolveDots_cons]
    split
    next => exact ih hkept hrest
    next hempty =>
      split
      next =>
        cases kept with
        | nil => exact ih hkept hrest
        | cons last below =>
          -- A `..` is not a name, so it has not been kept.
          simp only [beq_eq_false_iff_ne.mpr (hkept last List.mem_cons_self).ne_dots,
            Bool.false_eq_true, if_false]
          exact ih (fun n hn => hkept n (List.mem_cons_of_mem _ hn)) hrest
      next hdots =>
        have hname : IsName part := ⟨fun h => hempty (by simp [h]), hparts part List.mem_cons_self,
          fun h => hempty (by simp [h]), fun h => hdots (by simp [h])⟩
        exact ih (List.forall_mem_cons.mpr ⟨hname, hkept⟩) hrest

/-! ## Texts of names -/

section Names

variable {names : List (List Char)}

/-- Two lists of names are joined by a slash. -/
theorem intercalate_append {more : List (List Char)} (h : names ≠ []) (hmore : more ≠ []) :
    ['/'].intercalate (names ++ more) =
      ['/'].intercalate names ++ '/' :: ['/'].intercalate more := by
  induction names with
  | nil => exact absurd rfl h
  | cons n names ih =>
    -- The last name of the first list is followed by a slash as well.
    cases names with
    | nil =>
      obtain ⟨m, more, rfl⟩ := List.exists_cons_of_ne_nil hmore
      simp
    | cons n' names =>
      rw [List.cons_append, List.cons_append, List.intercalate_cons_cons, ← List.cons_append,
        ih (List.cons_ne_nil _ _), List.intercalate_cons_cons]
      simp

/-- One more name is joined by a slash. -/
theorem intercalate_concat (h : names ≠ []) (n : List Char) :
    ['/'].intercalate (names ++ [n]) = ['/'].intercalate names ++ '/' :: n := by
  rw [intercalate_append h (List.cons_ne_nil n []), List.intercalate_singleton]

/-- Names that are joined are at least as long as their number. -/
theorem length_le_intercalate (h : ∀ n ∈ names, IsName n) :
    names.length ≤ (['/'].intercalate names).length := by
  induction names with
  | nil => exact Nat.le_refl 0
  | cons n names ih =>
    have hn := List.length_pos_iff.mpr (h n List.mem_cons_self).ne_nil
    have hnames := ih fun m hm => h m (List.mem_cons_of_mem _ hm)
    -- A slash is counted between two names, never after the last one.
    cases names with
    | nil =>
      rw [List.intercalate_singleton]
      exact hn
    | cons m names =>
      rw [List.intercalate_cons_cons, List.length_append, List.length_append, List.length_cons]
      simp only [List.length_cons, List.length_nil] at hnames ⊢
      omega

/-- What is joined from names does not start with a slash. -/
theorem takeWhile_slash_intercalate (h : ∀ n ∈ names, IsName n) :
    (['/'].intercalate names).takeWhile (· == '/') = [] := by
  cases names with
  | nil => rfl
  | cons n names =>
    obtain ⟨c, cs, rfl⟩ := List.exists_cons_of_ne_nil (h n List.mem_cons_self).ne_nil
    have hc : c ≠ '/' := fun hc =>
      (h _ List.mem_cons_self).slash_notMem (hc ▸ List.mem_cons_self)
    cases names <;> simp [hc]

/-- What is joined from names does not end in a slash. -/
theorem getLast?_intercalate (h : ∀ n ∈ names, IsName n) :
    (['/'].intercalate names).getLast? ≠ some '/' := by
  rcases List.eq_nil_or_concat names with rfl | ⟨front, n, rfl⟩
  · simp
  · have hn := h n (by simp)
    have hlast : n.getLast? ≠ some '/' := fun hl => hn.slash_notMem (List.mem_of_getLast? hl)
    by_cases hfront : front = []
    · simpa [hfront] using hlast
    · rw [List.concat_eq_append, intercalate_concat hfront, List.getLast?_append,
        List.getLast?_cons_of_ne_nil hn.ne_nil]
      simpa [List.getLast?_eq_some_getLast hn.ne_nil] using hlast

/-- Names that were joined are the names that are read. -/
theorem resolveDots_splitParts_intercalate (h : ∀ n ∈ names, IsName n) (rooted : Bool)
    (kept : List (List Char)) :
    resolveDots rooted kept (splitParts (['/'].intercalate names)) = kept.reverse ++ names := by
  by_cases hnames : names = []
  · simp [hnames, splitParts, resolveDots]
  · rw [splitParts_eq_splitOn,
      List.splitOn_intercalate '/' (fun n hn => (h n hn).slash_notMem) hnames,
      resolveDots_of_isName h]

end Names

/-! ## Normal absolute paths -/

/-- A normal absolute path: its slashes at the start, and the names below the root. -/
@[ext]
structure Rooted where
  slashes : List Char
  names : List (List Char)
  slashes_eq : slashes = ['/'] ∨ slashes = ['/', '/']
  isName : ∀ n ∈ names, IsName n

namespace Rooted

/-- The path as it is written. -/
def text (r : Rooted) : String :=
  String.ofList (r.slashes ++ ['/'].intercalate r.names)

/-- The directory that the first so many names lead to. -/
def take (r : Rooted) (count : Nat) : Rooted where
  slashes := r.slashes
  names := r.names.take count
  slashes_eq := r.slashes_eq
  isName n hn := r.isName n (List.mem_of_mem_take hn)

/-- What further parts lead to. -/
def continued (r : Rooted) (rest : String) : Rooted where
  slashes := r.slashes
  names := resolveDots true r.names.reverse (splitParts rest.toList)
  slashes_eq := r.slashes_eq
  isName := isName_of_mem_resolveDots (fun n hn => r.isName n (List.mem_reverse.mp hn))
    fun _ => slash_notMem_of_mem_splitParts

variable (r : Rooted)

/-- The text of a rooted path is its slashes and its names. -/
@[simp] theorem toList_text : r.text.toList = r.slashes ++ ['/'].intercalate r.names :=
  String.toList_ofList

/-- The first names of a path are those of the path above. -/
@[simp] theorem take_names (count : Nat) : (r.take count).names = r.names.take count := rfl

/-- The text of a rooted path is absolute. -/
theorem isAbsolute_text : isAbsolute r.text = true := by
  rcases r.slashes_eq with h | h <;> simp [isAbsolute, h]

/-- The slashes of a rooted path are the leading ones of its text. -/
theorem leadingSlashes_toList_text : leadingSlashes r.text.toList = r.slashes := by
  have hnames := takeWhile_slash_intercalate r.isName
  rcases r.slashes_eq with h | h <;> simp [leadingSlashes, h, hnames]

/-- The names of a rooted path are read from its text. -/
theorem resolveDots_toList_text (kept : List (List Char)) :
    resolveDots true kept (splitParts r.text.toList) = kept.reverse ++ r.names := by
  have hnames := resolveDots_splitParts_intercalate r.isName true kept
  rcases r.slashes_eq with h | h <;> simp [h, splitParts, resolveDots_cons_nil, hnames]

/-- Normalising keeps the slashes and resolves the dots. -/
theorem normalize_eq_text {path : String}
    (hslashes : leadingSlashes path.toList = r.slashes)
    (hnames : resolveDots true [] (splitParts path.toList) = r.names) :
    normalize path = r.text := by
  have hrooted : (!r.slashes.isEmpty) = true ∧
      (r.slashes ++ ['/'].intercalate r.names).isEmpty = false := by
    rcases r.slashes_eq with h | h <;> simp [h]
  rw [normalize, hslashes, hrooted.1, hnames, if_neg (by rw [hrooted.2]; decide), text]

/-- A normal absolute path is normal. -/
@[simp] theorem normalize_text : normalize r.text = r.text :=
  r.normalize_eq_text r.leadingSlashes_toList_text (r.resolveDots_toList_text [])

/-- The text of a rooted path is not changed by being made absolute. -/
@[simp] theorem absolute_text : absolute r.text = r.text := by
  rw [absolute, if_pos r.isAbsolute_text, normalize_text]

/-- Rooted paths with the same text have the same names. -/
theorem names_of_text_eq {r r' : Rooted} (h : r.text = r'.text) : r.names = r'.names := by
  have hnames := r.resolveDots_toList_text []
  rw [h, r'.resolveDots_toList_text] at hnames
  exact hnames.symm

/-- A rooted path has no more names than characters. -/
theorem length_names_le : r.names.length ≤ r.text.length := by
  rw [← String.length_toList, toList_text, List.length_append]
  exact Nat.le_trans (length_le_intercalate r.isName) (Nat.le_add_left _ _)

end Rooted

/-! ## Every path has one -/

/-- An absolute path is only normalised. -/
theorem absolute_of_isAbsolute {path : String} (h : isAbsolute path = true) :
    absolute path = normalize path := by
  rw [absolute, if_pos h]

/-- A path is absolute if it starts with a slash. -/
theorem isAbsolute_iff {path : String} : isAbsolute path = true ↔ path.toList.head? = some '/' := by
  simp [isAbsolute]

/-- A path that starts with a part that is not empty is not absolute. -/
theorem isAbsolute_eq_false {path : String} {first : List Char} {rest : List (List Char)}
    (h : splitParts path.toList = first :: rest) (hfirst : first ≠ [] ∨ rest = []) :
    isAbsolute path = false := by
  refine Bool.eq_false_iff.mpr fun habsolute => ?_
  obtain ⟨below, hbelow⟩ := List.head?_eq_some_iff.mp (isAbsolute_iff.mp habsolute)
  rw [hbelow, splitParts, if_pos rfl, List.cons.injEq] at h
  rcases hfirst with hne | rfl
  · exact hne h.1.symm
  · rw [splitParts_eq_splitOn] at h
    exact List.splitOn_ne_nil '/' below h.2

/-- What follows an absolute path leaves it absolute. -/
theorem isAbsolute_append {path : String} (h : isAbsolute path = true) (rest : String) :
    isAbsolute (path ++ rest) = true := by
  rw [isAbsolute_iff] at h ⊢
  rw [String.toList_append, List.head?_append, h]
  rfl

/-- A name joined to an absolute path leaves it absolute. -/
theorem isAbsolute_join {dir : String} (h : isAbsolute dir = true) (name : String) :
    isAbsolute (join dir name) = true := by
  unfold join
  split
  · assumption
  · split
    · exact isAbsolute_append h name
    · exact isAbsolute_append (isAbsolute_append h "/") name

/-- An absolute path has one leading slash or two. -/
theorem leadingSlashes_eq {path : List Char} (h : path.head? = some '/') :
    leadingSlashes path = ['/'] ∨ leadingSlashes path = ['/', '/'] := by
  obtain ⟨rest, rfl⟩ := List.head?_eq_some_iff.mp h
  rw [leadingSlashes]
  split <;> simp_all

/-- The normal form of an absolute path. -/
def Rooted.ofAbsolute (path : String) (h : isAbsolute path = true) : Rooted where
  slashes := leadingSlashes path.toList
  names := resolveDots true [] (splitParts path.toList)
  slashes_eq := leadingSlashes_eq (isAbsolute_iff.mp h)
  isName := isName_of_mem_resolveDots (fun _ hn => absurd hn List.not_mem_nil)
    fun _ => slash_notMem_of_mem_splitParts

/-- The normal absolute form of a path. -/
def Rooted.ofPath (path : String) : Rooted :=
  if h : isAbsolute path = true then .ofAbsolute path h
  else .ofAbsolute (join workingDirectory path) (isAbsolute_join rfl path)

/-- A rooted path has the normalised text that it is made from. -/
theorem Rooted.text_ofAbsolute {path : String} (h : isAbsolute path = true) :
    (Rooted.ofAbsolute path h).text = normalize path :=
  ((Rooted.ofAbsolute path h).normalize_eq_text rfl rfl).symm

/-- A rooted path has the absolute text of the path that it is made from. -/
theorem Rooted.text_ofPath (path : String) : (Rooted.ofPath path).text = absolute path := by
  unfold Rooted.ofPath absolute
  split <;> exact Rooted.text_ofAbsolute _

/-- Normalising an absolute path twice is normalising it once. -/
theorem normalize_normalize {path : String} (h : isAbsolute path = true) :
    normalize (normalize path) = normalize path := by
  rw [← Rooted.text_ofAbsolute h, Rooted.normalize_text]

/-! ## Directories -/

namespace Rooted

variable (r : Rooted)

/-- Unless it is the root, a rooted path does not end in a slash. -/
theorem getLast?_text (h : r.names ≠ []) : r.text.toList.getLast? ≠ some '/' := by
  have hlast := getLast?_intercalate r.isName
  have hne : ['/'].intercalate r.names ≠ [] := by
    obtain ⟨n, names, hnames⟩ := List.exists_cons_of_ne_nil h
    have hn := (r.isName n (hnames ▸ List.mem_cons_self)).ne_nil
    cases names <;> simp [hnames, hn]
  rw [toList_text, List.getLast?_append, List.getLast?_eq_some_getLast hne]
  rw [List.getLast?_eq_some_getLast hne] at hlast
  simpa using hlast

/-- What is written below a directory is joined to it by a slash. -/
theorem join_text (h : r.names ≠ []) {name : String} (hname : isAbsolute name = false) :
    join r.text name = r.text ++ "/" ++ name := by
  have hempty : r.text.isEmpty = false := by
    rcases r.slashes_eq with hs | hs <;> simp [text, hs]
  have hlast : (r.text.toList.getLast? == some '/') = false :=
    beq_eq_false_iff_ne.mpr (r.getLast?_text h)
  rw [join, if_neg (by rw [hname]; decide), if_neg (by simp only [hempty, hlast]; decide)]

/-- What is written below a directory continues its names. -/
theorem normalize_join (h : r.names ≠ []) {name : String} (hname : isAbsolute name = false) :
    normalize (join r.text name) = (r.continued name).text := by
  rw [r.join_text h hname]
  -- It remains to see where the names begin and that resolving the dots goes on from the directory.
  have htext : (r.text ++ "/" ++ name).toList =
      r.text.toList ++ '/' :: name.toList := by simp
  refine (r.continued name).normalize_eq_text ?_ ?_
  · -- The slashes at the start end before the first name.
    have hstart := takeWhile_slash_intercalate r.isName
    obtain ⟨n, names, hnames⟩ := List.exists_cons_of_ne_nil h
    have hn := r.isName n (hnames ▸ List.mem_cons_self)
    obtain ⟨c, cs, rfl⟩ := List.exists_cons_of_ne_nil hn.ne_nil
    have hc : c ≠ '/' := fun hc => hn.slash_notMem (hc ▸ List.mem_cons_self)
    rw [htext, toList_text, hnames]
    rcases r.slashes_eq with hs | hs <;> cases names <;>
      simp [leadingSlashes, continued, hs, hc]
  · rw [htext, splitParts_append_slash, resolveDots_append, r.resolveDots_toList_text]
    rfl

/-- A path that is continued resolves the dots of what follows. -/
theorem names_continued (rest : String) :
    (r.continued rest).names = resolveDots true r.names.reverse (splitParts rest.toList) := rfl

/-- A path that is continued by a name has the name last. -/
theorem names_continued_name {name : String} (hname : IsName name.toList) :
    (r.continued name).names = r.names ++ [name.toList] := by
  have hone : ∀ n ∈ [name.toList], IsName n := fun n hn => List.mem_singleton.mp hn ▸ hname
  simp [continued, splitParts_of_notMem hname.slash_notMem, resolveDots_of_isName hone]

/-- A name in a directory. -/
theorem join_name {name : String} (hname : IsName name.toList) :
    join r.text name = (r.continued name).text := by
  have habsolute : isAbsolute name = false :=
    isAbsolute_eq_false (splitParts_of_notMem hname.slash_notMem) (.inr rfl)
  have hnames := r.names_continued_name hname
  refine String.toList_inj.mp ?_
  -- The root ends in a slash of its own; any other path needs one in between.
  by_cases h : r.names = []
  · have hlast : r.text.toList.getLast? = some '/' := by
      rcases r.slashes_eq with hs | hs <;> simp [h, hs]
    rw [join, if_neg (by rw [habsolute]; decide), if_pos (by rw [hlast]; simp),
      String.toList_append, toList_text, toList_text, hnames, h]
    simp [continued]
  · rw [r.join_text h habsolute, toList_text, hnames, intercalate_concat h]
    simp [continued]

/-- The directory around a path drops its last name; the root is around itself. -/
theorem dirName_text : dirName r.text = (r.take (r.names.length - 1)).text := by
  -- Whatever is cut off, the slashes at the start stay.
  have hroot : (r.slashes.reverse.dropWhile (· != '/')).reverse = r.slashes ∧
      (r.slashes.reverse.dropWhile (· == '/')).reverse = [] := by
    rcases r.slashes_eq with h | h <;> simp [h]
  -- A path without names is its slashes, which are kept.
  rcases List.eq_nil_or_concat r.names with h | ⟨front, n, h⟩
  · simp [dirName, text, take, h, hroot]
  · rw [List.concat_eq_append] at h
    have hn : IsName n := r.isName n (by simp [h])
    have hlast : ∀ c ∈ n.reverse, (c != '/') = true := fun c hc =>
      bne_iff_ne.mpr fun he => hn.slash_notMem (he ▸ List.mem_reverse.mp hc)
    have htake : (r.take (r.names.length - 1)).names = front := by simp [h]
    -- With one name, only the slashes are around it.
    by_cases hempty : front = []
    · have htext : r.text.toList = r.slashes ++ n := by simp [h, hempty]
      rw [dirName, htext, List.reverse_append, List.dropWhile_append_of_pos hlast, hroot.1, hroot.2,
        text, htake, hempty]
      simp [take]
    · -- Without the last name, the path around it and one slash are left.
      have htext : r.text.toList = (r.take (r.names.length - 1)).text.toList ++ '/' :: n := by
        rw [toList_text, toList_text, htake, h, intercalate_concat hempty, ← List.append_assoc]
        rfl
      have hend := (r.take (r.names.length - 1)).getLast?_text (htake ▸ hempty)
      have hne := isAbsolute_iff.mp (r.take (r.names.length - 1)).isAbsolute_text
      generalize (r.take (r.names.length - 1)).text = dir at htext hend hne ⊢
      obtain ⟨c, cs, hdir⟩ : ∃ c cs, dir.toList.reverse = c :: cs :=
        List.exists_cons_of_ne_nil fun h => by simp [List.reverse_eq_nil_iff.mp h] at hne
      have hc : c ≠ '/' := by
        rintro rfl
        rw [← List.head?_reverse, hdir] at hend
        exact hend rfl
      have htrimmed : ('/' :: dir.toList.reverse).dropWhile (· == '/') = dir.toList.reverse := by
        simp [hdir, hc]
      rw [dirName, htext, List.reverse_append, List.reverse_cons, List.append_assoc,
        List.dropWhile_append_of_pos hlast, List.singleton_append,
        List.dropWhile_cons_of_neg (by decide), List.reverse_reverse, htrimmed,
        List.reverse_reverse, if_neg (by simpa using fun h => by simp [h] at hne),
          String.ofList_toList]

end Rooted

end ScriptGraph.Path
