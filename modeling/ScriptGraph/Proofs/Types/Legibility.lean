import Mathlib.Data.List.Forall2
import Mathlib.Data.String.Basic
import ScriptGraph.Types.Substitution

/-!
# Types that can be read back

A text shows a type without saying which symbols its names stand for, and not below a certain
depth. Where every name stands for one thing, types that are made of names, arrays, tuples and
unions and are not nested too deep can be read back from their texts. So different ones are shown
by different texts.

- `Ty.Legible`: the types that can be read back, with a vocabulary for their names
- `Legible.readable`: a legible type is shown by a text from which it is read back
- `Readable.unique`: only one type is read back from a text
-/

namespace ScriptGraph.Ty

/-- What names stand for: alone, before type arguments and after `typeof`. Arrays and tuples refer
to symbols that are not shown. -/
structure Vocabulary where
  bare : String → Ty
  generic : String → Entity
  side : String → Entity
  arrays : Option Entity
  tuples : Option Entity

/-- Whether a character may be part of a name, so that it is not used for anything else. -/
def isNameChar (c : Char) : Bool :=
  !([' ', ',', '<', '>', '[', ']', '(', ')', '|', '"'].contains c)

/-- A text that is read as a name. -/
structure IsName (name : String) : Prop where
  ne_nil : name.toList ≠ []
  all : ∀ c ∈ name.toList, isNameChar c = true
  ne_typeof : name ≠ "typeof"

/-- The name by which a type is shown, if that is all that is shown. -/
def bareName? : Ty → Option String
  | intrinsic i => some i.name
  | object e [] => some e.name
  | parameter name => some name
  | text spelling => some spelling
  | unspecified => some "any"
  | _ => none

/-- A type that is shown completely in a number of levels, in the words of a vocabulary. Unions have
at least two alternatives, which are no unions. -/
inductive Legible (v : Vocabulary) : Nat → Ty → Prop
  | bare {n : Nat} {t : Ty} {name : String} (hname : IsName name) (ht : t.bareName? = some name)
      (hv : v.bare name = t) : Legible v (n + 1) t
  | generic {n : Nat} {e : Entity} {arguments : List Ty} (hname : IsName e.name)
      (he : v.generic e.name = e) (hne : arguments ≠ [])
      (harguments : ∀ t ∈ arguments, Legible v n t) : Legible v (n + 1) (.object e arguments)
  | static {n : Nat} {e : Entity} (hname : IsName e.name) (he : v.side e.name = e) :
      Legible v (n + 1) (.static e)
  | array {n : Nat} {element : Ty} (helement : Legible v n element) :
      Legible v (n + 1) (.array element v.arrays)
  | tuple {n : Nat} {elements : List Ty} (helements : ∀ t ∈ elements, Legible v n t) :
      Legible v (n + 1) (.tuple elements v.tuples)
  | union {n : Nat} {members : List Ty} (htwo : 2 ≤ members.length)
      (hsingle : ∀ t ∈ members, t.unionParts = [t]) (hmembers : ∀ t ∈ members, Legible v n t) :
      Legible v (n + 1) (.union members)

/-! ## Reading types -/

section Reading

variable (v : Vocabulary)

/-- The arrays of a type, as many as there are brackets. -/
def readArrays (t : Ty) : List Char → Ty × List Char
  | '[' :: ']' :: s => readArrays (.array t v.arrays) s
  | s => (t, s)

/-- What a name stands for, and whether type arguments follow. -/
def readName (readTypes : List Char → List Ty × List Char) (s : List Char) : Ty × List Char :=
  let name := String.ofList (s.takeWhile isNameChar)
  let s := s.dropWhile isNameChar
  if name = "typeof" then
    (.static (v.side (String.ofList ((s.drop 1).takeWhile isNameChar))),
      (s.drop 1).dropWhile isNameChar)
  else
    match s with
    | '<' :: s =>
      let (arguments, s) := readTypes s
      (.object (v.generic name) arguments, s)
    | s => (v.bare name, s)

mutual

/-- Reads a type that is no union. -/
def readElement : Nat → List Char → Ty × List Char
  | 0, s => (.unspecified, s)
  | fuel + 1, s =>
    match s with
    | '[' :: s =>
      let (elements, s) := readTypes fuel s
      readArrays v (.tuple elements v.tuples) s
    | '(' :: s =>
      let (members, s) := readAlternatives fuel s
      readArrays v (.union members) (s.drop 1)
    | s =>
      let (t, s) := readName v (readTypes fuel) s
      readArrays v t s

/-- Reads the alternatives of a type. -/
def readAlternatives : Nat → List Char → List Ty × List Char
  | 0, s => ([], s)
  | fuel + 1, s =>
    let (t, s) := readElement fuel s
    match s with
    | ' ' :: '|' :: ' ' :: s =>
      let (ts, s) := readAlternatives fuel s
      (t :: ts, s)
    | s => ([t], s)

/-- Reads a list of types with the bracket that closes it. -/
def readTypes : Nat → List Char → List Ty × List Char
  | 0, s => ([], s)
  | fuel + 1, s =>
    match s with
    | ']' :: s => ([], s)
    | s =>
      let (members, s) := readAlternatives fuel s
      match s with
      | ',' :: ' ' :: s =>
        let (ts, s) := readTypes fuel s
        (ofAlternatives members :: ts, s)
      | s => ([ofAlternatives members], s.drop 1)

end

end Reading

/-! ## Reading names -/

/-- What comes after a name. -/
def AfterName (s : List Char) : Prop :=
  ∀ c ∈ s.head?, isNameChar c = false

/-- What comes after a type that is no union, apart from brackets of arrays. -/
def AfterElement (s : List Char) : Prop :=
  ∀ c ∈ s.head?, isNameChar c = false ∧ c ≠ '<'

/-- What comes after a type. -/
def AfterType (s : List Char) : Prop :=
  ∀ c ∈ s.head?, c = ',' ∨ c = '>' ∨ c = ']' ∨ c = ')'

/-- What may follow a type may follow an element of it. -/
theorem AfterType.afterElement {s : List Char} (h : AfterType s) : AfterElement s := by
  intro c hc
  rcases h c hc with rfl | rfl | rfl | rfl <;> decide

section Names

variable {v : Vocabulary} {name : String} {s : List Char}

/-- A name is read up to its end. -/
theorem takeWhile_name (hname : IsName name) (hs : AfterName s) :
    (name.toList ++ s).takeWhile isNameChar = name.toList ∧
      (name.toList ++ s).dropWhile isNameChar = s := by
  rw [List.takeWhile_append_of_pos hname.all, List.dropWhile_append_of_pos hname.all]
  cases s with
  | nil => simp
  | cons c rest => simp [hs c rfl]

/-- A name alone is read as the type of that name. -/
theorem readName_bare (readTypes : List Char → List Ty × List Char) (hname : IsName name)
    (hs : AfterElement s) : readName v readTypes (name.toList ++ s) = (v.bare name, s) := by
  obtain ⟨htake, hdrop⟩ := takeWhile_name hname fun c hc => (hs c hc).1
  rw [readName, htake, hdrop, String.ofList_toList]
  simp only [if_neg hname.ne_typeof]
  split
  · exact absurd rfl (hs '<' rfl).2
  · rfl

/-- A name before an angle bracket is read with its arguments. -/
theorem readName_generic (readTypes : List Char → List Ty × List Char) (hname : IsName name) :
    readName v readTypes (name.toList ++ '<' :: s) =
      (.object (v.generic name) (readTypes s).1, (readTypes s).2) := by
  have hs : AfterName ('<' :: s) := fun c hc => by
    obtain rfl := Option.some.inj hc
    decide
  obtain ⟨htake, hdrop⟩ := takeWhile_name hname hs
  rw [readName, htake, hdrop, String.ofList_toList]
  simp only [if_neg hname.ne_typeof]

/-- A name after `typeof` is read as a static side. -/
theorem readName_static (readTypes : List Char → List Ty × List Char) (hname : IsName name)
    (hs : AfterName s) :
    readName v readTypes ("typeof ".toList ++ (name.toList ++ s)) = (.static (v.side name), s) := by
  obtain ⟨htake, hdrop⟩ := takeWhile_name hname hs
  have hall : ∀ c ∈ "typeof".toList, isNameChar c = true :=
    List.all_eq_true.mp (by decide)
  have hword : "typeof ".toList ++ (name.toList ++ s) =
      "typeof".toList ++ ' ' :: (name.toList ++ s) := rfl
  rw [readName, hword, List.takeWhile_append_of_pos hall, List.dropWhile_append_of_pos hall]
  simp [isNameChar, htake, hdrop, String.ofList_toList]

end Names

/-- Without a bracket after it a type is no array. -/
theorem readArrays_of_after (v : Vocabulary) (t : Ty) {s : List Char} (hs : s.head? ≠ some '[') :
    readArrays v t s = (t, s) := by
  unfold readArrays
  split
  · exact absurd rfl hs
  · rfl

/-- A type that starts with a name. -/
theorem readElement_name (v : Vocabulary) (fuel : Nat) {s : List Char}
    (hs : ∀ c ∈ s.head?, c ≠ '[' ∧ c ≠ '(') :
    readElement v (fuel + 1) s =
      readArrays v (readName v (readTypes v fuel) s).1 (readName v (readTypes v fuel) s).2 := by
  unfold readElement
  split
  · exact absurd rfl (hs '[' rfl).1
  · exact absurd rfl (hs '(' rfl).2
  · rfl

/-- A name does not start with a bracket. -/
theorem IsName.head {name : String} (h : IsName name) (s : List Char) :
    ∀ c ∈ (name.toList ++ s).head?, c ≠ '[' ∧ c ≠ '(' ∧ c ≠ ']' := by
  intro c hc
  have hmem : c ∈ name.toList := by
    cases hlist : name.toList with
    | nil => exact absurd hlist h.ne_nil
    | cons d rest =>
      rw [hlist] at hc
      exact Option.some.inj hc ▸ List.mem_cons_self
  have hall := h.all c hmem
  refine ⟨?_, ?_, ?_⟩ <;> (rintro rfl; exact absurd hall (by decide))

/-! ## Reading lists -/

section Lists

variable {v : Vocabulary} {fuel : Nat} {t : Ty} {members : List Ty} {s rest : List Char}

/-- The last alternative ends the union. -/
theorem readAlternatives_last (h : readElement v fuel s = (t, rest)) (hrest : AfterType rest) :
    readAlternatives v (fuel + 1) s = ([t], rest) := by
  rw [readAlternatives, h]
  dsimp only
  split
  · exact absurd (hrest ' ' rfl) (by decide)
  · rfl

/-- A bar is followed by more alternatives. -/
theorem readAlternatives_more (h : readElement v fuel s = (t, " | ".toList ++ rest)) :
    readAlternatives v (fuel + 1) s =
      (t :: (readAlternatives v fuel rest).1, (readAlternatives v fuel rest).2) := by
  rw [readAlternatives, h]
  rfl

/-- The last type ends the list. -/
theorem readTypes_last (hs : s.head? ≠ some ']') {closing : Char} (hclosing : closing ≠ ',')
    (h : readAlternatives v fuel s = (members, closing :: rest)) :
    readTypes v (fuel + 1) s = ([ofAlternatives members], rest) := by
  unfold readTypes
  split
  · exact absurd rfl hs
  · rw [h]
    dsimp only
    split
    · rename_i hcomma
      exact absurd (List.cons.inj hcomma).1 hclosing
    · rfl

/-- A comma is followed by more types. -/
theorem readTypes_more (hs : s.head? ≠ some ']')
    (h : readAlternatives v fuel s = (members, ", ".toList ++ rest)) :
    readTypes v (fuel + 1) s =
      (ofAlternatives members :: (readTypes v fuel rest).1, (readTypes v fuel rest).2) := by
  rw [readTypes.eq_def]
  dsimp only
  split
  · exact absurd rfl hs
  · rw [h]
    rfl

end Lists

/-! ## Reading texts -/

/-- Reading a text and whatever comes after it gives a type that is no union. -/
def ReadsElement (v : Vocabulary) (t : Ty) (text : String) : Prop :=
  ∃ least, ∀ fuel, least ≤ fuel → ∀ s, AfterElement s →
    readElement v fuel (text.toList ++ s) = readArrays v t s

/-- Reading a text and whatever comes after it gives the alternatives of a type. -/
def ReadsType (v : Vocabulary) (t : Ty) (text : String) : Prop :=
  ∃ least, ∀ fuel, least ≤ fuel → ∀ s, AfterType s →
    readAlternatives v fuel (text.toList ++ s) = (t.unionParts, s)

/-- A text does not start as the end of a list does. -/
def Opens (text : String) : Prop :=
  ∃ c rest, text.toList = c :: rest ∧ c ≠ ']'

/-- What opens a type does not close a list. -/
theorem Opens.head_ne {text : String} (h : Opens text) (s : List Char) :
    (text.toList ++ s).head? ≠ some ']' := by
  obtain ⟨c, rest, htext, hc⟩ := h
  rw [htext]
  exact fun h => hc (Option.some.inj h)

/-- What opens a type may be followed by anything. -/
theorem Opens.append {text : String} (h : Opens text) (more : String) : Opens (text ++ more) := by
  obtain ⟨c, rest, htext, hc⟩ := h
  refine ⟨c, rest ++ more.toList, ?_, hc⟩
  rw [String.toList_append, htext, List.cons_append]

section Texts

variable {v : Vocabulary}

/-- The alternatives of a type are read one after the other. -/
theorem readAlternatives_members {members : List Ty} {texts : List String}
    (h : List.Forall₂ (ReadsElement v) members texts) (hne : members ≠ []) :
    ∃ least, ∀ fuel, least ≤ fuel → ∀ s, AfterType s →
      readAlternatives v fuel ((" | ".intercalate texts).toList ++ s) = (members, s) := by
  -- By induction on the alternatives; the last one needs no bar behind it.
  induction h with
  | nil => exact absurd rfl hne
  | @cons t text members texts ht hmembers ih =>
    obtain ⟨least, hleast⟩ := ht
    cases hmembers with
    -- The last alternative, with whatever may stand behind a type.
    | nil =>
      refine ⟨least + 1, fun fuel hfuel s hs => ?_⟩
      obtain ⟨fuel, rfl⟩ := Nat.exists_eq_succ_of_ne_zero (show fuel ≠ 0 by omega)
      rw [String.intercalate_singleton]
      apply readAlternatives_last _ hs
      rw [hleast fuel (by omega) s hs.afterElement]
      exact readArrays_of_after v t fun hbracket => by simpa using hs '[' hbracket
    | @cons next nextText rest restTexts hnext hrest =>
      obtain ⟨more, hmore⟩ := ih (List.cons_ne_nil _ _)
      refine ⟨least + more + 1, fun fuel hfuel s hs => ?_⟩
      obtain ⟨fuel, rfl⟩ := Nat.exists_eq_succ_of_ne_zero (show fuel ≠ 0 by omega)
      -- A bar ends an element.
      have hbar : ∀ s, AfterElement (" | ".toList ++ s) := fun s c hc => by
        obtain rfl := Option.some.inj hc
        decide
      rw [String.intercalate_cons_cons, String.toList_append, String.toList_append,
        List.append_assoc, List.append_assoc, readAlternatives_more (t := t),
          hmore fuel (by omega) s hs]
      rw [hleast fuel (by omega) _ (hbar _)]
      exact readArrays_of_after v t (by simp)

/-- The types of a list are read one after the other, up to the bracket that closes the list. -/
theorem readTypes_types {types : List Ty} {texts : List String} {closing : Char}
    (hclosing : closing = ']' ∨ closing = '>')
    (h : List.Forall₂ (fun t text => ReadsType v t text ∧ Opens text ∧
      ofAlternatives t.unionParts = t) types texts)
    (hne : types ≠ []) :
    ∃ least, ∀ fuel, least ≤ fuel → ∀ s,
      readTypes v fuel ((", ".intercalate texts).toList ++ closing :: s) = (types, s) := by
  have hafter : ∀ s, AfterType (closing :: s) := fun s c hc => by
    obtain rfl := Option.some.inj hc
    rcases hclosing with rfl | rfl <;> decide
  have hcomma : closing ≠ ',' := by
    rcases hclosing with rfl | rfl <;> decide
  -- By induction on the types, with a comma or the closing bracket behind each.
  induction h with
  | nil => exact absurd rfl hne
  | @cons t text types texts ht htypes ih =>
    obtain ⟨⟨least, hleast⟩, hopens, hwhole⟩ := ht
    cases htypes with
    | nil =>
      refine ⟨least + 1, fun fuel hfuel s => ?_⟩
      obtain ⟨fuel, rfl⟩ := Nat.exists_eq_succ_of_ne_zero (show fuel ≠ 0 by omega)
      have hread := hleast fuel (by omega) (closing :: s) (hafter s)
      rw [String.intercalate_singleton, readTypes_last (hopens.head_ne _) hcomma hread, hwhole]
    -- A comma ends a type, so the next one is read from behind it.
    | @cons next nextText rest restTexts hnext hrest =>
      obtain ⟨more, hmore⟩ := ih (List.cons_ne_nil _ _)
      refine ⟨least + more + 1, fun fuel hfuel s => ?_⟩
      obtain ⟨fuel, rfl⟩ := Nat.exists_eq_succ_of_ne_zero (show fuel ≠ 0 by omega)
      have hbetween : ∀ s, AfterType (", ".toList ++ s) := fun s c hc => by
        obtain rfl := Option.some.inj hc
        decide
      have hread := hleast fuel (by omega) _ (hbetween
        ((", ".intercalate (nextText :: restTexts)).toList ++ closing :: s))
      rw [String.intercalate_cons_cons, String.toList_append, String.toList_append,
        List.append_assoc, List.append_assoc, readTypes_more (hopens.head_ne _) hread,
        hmore fuel (by omega) s, hwhole]

end Texts

/-! ## Legible types are readable -/

/-- What is read from the text of a type, whatever comes after it. A union is read with its
alternatives only, since nothing marks where it ends. -/
structure Readable (v : Vocabulary) (t : Ty) (text : String) : Prop where
  element : t.unionParts = [t] → ReadsElement v t text
  alternatives : ReadsType v t text
  opens : Opens text
  whole : ofAlternatives t.unionParts = t

section Readable

variable {v : Vocabulary}

/-- A type that is no union. -/
theorem Readable.of_element {t : Ty} {text : String} (ht : t.unionParts = [t])
    (h : ReadsElement v t text) (hopens : Opens text) : Readable v t text where
  element _ := h
  alternatives := by
    obtain ⟨least, hleast⟩ := readAlternatives_members (.cons h .nil) (List.cons_ne_nil _ _)
    refine ⟨least, fun fuel hfuel s hs => ?_⟩
    rw [ht, ← hleast fuel hfuel s hs, String.intercalate_singleton]
  opens := hopens
  whole := by
    rw [ht]
    rfl

/-- A type whose text starts with a name. -/
theorem ReadsElement.of_readName {t : Ty} {text : String}
    (hhead : ∀ s, ∀ c ∈ (text.toList ++ s).head?, c ≠ '[' ∧ c ≠ '(')
    (h : ∃ least, ∀ fuel, least ≤ fuel → ∀ s, AfterElement s →
      readName v (readTypes v fuel) (text.toList ++ s) = (t, s)) : ReadsElement v t text := by
  obtain ⟨least, hleast⟩ := h
  refine ⟨least + 1, fun fuel hfuel s hs => ?_⟩
  obtain ⟨fuel, rfl⟩ := Nat.exists_eq_succ_of_ne_zero (show fuel ≠ 0 by omega)
  rw [readElement_name v fuel (hhead s), hleast fuel (by omega) s hs]

/-- A name opens a type. -/
theorem IsName.opens {name : String} (h : IsName name) : Opens name := by
  cases hlist : name.toList with
  | nil => exact absurd hlist h.ne_nil
  | cons c chars =>
    have hc := h.head [] c
    rw [List.append_nil, hlist] at hc
    exact ⟨c, chars, hlist, (hc rfl).2.2⟩

/-- A type that goes by its name alone is read back. -/
theorem readable_bare {t : Ty} {name : String} (hname : IsName name)
    (ht : t.bareName? = some name) (hv : v.bare name = t) : Readable v t name := by
  have hsingle : t.unionParts = [t] := by
    cases t with
    | union members => exact nomatch ht
    | _ => rfl
  apply Readable.of_element hsingle _ hname.opens
  refine .of_readName (fun s c hc => ?_) ⟨0, fun fuel _ s hs => ?_⟩
  · exact ⟨(hname.head s c hc).1, (hname.head s c hc).2.1⟩
  · rw [readName_bare _ hname hs, hv]

/-- A static side is read back. -/
theorem readable_static {e : Entity} (hname : IsName e.name) (he : v.side e.name = e) :
    Readable v (.static e) ("typeof " ++ e.name) := by
  apply Readable.of_element rfl _ (Opens.append ⟨'t', "ypeof ".toList, rfl, by decide⟩ _)
  refine .of_readName (fun s c hc => ?_) ⟨0, fun fuel _ s hs => ?_⟩
  · rw [String.toList_append] at hc
    obtain rfl := Option.some.inj hc
    decide
  · rw [String.toList_append, List.append_assoc,
      readName_static _ hname fun c hc => (hs c hc).1, he]

/-- An instance with arguments is read back if its arguments are. -/
theorem readable_generic {e : Entity} {arguments : List Ty} {texts : List String}
    (hname : IsName e.name) (he : v.generic e.name = e) (hne : arguments ≠ [])
    (h : List.Forall₂ (Readable v) arguments texts) :
    Readable v (.object e arguments) (e.name ++ "<" ++ ", ".intercalate texts ++ ">") := by
  apply Readable.of_element rfl _ (((hname.opens.append _).append _).append _)
  obtain ⟨least, hleast⟩ := readTypes_types (.inr rfl)
    (h.imp fun t text ht => ⟨ht.alternatives, ht.opens, ht.whole⟩) hne
  refine .of_readName (fun s c hc => ?_) ⟨least, fun fuel hfuel s hs => ?_⟩
  · simp only [String.toList_append, List.append_assoc] at hc
    have hhead := hname.head _ c hc
    exact ⟨hhead.1, hhead.2.1⟩
  -- The arguments are what stands between the name and the last bracket.
  · have hlist : (e.name ++ "<" ++ ", ".intercalate texts ++ ">").toList ++ s =
        e.name.toList ++ '<' :: ((", ".intercalate texts).toList ++ '>' :: s) := by
      simp
    rw [hlist, readName_generic _ hname, hleast fuel hfuel s, he]

/-- A tuple is read back if its elements are. -/
theorem readable_tuple {elements : List Ty} {texts : List String}
    (h : List.Forall₂ (Readable v) elements texts) :
    Readable v (.tuple elements v.tuples) ("[" ++ ", ".intercalate texts ++ "]") := by
  have hlist : ∃ least, ∀ fuel, least ≤ fuel → ∀ s,
      readTypes v fuel ((", ".intercalate texts).toList ++ ']' :: s) = (elements, s) := by
    -- An empty tuple is read at once.
    by_cases hne : elements = []
    · subst hne
      cases h
      refine ⟨1, fun fuel hfuel s => ?_⟩
      obtain ⟨fuel, rfl⟩ := Nat.exists_eq_succ_of_ne_zero (show fuel ≠ 0 by omega)
      rfl
    · exact readTypes_types (.inl rfl)
        (h.imp fun t text ht => ⟨ht.alternatives, ht.opens, ht.whole⟩) hne
  obtain ⟨least, hleast⟩ := hlist
  apply Readable.of_element rfl _ ((Opens.append ⟨'[', [], rfl, by decide⟩ _).append _)
  refine ⟨least + 1, fun fuel hfuel s hs => ?_⟩
  obtain ⟨fuel, rfl⟩ := Nat.exists_eq_succ_of_ne_zero (show fuel ≠ 0 by omega)
  have hchars : ("[" ++ ", ".intercalate texts ++ "]").toList ++ s =
      '[' :: ((", ".intercalate texts).toList ++ ']' :: s) := by
    simp
  rw [hchars, readElement, hleast fuel (by omega) s]

/-- An array is read back if its element is, and is no union. -/
theorem readable_array {element : Ty} {text : String} (ht : element.unionParts = [element])
    (h : Readable v element text) : Readable v (.array element v.arrays) (text ++ "[]") := by
  apply Readable.of_element rfl _ (h.opens.append _)
  obtain ⟨least, hleast⟩ := h.element ht
  refine ⟨least, fun fuel hfuel s hs => ?_⟩
  have hafter : AfterElement ("[]".toList ++ s) := fun c hc => by
    obtain rfl := Option.some.inj hc
    decide
  rw [String.toList_append, List.append_assoc, hleast fuel hfuel _ hafter]
  rfl

/-- An array of a union is read back through its parentheses. -/
theorem readable_array_union {members : List Ty} {text : String}
    (h : Readable v (.union members) text) :
    Readable v (.array (.union members) v.arrays) ("(" ++ text ++ ")[]") := by
  apply Readable.of_element rfl _ ((Opens.append ⟨'(', [], rfl, by decide⟩ _).append _)
  obtain ⟨least, hleast⟩ := h.alternatives
  refine ⟨least + 1, fun fuel hfuel s hs => ?_⟩
  obtain ⟨fuel, rfl⟩ := Nat.exists_eq_succ_of_ne_zero (show fuel ≠ 0 by omega)
  have hchars : ("(" ++ text ++ ")[]").toList ++ s =
    '(' :: (text.toList ++ (")[]".toList ++ s)) := by
    simp
  -- The parenthesis ends the union.
  have hafter : AfterType (")[]".toList ++ s) := fun c hc => by
    obtain rfl := Option.some.inj hc
    decide
  rw [hchars, readElement, hleast fuel (by omega) _ hafter]
  rfl

/-- A union of at least two types is read back if these are. -/
theorem readable_union {members : List Ty} {texts : List String} (htwo : 2 ≤ members.length)
    (hsingle : ∀ t ∈ members, t.unionParts = [t]) (h : List.Forall₂ (Readable v) members texts) :
    Readable v (.union members) (" | ".intercalate texts) where
  element hunion := by
    rw [unionParts] at hunion
    rw [hunion, List.length_singleton] at htwo
    omega
  alternatives := by
    have hne : members ≠ [] := by
      rintro rfl
      exact absurd htwo (by decide)
    apply readAlternatives_members _ hne
    -- The alternatives are single types, so each is read as an element.
    clear htwo hne
    induction h with
    | nil => exact .nil
    | cons ht hrest ih =>
      exact .cons (ht.element (hsingle _ List.mem_cons_self))
        (ih fun t ht => hsingle t (List.mem_cons_of_mem _ ht))
  opens := by
    cases h with
    | nil => exact absurd htwo (by decide)
    -- A text in front of a bar opens as the text of the first alternative does.
    | cons ht hrest =>
      cases hrest with
      | nil => exact String.intercalate_singleton ▸ ht.opens
      | cons hnext hrest =>
        rw [String.intercalate_cons_cons]
        exact (ht.opens.append _).append _
  whole := by
    match members with
    | _ :: _ :: _ => rfl

/-- Types that are read from the same text are the same. -/
theorem Readable.unique {t t' : Ty} {text : String} (h : Readable v t text)
    (h' : Readable v t' text) : t = t' := by
  obtain ⟨least, hleast⟩ := h.alternatives
  obtain ⟨least', hleast'⟩ := h'.alternatives
  have hend : AfterType [] := fun c hc => nomatch hc
  have hread := hleast (least + least') (Nat.le_add_right _ _) [] hend
  have hread' := hleast' (least + least') (Nat.le_add_left _ _) [] hend
  have hparts : t.unionParts = t'.unionParts := (Prod.mk.inj (hread.symm.trans hread')).1
  rw [← h.whole, hparts, h'.whole]

variable {m : Type → Type} [Monad m] [LawfulMonad m] (demand : Demand m)

/-- Types that are each shown by a text that can be read back are shown one after the other. -/
theorem exists_texts {levels : Nat} {types : List Ty}
    (h : ∀ t ∈ types, ∃ text, t.textFrom demand levels = pure text ∧ Readable v t text) :
    ∃ texts, types.mapM (textFrom demand levels) = pure texts ∧
      List.Forall₂ (Readable v) types texts := by
  induction types with
  | nil => exact ⟨[], List.mapM_nil, .nil⟩
  | cons t rest ih =>
    obtain ⟨text, htext, ht⟩ := h t List.mem_cons_self
    obtain ⟨texts, htexts, hrest⟩ := ih fun d hd => h d (List.mem_cons_of_mem _ hd)
    refine ⟨text :: texts, ?_, .cons ht hrest⟩
    rw [List.mapM_cons, htext, pure_bind, htexts, pure_bind]

/-- A legible type is shown by a text from which it can be read back. -/
theorem Legible.readable {levels : Nat} {t : Ty} (h : Legible v levels t) :
    ∃ text, t.textFrom demand levels = pure text ∧ Readable v t text := by
  induction h with
  -- A name by itself, whatever kind of type it belongs to.
  | @bare levels t name hname ht hv =>
    refine ⟨name, ?_, readable_bare hname ht hv⟩
    cases t with
    | object e arguments =>
      cases arguments with
      | nil => exact congrArg pure (Option.some.inj ht)
      | cons => exact nomatch ht
    | intrinsic | parameter | text | unspecified => exact congrArg pure (Option.some.inj ht)
    | _ => exact nomatch ht
  | @generic levels e arguments hname he hne harguments ih =>
    obtain ⟨texts, htexts, hread⟩ := exists_texts demand ih
    refine ⟨_, ?_, readable_generic hname he hne hread⟩
    cases arguments with
    | nil => exact absurd rfl hne
    | cons a rest =>
      rw [textFrom, htexts, pure_bind]
      exact List.cons_ne_nil _ _
  | @static levels e hname he =>
    refine ⟨_, ?_, readable_static hname he⟩
    -- A legible name has no quotes, so it is not that of a module.
    have hquoted : e.name.startsWith "\"" = false := by
      rw [String.startsWith_string_eq_false_iff]
      intro hquote
      have hmem : '"' ∈ e.name.toList := hquote.subset List.mem_cons_self
      exact absurd (hname.all _ hmem) (by decide)
    rw [textFrom, hquoted]
    rfl
  | @array levels element helement ih =>
    obtain ⟨text, htext, hread⟩ := ih
    rw [textFrom, htext, pure_bind]
    -- Only unions are put into parentheses.
    cases element with
    | union members => exact ⟨_, rfl, readable_array_union hread⟩
    | function signatures entity =>
      cases helement with
      | bare _ ht _ => exact nomatch ht
    | _ => exact ⟨_, rfl, readable_array rfl hread⟩
  | @tuple levels elements helements ih =>
    obtain ⟨texts, htexts, hread⟩ := exists_texts demand ih
    refine ⟨_, ?_, readable_tuple hread⟩
    rw [textFrom, htexts, pure_bind]
  | @union levels members htwo hsingle hmembers ih =>
    obtain ⟨texts, htexts, hread⟩ := exists_texts demand ih
    refine ⟨_, ?_, readable_union htwo hsingle hread⟩
    rw [textFrom, htexts, pure_bind]

end Readable

end ScriptGraph.Ty
