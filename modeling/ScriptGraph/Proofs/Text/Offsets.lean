import Mathlib.Data.List.DropRight
import Mathlib.Data.Prod.Lex
import ScriptGraph.Proofs.Text.Units
import ScriptGraph.Source

/-!
# Offsets of bytes

The offset and the position of a byte count the code units, and the line feeds, of the text before
it. Later bytes have no smaller ones, and different characters start at different ones.

- `Text.unitsBefore_mono`, `Text.positionFrom_mono`: what one pass counts never decreases
- `Text.lines_length`: a text has one more line than it has line feeds
- `Source.offsets_measure`: what the offset and the position of every byte are
-/

namespace ScriptGraph

/-- Positions are ordered by their lines, and within a line by their characters. -/
instance : LinearOrder Position :=
  LinearOrder.lift' (fun p => toLex (p.line, p.character)) fun p q h => by
    cases p
    cases q
    simpa using h

/-- Positions are ordered by lines, and then by characters. -/
theorem Position.le_iff {p q : Position} :
    p ≤ q ↔ p.line < q.line ∨ p.line = q.line ∧ p.character ≤ q.character :=
  Prod.Lex.toLex_le_toLex

/-- The position behind a character. -/
def Position.past (p : Position) (c : Char) : Position :=
  if c = '\n' then ⟨p.line + 1, 0⟩ else ⟨p.line, p.character + Text.units c⟩

namespace Text

/-- The last line of a text, which no line feed ends. -/
def lastLine (text : List Char) : List Char :=
  text.rtakeWhile (· != '\n')

/-! ## Before a character and inside one -/

/-- The position at the end of a text has as many lines before it as there are line feeds. -/
theorem foldl_past (text : List Char) :
    text.foldl Position.past ⟨0, 0⟩ = ⟨text.count '\n', unitLength (lastLine text)⟩ := by
  induction text using List.reverseRecOn with
  | nil => rfl
  | append_singleton rest c ih =>
    have hlast : lastLine (rest ++ [c]) = if c != '\n' then lastLine rest ++ [c] else [] :=
      List.rtakeWhile_concat _ _ _
    rw [List.foldl_append, ih, List.foldl_cons, List.foldl_nil, hlast, List.count_append,
      Position.past]
    by_cases hc : c = '\n'
    · simp [hc, unitLength]
    · simp [hc, unitLength]

/-- The position of a byte offset behind a first part of a text. -/
theorem positionFrom_append (here : Position) (pre : List Char) (bytes : Nat) (post : List Char) :
    positionFrom here (String.utf8Len pre + bytes) (pre ++ post) =
      positionFrom (pre.foldl Position.past here) bytes post := by
  induction pre generalizing here with
  | nil => simp
  | cons c rest ih =>
    have hpos := c.utf8Size_pos
    have hrest : String.utf8Len (c :: rest) + bytes - c.utf8Size = String.utf8Len rest + bytes := by
      rw [String.utf8Len_cons]
      omega
    rw [List.cons_append, positionFrom, if_neg (by rw [String.utf8Len_cons]; omega),
      if_pos (by rw [String.utf8Len_cons]; omega), hrest, ih, ih, List.foldl_cons, Position.past]
    split <;> rfl

/-- Behind a first part of a text there are its code units. -/
theorem offset_utf8Len (pre post : List Char) :
    offset (String.utf8Len pre) (pre ++ post) = unitLength pre := by
  have h := unitsBefore_append pre 0 post
  rwa [unitsBefore_zero, Nat.add_zero, Nat.add_zero, ← offset_eq] at h

/-- Behind a first part of a text there are its line feeds, and the code units since the last
one. -/
theorem position_utf8Len (pre post : List Char) :
    position (String.utf8Len pre) (pre ++ post) =
      ⟨pre.count '\n', unitLength (lastLine pre)⟩ := by
  have h := positionFrom_append ⟨0, 0⟩ pre 0 post
  rwa [positionFrom_zero, foldl_past, Nat.add_zero, ← position_eq] at h

/-- Inside a character there is one code unit of it. -/
theorem offset_inside {pre post : List Char} {c : Char} {bytes : Nat}
    (hpos : String.utf8Len pre < bytes) (hlt : bytes < String.utf8Len pre + c.utf8Size) :
    offset bytes (pre ++ c :: post) = unitLength pre + 1 := by
  obtain ⟨n, rfl⟩ := Nat.exists_eq_add_of_le hpos.le
  rw [offset_eq, unitsBefore_append, unitsBefore, if_neg (by omega), if_neg (by omega)]

/-- A byte inside a character has the position of the character. -/
theorem position_inside {pre post : List Char} {c : Char} {bytes : Nat}
    (hpos : String.utf8Len pre < bytes) (hlt : bytes < String.utf8Len pre + c.utf8Size) :
    position bytes (pre ++ c :: post) = ⟨pre.count '\n', unitLength (lastLine pre) + 1⟩ := by
  obtain ⟨n, rfl⟩ := Nat.exists_eq_add_of_le hpos.le
  rw [position_eq, positionFrom_append, foldl_past, positionFrom, if_neg (by omega),
    if_neg (by omega)]

/-- Behind the end of a text there is nothing more. -/
theorem offset_of_le {text : List Char} {bytes : Nat} (h : String.utf8Len text ≤ bytes) :
    offset bytes text = unitLength text := by
  have happend := unitsBefore_append text (bytes - String.utf8Len text) []
  rwa [Nat.add_sub_cancel' h, List.append_nil, ← offset_eq] at happend

/-- Beyond the text, the position is the end of the text. -/
theorem position_of_le {text : List Char} {bytes : Nat} (h : String.utf8Len text ≤ bytes) :
    position bytes text = ⟨text.count '\n', unitLength (lastLine text)⟩ := by
  have happend := positionFrom_append ⟨0, 0⟩ text (bytes - String.utf8Len text) []
  rwa [Nat.add_sub_cancel' h, List.append_nil, foldl_past, ← position_eq] at happend

/-! ## Later bytes -/

/-- More bytes have no fewer units. -/
theorem unitsBefore_mono {bytes bytes' : Nat} (h : bytes ≤ bytes') (text : List Char) :
    unitsBefore bytes text ≤ unitsBefore bytes' text := by
  induction text generalizing bytes bytes' with
  | nil => exact Nat.le_refl _
  | cons c rest ih =>
    have hc := units_pos c
    rw [unitsBefore, unitsBefore]
    by_cases hzero : bytes = 0
    · rw [if_pos hzero]
      exact Nat.zero_le _
    rw [if_neg hzero, if_neg (show bytes' ≠ 0 by omega)]
    -- The first character is passed over by both, by the larger number alone, or by none.
    by_cases hsize : c.utf8Size ≤ bytes
    · have hrest := ih (show bytes - c.utf8Size ≤ bytes' - c.utf8Size by omega)
      rw [if_pos hsize, if_pos (hsize.trans h)]
      omega
    · rw [if_neg hsize]
      split <;> omega

/-- Reading on from a position leads to no earlier one. -/
theorem le_positionFrom (here : Position) (bytes : Nat) (text : List Char) :
    here ≤ positionFrom here bytes text := by
  induction text generalizing here bytes with
  | nil => exact le_refl _
  | cons c rest ih =>
    rw [positionFrom]
    split
    · exact le_refl _
    -- A character that is passed over starts a new line or goes on with this one.
    · split
      · split
        · apply le_trans _ (ih _ _)
          exact Position.le_iff.mpr (.inl (Nat.lt_succ_self _))
        · apply le_trans _ (ih _ _)
          exact Position.le_iff.mpr (.inr ⟨rfl, Nat.le_add_right _ _⟩)
      · exact Position.le_iff.mpr (.inr ⟨rfl, Nat.le_succ _⟩)

/-- More bytes lead no less far, from any position. -/
theorem positionFrom_mono {bytes bytes' : Nat} (h : bytes ≤ bytes') (here : Position)
    (text : List Char) : positionFrom here bytes text ≤ positionFrom here bytes' text := by
  induction text generalizing here bytes bytes' with
  | nil => exact le_refl _
  | cons c rest ih =>
    -- With no bytes to go the position is where one starts.
    by_cases hzero : bytes = 0
    · rw [hzero, positionFrom_zero]
      exact le_positionFrom _ _ _
    rw [positionFrom, positionFrom, if_neg hzero, if_neg (show bytes' ≠ 0 by omega)]
    by_cases hsize : c.utf8Size ≤ bytes
    · have hrest : bytes - c.utf8Size ≤ bytes' - c.utf8Size := by omega
      rw [if_pos hsize, if_pos (hsize.trans h)]
      split <;> exact ih hrest _
    · -- The first offset is inside the character, the second one there too or behind it.
      rw [if_neg hsize]
      split
      · have hc := units_pos c
        split
        · apply le_trans _ (le_positionFrom _ _ _)
          exact Position.le_iff.mpr (.inl (Nat.lt_succ_self _))
        · apply le_trans _ (le_positionFrom _ _ _)
          exact Position.le_iff.mpr (.inr ⟨rfl, Nat.add_le_add_left hc _⟩)
      · exact le_refl _

/-- Offsets do not go back. -/
theorem offset_mono {bytes bytes' : Nat} (h : bytes ≤ bytes') (text : List Char) :
    offset bytes text ≤ offset bytes' text := by
  rw [offset_eq, offset_eq]
  exact unitsBefore_mono h text

/-- Positions do not go back. -/
theorem position_mono {bytes bytes' : Nat} (h : bytes ≤ bytes') (text : List Char) :
    position bytes text ≤ position bytes' text := by
  rw [position_eq, position_eq]
  exact positionFrom_mono h _ text

/-- A text that is not empty has units. -/
theorem unitLength_pos {text : List Char} (h : text ≠ []) : 0 < unitLength text := by
  cases text with
  | nil => exact absurd rfl h
  | cons c rest => exact Nat.add_pos_left (units_pos c) _

/-- Behind another part of a text there are more code units than before it. -/
theorem offset_lt (pre post : List Char) {part : List Char} (h : part ≠ []) :
    offset (String.utf8Len pre) (pre ++ part ++ post) <
      offset (String.utf8Len (pre ++ part)) (pre ++ part ++ post) := by
  have hpart := unitLength_pos h
  rw [offset_utf8Len (pre ++ part), List.append_assoc, offset_utf8Len, unitLength_append]
  omega

/-- Behind another part of a text the position is a later one, since the offset is. -/
theorem position_lt (pre post : List Char) {part : List Char} (h : part ≠ []) :
    position (String.utf8Len pre) (pre ++ part ++ post) <
      position (String.utf8Len (pre ++ part)) (pre ++ part ++ post) := by
  have hle : String.utf8Len pre ≤ String.utf8Len (pre ++ part) := by
    rw [String.utf8Len_append]
    omega
  apply lt_of_le_of_ne (position_mono hle _)
  intro hsame
  have hoffset := congrArg (offsetOf · (pre ++ part ++ post)) hsame
  simp only [offsetOf_position] at hoffset
  exact absurd hoffset (offset_lt pre post h).ne

/-! ## Lines -/

/-- A text has one more line than it has line feeds, whatever its line ends are. -/
theorem lines_length (text : List Char) : (lines text).length = text.count '\n' + 1 := by
  fun_induction lines text with
  | case1 => rfl
  | case2 rest ih => simp [ih]
  | case3 rest hpair ih => simp [ih]
  | case4 c rest hpair hc hnil ih => simp [hnil] at ih
  | case5 c rest hpair hc piece pieces hcons ih =>
    rw [hcons] at ih
    rw [List.count_cons_of_ne hc, ← ih]
    rfl

end Text

namespace Source

/-- The offset of a byte is the number of code units before it, and its position consists of the
number of line feeds before it and of the code units since the last one. A byte inside a character
is one code unit after the start of the character, and a byte behind the end of the text counts as
the end. Later bytes have no smaller offsets and no earlier positions, and if there is a character
between two bytes at which characters start or end, they have different ones. The text has as many
lines as its range. -/
theorem offsets_measure (s : Source) :
    (∀ pre post : String, s.text = pre ++ post →
      s.offset pre.utf8ByteSize = Text.unitLength pre.toList ∧
      s.position pre.utf8ByteSize =
        ⟨pre.toList.count '\n', Text.unitLength (Text.lastLine pre.toList)⟩) ∧
    (∀ (pre post : String) (c : Char) (bytes : Nat), s.text = pre.push c ++ post →
      pre.utf8ByteSize < bytes → bytes < (pre.push c).utf8ByteSize →
      s.offset bytes = s.offset pre.utf8ByteSize + 1 ∧
      s.position bytes = ⟨(s.position pre.utf8ByteSize).line,
        (s.position pre.utf8ByteSize).character + 1⟩) ∧
    (∀ bytes, s.text.utf8ByteSize ≤ bytes →
      s.offset bytes = s.offset s.text.utf8ByteSize ∧
      s.position bytes = s.position s.text.utf8ByteSize) ∧
    (Monotone s.offset ∧ Monotone s.position) ∧
    (∀ pre part post : String, s.text = pre ++ part ++ post → part ≠ "" →
      s.offset pre.utf8ByteSize < s.offset (pre ++ part).utf8ByteSize ∧
      s.position pre.utf8ByteSize < s.position (pre ++ part).utf8ByteSize) ∧
    s.fullRange.stop.line + 1 = (TextStats.ofText s.text).lines := by
  have hsize : ∀ t : String, t.utf8ByteSize = String.utf8Len t.toList := fun t => by
    rw [← String.utf8ByteSize_ofList, String.ofList_toList]
  -- Where a character starts, everything is counted by the characters before it.
  have hstart : ∀ pre post : String, s.text = pre ++ post →
      s.offset pre.utf8ByteSize = Text.unitLength pre.toList ∧
      s.position pre.utf8ByteSize =
        ⟨pre.toList.count '\n', Text.unitLength (Text.lastLine pre.toList)⟩ := by
    intro pre post htext
    rw [offset, position, htext, hsize, String.toList_append]
    exact ⟨Text.offset_utf8Len _ _, Text.position_utf8Len _ _⟩
  -- The end of the text is a place where everything before it has been counted.
  have hstop := hstart s.text "" (by simp)
  refine ⟨hstart, ?inside, ?behind, ⟨?offsets, ?positions⟩, ?later, ?lines⟩
  case inside =>
    intro pre post c bytes htext hpre hpost
    obtain ⟨hoffset, hposition⟩ := hstart pre (String.singleton c ++ post) (by
      rw [htext, String.push_eq_append, String.append_assoc])
    have hlist : s.text.toList = pre.toList ++ c :: post.toList := by
      simp [htext]
    rw [hsize] at hpre
    rw [String.utf8ByteSize_push, hsize] at hpost
    rw [hoffset, hposition, offset, position, hlist]
    exact ⟨Text.offset_inside hpre hpost, Text.position_inside hpre hpost⟩
  case behind =>
    intro bytes hle
    rw [hsize] at hle
    rw [hstop.1, hstop.2]
    exact ⟨Text.offset_of_le hle, Text.position_of_le hle⟩
  case offsets => exact fun _ _ h => Text.offset_mono h _
  case positions => exact fun _ _ h => Text.position_mono h _
  case later =>
    intro pre part post htext hpart
    have hpart : part.toList ≠ [] := fun h => hpart (String.toList_eq_nil_iff.mp h)
    rw [offset, offset, position, position, htext, hsize, hsize]
    simp only [String.toList_append]
    exact ⟨Text.offset_lt _ _ hpart, Text.position_lt _ _ hpart⟩
  case lines =>
    show (s.position s.text.utf8ByteSize).line + 1 = (Text.lines s.text.toList).length
    rw [hstop.2, Text.lines_length]

/-- A character of four bytes and two code units stands before a line end of two characters. -/
theorem offsets_measure_astral :
    let s : Source := ⟨"main.ts", "😀\r\nf", .ts, default, false⟩
    (s.offset 4 = 2 ∧ s.position 4 = ⟨0, 2⟩) ∧ (s.offset 6 = 4 ∧ s.position 6 = ⟨1, 0⟩) ∧
      (s.offset 3 = s.offset 0 + 1 ∧
        s.position 3 = ⟨(s.position 0).line, (s.position 0).character + 1⟩) ∧
      s.offset 9 = s.offset 7 ∧ s.offset 3 ≤ s.offset 5 ∧ s.position 4 < s.position 6 ∧
      s.fullRange.stop.line + 1 = (TextStats.ofText s.text).lines := by
  intro s
  obtain ⟨hstart, hinside, hbehind, hmono, hlater, hlines⟩ := offsets_measure s
  exact ⟨hstart "😀" "\r\nf" (by decide), hstart "😀\r\n" "f" (by decide),
    hinside "" "\r\nf" '😀' 3 (by decide) (by decide) (by decide), (hbehind 9 (by decide)).1,
    hmono.1 (by decide), (hlater "😀" "\r\n" "f" (by decide) (by decide)).2, hlines⟩

end Source

end ScriptGraph
