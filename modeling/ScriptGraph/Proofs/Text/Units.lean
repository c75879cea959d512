import Mathlib.Data.String.Basic
import ScriptGraph.Text.Units

/-!
# Offsets of positions

Positions and offsets are found with a table of the lines of a text. They are what one pass over
the text counts. A position within a text stands for an offset in code units; the position of a
byte offset stands for the number of code units before it.

- `Text.position_eq`, `Text.offset_eq`: the table gives what one pass counts
- `Text.offsetOf_position`
- `Text.position_eq_of_offsetOf_eq`: an offset has one position
-/

namespace ScriptGraph.Text

/-! ## The table of lines and one pass -/

/-- The position `bytes` bytes after `here`, reading `text` from `here` on. -/
def positionFrom (here : Position) (bytes : Nat) : List Char → Position
  | [] => here
  | c :: rest =>
    if bytes = 0 then here
    else if c.utf8Size ≤ bytes then
      if c = '\n' then positionFrom ⟨here.line + 1, 0⟩ (bytes - c.utf8Size) rest
      else positionFrom ⟨here.line, here.character + units c⟩ (bytes - c.utf8Size) rest
    else ⟨here.line, here.character + 1⟩

/-- The number of code units of texts one after the other. -/
@[simp] theorem unitLength_append (l l' : List Char) :
    unitLength (l ++ l') = unitLength l + unitLength l' := by
  induction l with
  | nil => simp [unitLength]
  | cons c rest ih => simp [unitLength, ih, Nat.add_assoc]

/-- There are no units before the first byte. -/
@[simp] theorem unitsBefore_zero (text : List Char) : unitsBefore 0 text = 0 := by
  cases text <;> rfl

/-- No bytes lead nowhere. -/
@[simp] theorem positionFrom_zero (here : Position) (text : List Char) :
    positionFrom here 0 text = here := by
  cases text <;> rfl

/-- The code units before a byte offset behind a first part of a text. -/
theorem unitsBefore_append (pre : List Char) (bytes : Nat) (post : List Char) :
    unitsBefore (String.utf8Len pre + bytes) (pre ++ post) =
      unitLength pre + unitsBefore bytes post := by
  induction pre with
  | nil => simp [unitLength]
  | cons c rest ih =>
    have hpos := c.utf8Size_pos
    have hrest : String.utf8Len (c :: rest) + bytes - c.utf8Size = String.utf8Len rest + bytes := by
      rw [String.utf8Len_cons]
      omega
    rw [List.cons_append, unitsBefore, if_neg (by rw [String.utf8Len_cons]; omega),
      if_pos (by rw [String.utf8Len_cons]; omega), hrest, ih, unitLength, Nat.add_assoc]

/-- Lines that start within a text start after its first byte. -/
theorem lt_of_mem_laterLines {bytes unitCount : Nat} {text : List Char} {start : LineStart}
    (h : start ∈ laterLines bytes unitCount text) : bytes < start.bytes := by
  induction text generalizing bytes unitCount with
  | nil => exact absurd h List.not_mem_nil
  | cons c rest ih =>
    have hpos := c.utf8Size_pos
    rw [laterLines] at h
    -- A line starts behind this character, or further on.
    split at h
    · rcases List.mem_cons.mp h with rfl | h
      · exact Nat.lt_add_of_pos_right hpos
      · have := ih h
        omega
    · have := ih h
      omega

/-- An offset before the next line starts is in the first line of a table. -/
theorem lineAt_eq_zero {bytes : Nat} {first : LineStart} {later : List LineStart}
    (hlater : ∀ start ∈ later, bytes < start.bytes) : lineAt bytes (first :: later) = 0 := by
  have hnone : later.countP (·.bytes ≤ bytes) = 0 := by
    rw [List.countP_eq_zero]
    intro start hstart
    have := hlater start hstart
    simpa using this
  rw [lineAt, List.countP_cons, hnone]
  split <;> rfl

/-- An offset that is not before the second line starts is found in the table of the later lines. -/
theorem lineAt_cons {bytes : Nat} {first second : LineStart} {later : List LineStart}
    (hfirst : first.bytes ≤ bytes) (hsecond : second.bytes ≤ bytes) :
    lineAt bytes (first :: second :: later) = lineAt bytes (second :: later) + 1 := by
  simp only [lineAt, List.countP_cons, decide_eq_true hfirst, decide_eq_true hsecond, if_true]
  omega

/-- Where no later line has started, an offset is in the open line, behind the part of it that has
been read. -/
theorem locates_open {bytes here unitCount : Nat} {first : LineStart} {later : List LineStart}
    {pre text : List Char} (hlater : ∀ start ∈ later, bytes < start.bytes)
    (hrest : first.rest = pre ++ text) (hbytes : here = first.bytes + String.utf8Len pre)
    (hunits : unitCount = first.units + unitLength pre) (hle : here ≤ bytes)
    (fallback : LineStart) :
    let starts := first :: later
    let start := starts.getD (lineAt bytes starts) fallback
    lineAt bytes starts = 0 ∧
      unitsBefore (bytes - start.bytes) start.rest =
        unitLength pre + unitsBefore (bytes - here) text ∧
      start.units + unitsBefore (bytes - start.bytes) start.rest =
        unitCount + unitsBefore (bytes - here) text := by
  have hread : bytes - first.bytes = String.utf8Len pre + (bytes - here) := by omega
  simp only [lineAt_eq_zero hlater, List.getD_cons_zero, hrest, hread, unitsBefore_append, true_and]
  omega

/-- The table of an open line and the lines after it gives, for each byte offset that is not before
the rest of the line, what one pass over the rest counts. -/
theorem lineAt_locates {bytes here unitCount : Nat} {first : LineStart} {pre text : List Char}
    (line : Nat) (hrest : first.rest = pre ++ text)
    (hbytes : here = first.bytes + String.utf8Len pre)
    (hunits : unitCount = first.units + unitLength pre) (hle : here ≤ bytes)
    (fallback : LineStart) :
    let starts := first :: laterLines here unitCount text
    let start := starts.getD (lineAt bytes starts) fallback
    ⟨line + lineAt bytes starts, unitsBefore (bytes - start.bytes) start.rest⟩ =
        positionFrom ⟨line, unitLength pre⟩ (bytes - here) text ∧
      start.units + unitsBefore (bytes - start.bytes) start.rest =
        unitCount + unitsBefore (bytes - here) text := by
  induction text generalizing here unitCount first pre line with
  | nil =>
    have hlater : ∀ start ∈ laterLines here unitCount [], bytes < start.bytes :=
      fun _ h => absurd h List.not_mem_nil
    obtain ⟨hline, hin, hall⟩ := locates_open hlater hrest hbytes hunits hle fallback
    refine ⟨?_, hall⟩
    rw [hin, hline]
    rfl
  | cons c rest ih =>
    -- Whether the character lies before the byte offset decides where the pass goes on.
    have hpos := c.utf8Size_pos
    by_cases hc : here + c.utf8Size ≤ bytes
    · have hzero : bytes - here ≠ 0 := by omega
      have hsize : c.utf8Size ≤ bytes - here := by omega
      rw [positionFrom, if_neg hzero, if_pos hsize, unitsBefore, if_neg hzero, if_pos hsize,
        Nat.sub_sub, ← Nat.add_assoc, laterLines]
      by_cases hn : c = '\n'
      · -- The next line is the open one from here on.
        simp only [if_pos hn]
        have hnext := @ih (here + c.utf8Size) (unitCount + units c)
          ⟨here + c.utf8Size, unitCount + units c, rest⟩ [] (line + 1) rfl rfl rfl hc
        rw [lineAt_cons (by omega) hc]
        simpa only [List.getD_cons_succ, Nat.add_assoc, Nat.add_comm 1, unitLength] using hnext
      · -- The line goes on.
        simp only [if_neg hn]
        have hnext := @ih (here + c.utf8Size) (unitCount + units c) first (pre ++ [c]) line
          (by simp [hrest])
          (by simp [hbytes, Nat.add_assoc]) (by simp [hunits, unitLength, Nat.add_assoc]) hc
        simpa only [unitLength_append, unitLength, Nat.add_zero, Nat.add_assoc] using hnext
    · -- The offset is before this character or inside it, so no later line has started.
      have hlater : ∀ start ∈ laterLines here unitCount (c :: rest), bytes < start.bytes :=
        fun start hstart => by
          rw [laterLines] at hstart
          have htail : start ∈ laterLines (here + c.utf8Size) (unitCount + units c) rest →
              here + c.utf8Size < start.bytes := lt_of_mem_laterLines
          split at hstart
          · rcases List.mem_cons.mp hstart with rfl | hstart
            · exact Nat.lt_of_not_le hc
            · have := htail hstart
              omega
          · have := htail hstart
            omega
      obtain ⟨hline, hin, hall⟩ := locates_open hlater hrest hbytes hunits hle fallback
      refine ⟨?_, hall⟩
      rw [hin, hline, positionFrom, unitsBefore]
      split
      · rfl
      · rw [if_neg (by omega), if_neg (by omega)]
        rfl

/-- The table of lines gives the position that one pass over the text finds. -/
theorem position_eq (bytes : Nat) (text : List Char) :
    position bytes text = positionFrom ⟨0, 0⟩ bytes text := by
  have h := (@lineAt_locates bytes 0 0 ⟨0, 0, text⟩ [] text 0 rfl rfl rfl (Nat.zero_le bytes)
    ⟨0, 0, text⟩).1
  rwa [Nat.zero_add] at h

/-- A text starts at the first character of the first line. -/
theorem position_zero (text : List Char) : position 0 text = ⟨0, 0⟩ := by
  rw [position_eq, positionFrom_zero]

/-- The table of lines gives the number of code units that one pass over the text counts. -/
theorem offset_eq (bytes : Nat) (text : List Char) :
    offset bytes text = unitsBefore bytes text := by
  have h := (@lineAt_locates bytes 0 0 ⟨0, 0, text⟩ [] text 0 rfl rfl rfl (Nat.zero_le bytes)
    ⟨0, 0, text⟩).2
  rwa [Nat.zero_add] at h

/-! ## The offset of a position -/

/-- The offset of the character of a position, in code units from the start of a text. -/
def offsetOf (p : Position) : List Char → Nat
  | [] => p.character
  | c :: rest =>
    if p.line = 0 then p.character
    else units c + offsetOf ⟨if c = '\n' then p.line - 1 else p.line, p.character⟩ rest

/-- In the first line, the offset is the character. -/
theorem offsetOf_of_line_eq_zero {p : Position} (h : p.line = 0) (text : List Char) :
    offsetOf p text = p.character := by
  cases text with
  | nil => rfl
  | cons c rest => rw [offsetOf, if_pos h]

/-- Going on does not lead to an earlier line. -/
theorem line_le_positionFrom (here : Position) (bytes : Nat) (text : List Char) :
    here.line ≤ (positionFrom here bytes text).line := by
  induction text generalizing here bytes with
  | nil => exact Nat.le_refl _
  | cons c rest ih =>
    rw [positionFrom]
    split
    · exact Nat.le_refl _
    · split
      · split
        · exact Nat.le_trans (Nat.le_succ _) (ih ⟨here.line + 1, 0⟩ _)
        · exact ih ⟨here.line, here.character + units c⟩ _
      · exact Nat.le_refl _

/-- The position of a byte offset, seen from the position at which a text starts, stands for the
code units before the byte offset. -/
theorem offsetOf_positionFrom (here : Position) (bytes : Nat) (text : List Char) :
    offsetOf ⟨(positionFrom here bytes text).line - here.line,
      (positionFrom here bytes text).character⟩ text =
      if (positionFrom here bytes text).line = here.line then
        here.character + unitsBefore bytes text
      else unitsBefore bytes text := by
  induction text generalizing here bytes with
  | nil => simp [positionFrom, offsetOf, unitsBefore]
  | cons c rest ih =>
    rw [positionFrom, unitsBefore]
    by_cases hb : bytes = 0
    · simp [hb, offsetOf]
    by_cases hc : c.utf8Size ≤ bytes
    · simp only [if_neg hb, if_pos hc]
      by_cases hn : c = '\n'
      · -- After a line break the offset starts over in the next line.
        have hle := line_le_positionFrom ⟨here.line + 1, 0⟩ (bytes - c.utf8Size) rest
        have hrest := ih ⟨here.line + 1, 0⟩ (bytes - c.utf8Size)
        simp only [if_pos hn]
        generalize positionFrom ⟨here.line + 1, 0⟩ (bytes - c.utf8Size) rest = p at hle hrest ⊢
        have hlater : p.line - here.line ≠ 0 := by simp only at hle; omega
        rw [offsetOf, if_neg hlater, if_pos hn, if_neg (by omega)]
        show units c + offsetOf ⟨p.line - here.line - 1, p.character⟩ rest = _
        rw [Nat.sub_sub, hrest]
        simp
      · have hle := line_le_positionFrom ⟨here.line, here.character + units c⟩
          (bytes - c.utf8Size) rest
        have hrest := ih ⟨here.line, here.character + units c⟩ (bytes - c.utf8Size)
        simp only [if_neg hn]
        generalize positionFrom ⟨here.line, here.character + units c⟩ (bytes - c.utf8Size) rest = p
          at hle hrest ⊢
        -- The rest may lie in the same line, or further down.
        by_cases hline : p.line = here.line
        · rw [hline, Nat.sub_self, offsetOf_of_line_eq_zero rfl, if_pos rfl] at hrest
          rw [hline, Nat.sub_self, offsetOf_of_line_eq_zero rfl, if_pos rfl]
          exact hrest.trans (Nat.add_assoc _ _ _)
        · have hlater : p.line - here.line ≠ 0 := by simp only at hle; omega
          rw [if_neg hline] at hrest
          rw [offsetOf, if_neg hlater, if_neg hn, if_neg hline, hrest]
    · simp [hb, hc, offsetOf]

/-- The position of a byte offset stands for the number of code units before it. -/
theorem offsetOf_position (bytes : Nat) (text : List Char) :
    offsetOf (position bytes text) text = offset bytes text := by
  have h := offsetOf_positionFrom ⟨0, 0⟩ bytes text
  rw [position_eq, offset_eq]
  simpa using h

/-! ## The position of an offset -/

/-- A character has at least one unit. -/
theorem units_pos (c : Char) : 0 < units c := by
  unfold units
  split <;> omega

/-- Bytes without units lead nowhere. -/
theorem positionFrom_of_unitsBefore_eq_zero {bytes : Nat} {text : List Char}
    (h : unitsBefore bytes text = 0) (here : Position) : positionFrom here bytes text = here := by
  cases text with
  | nil => rfl
  | cons c rest =>
    have hc := units_pos c
    rw [unitsBefore] at h
    rw [positionFrom]
    split at h
    · rw [if_pos ‹_›]
    · split at h <;> omega

/-- Inside a character there is one code unit of it, as after a character of one code unit. -/
theorem positionFrom_inside {bytes bytes' : Nat} {c : Char} {rest : List Char} (hb : bytes ≠ 0)
    (hinside : ¬c.utf8Size ≤ bytes) (h : units c + unitsBefore (bytes' - c.utf8Size) rest = 1)
    (here : Position) :
    (if c = '\n' then positionFrom ⟨here.line + 1, 0⟩ (bytes' - c.utf8Size) rest
      else positionFrom ⟨here.line, here.character + units c⟩ (bytes' - c.utf8Size) rest) =
      ⟨here.line, here.character + 1⟩ := by
  have hc := units_pos c
  have hunits : units c = 1 := by omega
  have hrest : unitsBefore (bytes' - c.utf8Size) rest = 0 := by omega
  -- A line feed is a single byte.
  have hn : c ≠ '\n' := by
    rintro rfl
    have hsize : '\n'.utf8Size = 1 := rfl
    omega
  rw [if_neg hn, positionFrom_of_unitsBefore_eq_zero hrest, hunits]

/-- Bytes with the same units lead to the same position. -/
theorem positionFrom_eq_of_unitsBefore_eq {bytes bytes' : Nat} {text : List Char}
    (h : unitsBefore bytes text = unitsBefore bytes' text) (here : Position) :
    positionFrom here bytes text = positionFrom here bytes' text := by
  induction text generalizing bytes bytes' here with
  | nil => rfl
  | cons c rest ih =>
    by_cases hb : unitsBefore bytes (c :: rest) = 0
    · rw [positionFrom_of_unitsBefore_eq_zero hb, positionFrom_of_unitsBefore_eq_zero (h ▸ hb)]
    have hb' : unitsBefore bytes' (c :: rest) ≠ 0 := h ▸ hb
    -- Neither offset is zero, so each lies after the first character or inside it.
    have hpos : ∀ n : Nat, unitsBefore n (c :: rest) ≠ 0 → n ≠ 0 := fun n hn hzero =>
      hn (by rw [unitsBefore, if_pos hzero])
    have hz := hpos bytes hb
    have hz' := hpos bytes' hb'
    rw [positionFrom, positionFrom, if_neg hz, if_neg hz']
    rw [unitsBefore, unitsBefore, if_neg hz, if_neg hz'] at h
    by_cases hc : c.utf8Size ≤ bytes
    · by_cases hc' : c.utf8Size ≤ bytes'
      · rw [if_pos hc, if_pos hc'] at h ⊢
        have hrest := Nat.add_left_cancel h
        rw [ih hrest, ih hrest]
      · rw [if_pos hc, if_neg hc'] at h ⊢
        exact positionFrom_inside hz' hc' h here
    · by_cases hc' : c.utf8Size ≤ bytes'
      · rw [if_neg hc, if_pos hc'] at h ⊢
        exact (positionFrom_inside hz hc h.symm here).symm
      · rw [if_neg hc, if_neg hc']

/-- Byte offsets with the same number of code units before them have the same position. -/
theorem position_eq_of_offset_eq {bytes bytes' : Nat} {text : List Char}
    (h : offset bytes text = offset bytes' text) : position bytes text = position bytes' text := by
  rw [offset_eq, offset_eq] at h
  rw [position_eq, position_eq, positionFrom_eq_of_unitsBefore_eq h]

/-- Positions of byte offsets that stand for the same offset are the same. -/
theorem position_eq_of_offsetOf_eq {bytes bytes' : Nat} {text : List Char}
    (h : offsetOf (position bytes text) text = offsetOf (position bytes' text) text) :
    position bytes text = position bytes' text := by
  rw [offsetOf_position, offsetOf_position] at h
  exact position_eq_of_offset_eq h

end ScriptGraph.Text
