import Mathlib.Data.List.Chain
import ScriptGraph.Text.Clamp

/-!
# Bounded labels

Collapsing writes one space for every maximal run of blank characters, which leaves nothing to
collapse. Cutting keeps that, since the ellipsis is not blank, and a text that has been cut to a
larger size is cut to a smaller one like the text itself.

- `collapses_iff`: what collapsing makes of a text
- `collapseFrom_of_collapsed`: a collapsed text stays as it is
- `clamp_clamps`: the laws of clamping
-/

namespace ScriptGraph.Text

variable {text shown : List Char}

/-! ## Collapsing -/

/-- One space is shown for every maximal run of blank characters, and all else as it stands. -/
inductive Collapses : List Char → List Char → Prop
  | nil : Collapses [] []
  | char {c : Char} {text shown : List Char} (hc : isBlank c = false)
      (rest : Collapses text shown) : Collapses (c :: text) (c :: shown)
  | run {blanks text shown : List Char} (hne : blanks ≠ [])
      (hblanks : ∀ c ∈ blanks, isBlank c = true) (hend : ∀ c ∈ text.head?, isBlank c = false)
        (rest : Collapses text shown) :
      Collapses (blanks ++ text) (' ' :: shown)

/-- A text in which collapsing finds nothing to do: blank characters are spaces and stand alone. -/
structure Collapsed (text : List Char) : Prop where
  space : ∀ c ∈ text, isBlank c = true → c = ' '
  apart : text.IsChain fun c d => isBlank c = false ∨ isBlank d = false

/-- A character that is not blank is kept and ends a run of blanks. -/
theorem collapseFrom_cons_of_not_blank {c : Char} (hc : isBlank c = false) (inRun : Bool) :
    collapseFrom inRun (c :: text) = c :: collapseFrom false text := by
  simp [collapseFrom, hc]

/-- The rest of a run is passed over. -/
theorem collapseFrom_append_of_blank {blanks : List Char}
    (hblanks : ∀ c ∈ blanks, isBlank c = true) :
    collapseFrom true (blanks ++ text) = collapseFrom true text := by
  induction blanks with
  | nil => rfl
  | cons c rest ih =>
    have hc := hblanks c List.mem_cons_self
    rw [List.cons_append, collapseFrom, if_pos hc, if_pos rfl]
    exact ih fun d hd => hblanks d (List.mem_cons_of_mem c hd)

/-- Where no run goes on it does not matter whether there was one. -/
theorem collapseFrom_of_head (hend : ∀ c ∈ text.head?, isBlank c = false) :
    collapseFrom true text = collapseFrom false text := by
  cases text with
  | nil => rfl
  | cons c rest =>
    have hc := hend c rfl
    rw [collapseFrom_cons_of_not_blank hc, collapseFrom_cons_of_not_blank hc]

/-- A collapsed form of a text is the one that is computed. -/
theorem Collapses.eq_collapseFrom (h : Collapses text shown) : shown = collapseFrom false text := by
  induction h with
  | nil => rfl
  | char hc _ ih => rw [collapseFrom_cons_of_not_blank hc, ih]
  | @run blanks text shown hne hblanks hend _ ih =>
    obtain ⟨c, more, rfl⟩ := List.exists_cons_of_ne_nil hne
    have hc := hblanks c List.mem_cons_self
    have hmore : ∀ d ∈ more, isBlank d = true := fun d hd => hblanks d (List.mem_cons_of_mem c hd)
    rw [List.cons_append, collapseFrom, if_pos hc, if_neg Bool.false_ne_true,
      collapseFrom_append_of_blank hmore, collapseFrom_of_head hend, ih]

/-- The induction goes through the rest of an open run as well, which has been shown already. -/
theorem collapseFrom_collapses (text : List Char) :
    Collapses text (collapseFrom false text) ∧
      ∃ blanks rest, text = blanks ++ rest ∧ (∀ c ∈ blanks, isBlank c = true) ∧
        (∀ c ∈ rest.head?, isBlank c = false) ∧ Collapses rest (collapseFrom true text) := by
  induction text with
  | nil => exact ⟨.nil, [], [], rfl, nofun, nofun, .nil⟩
  | cons c text ih =>
    obtain ⟨hshown, blanks, rest, htext, hblanks, hend, hrest⟩ := ih
    -- A blank goes on or opens a run; any other character ends it.
    by_cases hc : isBlank c = true
    · have hall : ∀ d ∈ c :: blanks, isBlank d = true := List.forall_mem_cons.mpr ⟨hc, hblanks⟩
      have hsplit : c :: text = (c :: blanks) ++ rest := by rw [htext, List.cons_append]
      constructor
      · rw [collapseFrom, if_pos hc, if_neg Bool.false_ne_true, hsplit]
        exact .run (List.cons_ne_nil c blanks) hall hend hrest
      · refine ⟨c :: blanks, rest, hsplit, hall, hend, ?_⟩
        rwa [collapseFrom, if_pos hc, if_pos rfl]
    · have hc : isBlank c = false := by simpa using hc
      rw [collapseFrom_cons_of_not_blank hc, collapseFrom_cons_of_not_blank hc]
      refine ⟨.char hc hshown, [], c :: text, rfl, nofun, ?_, .char hc hshown⟩
      intro d hd
      rwa [← Option.some.inj hd]

/-- A text is collapsed to exactly one other. -/
theorem collapses_iff : Collapses text shown ↔ shown = collapseFrom false text :=
  ⟨Collapses.eq_collapseFrom, fun h => h ▸ (collapseFrom_collapses text).1⟩

/-! ## Collapsed texts -/

/-- What is left of an open run starts with no blank character. -/
theorem head?_collapseFrom_true (text : List Char) :
    ∀ c ∈ (collapseFrom true text).head?, isBlank c = false := by
  induction text with
  | nil => exact nofun
  | cons c rest ih =>
    by_cases hc : isBlank c = true
    · rwa [collapseFrom, if_pos hc, if_pos rfl]
    · have hc : isBlank c = false := by simpa using hc
      rw [collapseFrom_cons_of_not_blank hc]
      intro d hd
      rwa [← Option.some.inj hd]

/-- What is computed has no two blanks next to each other. -/
theorem collapsed_collapseFrom (inRun : Bool) (text : List Char) :
    Collapsed (collapseFrom inRun text) := by
  induction text generalizing inRun with
  | nil => exact ⟨nofun, .nil⟩
  | cons c rest ih =>
    -- A blank is dropped within a run and starts one otherwise; anything else stays.
    by_cases hc : isBlank c = true
    · rw [collapseFrom, if_pos hc]
      split
      · exact ih true
      · -- The space stands for a run, and behind it there is none.
        refine ⟨?_, List.isChain_cons.mpr ⟨?_, (ih true).apart⟩⟩
        · intro d hd hblank
          rcases List.mem_cons.mp hd with rfl | hd
          · rfl
          · exact (ih true).space d hd hblank
        · intro d hd
          exact .inr (head?_collapseFrom_true rest d hd)
    · have hc : isBlank c = false := by simpa using hc
      rw [collapseFrom_cons_of_not_blank hc]
      refine ⟨?_, List.isChain_cons.mpr ⟨fun d _ => .inl hc, (ih false).apart⟩⟩
      intro d hd hblank
      rcases List.mem_cons.mp hd with rfl | hd
      · simp [hc] at hblank
      · exact (ih false).space d hd hblank

/-- A collapsed text is not changed. -/
theorem collapseFrom_of_collapsed (h : Collapsed text) : collapseFrom false text = text := by
  induction text with
  | nil => rfl
  | cons c rest ih =>
    obtain ⟨hhead, hrest⟩ := List.isChain_cons.mp h.apart
    have hself : collapseFrom false rest = rest :=
      ih ⟨fun d hd => h.space d (List.mem_cons_of_mem c hd), hrest⟩
    -- A blank in a collapsed text has no other one behind it.
    by_cases hc : isBlank c = true
    · have hend : ∀ d ∈ rest.head?, isBlank d = false := by
        intro d hd
        simpa [hc] using hhead d hd
      rw [collapseFrom, if_pos hc, if_neg Bool.false_ne_true, collapseFrom_of_head hend, hself,
        h.space c List.mem_cons_self hc]
    · have hc : isBlank c = false := by simpa using hc
      rw [collapseFrom_cons_of_not_blank hc, hself]

/-- A collapsed text that is cut short stays collapsed, with the ellipsis too. -/
theorem Collapsed.take (h : Collapsed text) (n : Nat) : Collapsed (text.take n ++ [ellipsis]) := by
  have hellipsis : isBlank ellipsis = false := by decide
  constructor
  · intro c hc hblank
    rcases List.mem_append.mp hc with hc | hc
    · exact h.space c (List.mem_of_mem_take hc) hblank
    · rw [List.mem_singleton.mp hc, hellipsis] at hblank
      exact nomatch hblank
  · refine List.isChain_append.mpr ⟨h.apart.take n, .singleton _, ?_⟩
    intro c _ d hd
    rw [← Option.some.inj hd]
    exact .inr hellipsis

/-! ## Cutting -/

/-- A text within the limit is not cut. -/
theorem cut_of_le {limit : Int} (h : (text.length : Int) ≤ limit) : cut limit text = text := by
  rw [cut, if_pos h]

/-- A longer text is cut, with an ellipsis for its last place. -/
theorem cut_of_lt {n : Nat} (h : n + 1 < text.length) :
    cut ((n : Int) + 1) text = text.take n ++ [ellipsis] := by
  rw [cut, if_neg (by omega), Int.add_sub_cancel, takeSigned_ofNat]

/-- What is cut is within the limit. -/
theorem length_cut_le (n : Nat) (text : List Char) : (cut ((n : Int) + 1) text).length ≤ n + 1 := by
  by_cases h : n + 1 < text.length
  · rw [cut_of_lt h, List.length_append, List.length_take, List.length_singleton]
    omega
  · rw [cut_of_le (by omega)]
    omega

/-- Cutting a collapsed text leaves it collapsed. -/
theorem Collapsed.cut (h : Collapsed text) (n : Nat) :
    Collapsed (Text.cut ((n : Int) + 1) text) := by
  by_cases hlong : n + 1 < text.length
  · rw [cut_of_lt hlong]
    exact h.take n
  · rw [cut_of_le (by omega)]
    exact h

/-- Cutting in two steps is cutting once. -/
theorem cut_cut {n m : Nat} (h : n ≤ m) (text : List Char) :
    cut ((n : Int) + 1) (cut ((m : Int) + 1) text) = cut ((n : Int) + 1) text := by
  by_cases hlong : m + 1 < text.length
  · rw [cut_of_lt hlong]
    have hlength : (text.take m ++ [ellipsis]).length = m + 1 := by
      simp only [List.length_append, List.length_take, List.length_singleton]
      omega
    rcases Nat.eq_or_lt_of_le h with rfl | hlt
    · rw [cut_of_le (by omega), cut_of_lt hlong]
    · -- The first ellipsis is cut away again, with whatever stands before it.
      rw [cut_of_lt (by omega), cut_of_lt (by omega),
        List.take_append_of_le_length (by simp; omega), List.take_take, Nat.min_eq_left h]
  · rw [cut_of_le (by omega : (text.length : Int) ≤ (m : Int) + 1)]

/-! ## Clamping -/

/-- Collapsing a string collapses its characters. -/
theorem toList_collapse (text : String) :
    (collapse text).toList = collapseFrom false text.toList := by
  rw [collapse, String.toList_ofList]

/-- Clamping a string cuts its collapsed characters. -/
theorem toList_clamp (limit : Int) (text : String) :
    (clamp limit text).toList = cut limit (collapse text).toList := by
  rw [clamp, String.toList_ofList, toList_collapse]

/-- What has been clamped is collapsed, so clamping it once more only cuts it. -/
theorem toList_clamp_clamp (n m : Nat) (text : String) :
    (clamp ((n : Int) + 1) (clamp ((m : Int) + 1) text)).toList =
      cut ((n : Int) + 1) (cut ((m : Int) + 1) (collapse text).toList) := by
  have hcollapsed : Collapsed (cut ((m : Int) + 1) (collapseFrom false text.toList)) :=
    (collapsed_collapseFrom false text.toList).cut m
  rw [toList_clamp, toList_collapse, toList_clamp, toList_collapse,
    collapseFrom_of_collapsed hcollapsed]

/-- A text that is clamped to `a` characters has no more of them; all white space in it is single
spaces. It is the collapsed text, if that is short enough, and otherwise a proper prefix of it with
an ellipsis. Clamping it once more changes nothing, and neither does clamping it to a larger size
before. -/
theorem clamp_clamps (text : String) {a b : Int} (ha : 1 ≤ a) (hab : a ≤ b) :
    Collapses text.toList (collapse text).toList ∧
      ((clamp a text).toList.length : Int) ≤ a ∧
      (clamp a text).toList.IsChain (fun c d => isBlank c = false ∨ isBlank d = false) ∧
      (∀ c ∈ (clamp a text).toList, isBlank c = true → c = ' ') ∧
      (((collapse text).toList.length : Int) ≤ a → clamp a text = collapse text) ∧
      (a < ((collapse text).toList.length : Int) → ∃ shown rest : List Char,
        (collapse text).toList = shown ++ rest ∧ rest ≠ [] ∧ (shown.length : Int) + 1 = a ∧
          (clamp a text).toList = shown ++ ['…']) ∧
      clamp a (clamp a text) = clamp a text ∧
      clamp a (clamp b text) = clamp a text := by
  obtain ⟨n, rfl⟩ : ∃ n : Nat, a = n + 1 := ⟨(a - 1).toNat, by omega⟩
  obtain ⟨m, rfl⟩ : ∃ m : Nat, b = m + 1 := ⟨(b - 1).toNat, by omega⟩
  -- Whatever the size, the result is a collapsed text that has been cut.
  have hcollapsed : Collapsed (clamp ((n : Int) + 1) text).toList := by
    rw [toList_clamp, toList_collapse]
    exact (collapsed_collapseFrom false text.toList).cut n
  refine ⟨?collapses, ?short, hcollapsed.apart, hcollapsed.space, ?whole, ?part, ?again, ?twice⟩
  case collapses =>
    rw [toList_collapse]
    exact (collapseFrom_collapses text.toList).1
  case short =>
    have hle := length_cut_le n (collapse text).toList
    rw [toList_clamp]
    omega
  case whole =>
    intro hle
    apply String.toList_injective
    rw [toList_clamp, cut_of_le hle]
  -- The cut leaves room for the ellipsis.
  case part =>
    intro hlt
    have hlong : n + 1 < (collapse text).toList.length := by omega
    refine ⟨(collapse text).toList.take n, (collapse text).toList.drop n,
      (List.take_append_drop n _).symm, ?_, ?_, ?_⟩
    · intro hnil
      have hle := List.drop_eq_nil_iff.mp hnil
      omega
    · rw [List.length_take]
      omega
    · rw [toList_clamp, cut_of_lt hlong, ellipsis]
  case again =>
    apply String.toList_injective
    rw [toList_clamp_clamp, toList_clamp, cut_cut (Nat.le_refl n)]
  case twice =>
    apply String.toList_injective
    rw [toList_clamp_clamp, toList_clamp, cut_cut (by omega)]

/-- The cut to three characters falls behind a collapsed run, and the cut to five inside a word. -/
theorem clamp_clamps_run :
    (1 : Int) ≤ 3 ∧ (3 : Int) ≤ 5 ∧ collapse "a\t \nbcd e" = "a bcd e" ∧
      clamp 3 "a\t \nbcd e" = "a …" ∧ clamp 5 "a\t \nbcd e" = "a bc…" ∧
      clamp 3 (clamp 3 "a\t \nbcd e") = clamp 3 "a\t \nbcd e" ∧
      clamp 3 (clamp 5 "a\t \nbcd e") = clamp 3 "a\t \nbcd e" := by
  obtain ⟨-, -, -, -, -, -, hagain, htwice⟩ :=
    clamp_clamps "a\t \nbcd e" (a := 3) (b := 5) (by decide) (by decide)
  exact ⟨by decide, by decide, by decide +kernel, by decide +kernel, by decide +kernel, hagain,
    htwice⟩

end ScriptGraph.Text
