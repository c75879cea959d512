/-!
# Memories of answers

A memory keeps answers by what was asked. The answer recorded last for a key is the one found.
-/

namespace ScriptGraph

/-- Answers by key, the latest first. -/
structure Memo (κ : Type) (β : Type) where
  entries : List (κ × β) := []
deriving Inhabited

namespace Memo

variable {κ β : Type} [DecidableEq κ]

/-- The answer to a key. -/
def find? (m : Memo κ β) (k : κ) : Option β :=
  (m.entries.find? fun e => e.1 = k).map (·.2)

/-- Remembers an answer. -/
def record (m : Memo κ β) (k : κ) (v : β) : Memo κ β :=
  ⟨(k, v) :: m.entries⟩

/-- A look-up sees the answer just recorded for its key and the earlier ones for other keys. -/
theorem find?_record (m : Memo κ β) (k k' : κ) (v : β) :
    (m.record k v).find? k' = if k = k' then some v else m.find? k' := by
  by_cases h : k = k' <;> simp [find?, record, h]

variable {m : Memo κ β} {k : κ} {v : β}

/-- What is found is one of the entries. -/
theorem mem_entries_of_find? (h : m.find? k = some v) : (k, v) ∈ m.entries := by
  obtain ⟨e, he, rfl⟩ := Option.map_eq_some_iff.mp h
  have hk : e.1 = k := by simpa using List.find?_some he
  exact hk ▸ List.mem_of_find?_eq_some he

/-- Nothing is found at a key that no entry has. -/
theorem find?_eq_none : m.find? k = none ↔ ∀ e ∈ m.entries, e.1 ≠ k := by
  simp [find?]

end Memo

end ScriptGraph
