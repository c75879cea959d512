/-!
# Insertion-ordered tables

A table maps keys to values and remembers the order in which keys were first put. Putting a key
again replaces its value and keeps its place. `find?_put` says what a look-up sees after a put.
-/

namespace ScriptGraph

/-- A finite map with its keys in the order in which they were first put. -/
structure Table (κ : Type) (β : Type) where
  entries : List (κ × β) := []
deriving Repr, Inhabited

namespace Table

variable {κ β : Type} [DecidableEq κ]

/-- The table without entries. -/
def empty : Table κ β := ⟨[]⟩

/-- The value at a key. -/
def find? (t : Table κ β) (k : κ) : Option β :=
  (t.entries.find? (·.1 = k)).map (·.2)

/-- Whether a key has a value. -/
def contains (t : Table κ β) (k : κ) : Bool :=
  t.entries.any (·.1 = k)

/-- Replaces the value of the first entry at a key, or adds an entry at the end. -/
def putEntry (k : κ) (v : β) : List (κ × β) → List (κ × β)
  | [] => [(k, v)]
  | e :: rest => if e.1 = k then (k, v) :: rest else e :: putEntry k v rest

/-- Sets the value at a key. -/
def put (t : Table κ β) (k : κ) (v : β) : Table κ β :=
  ⟨putEntry k v t.entries⟩

/-- Sets the value at a key that has none. -/
def putNew (t : Table κ β) (k : κ) (v : β) : Table κ β :=
  if t.contains k then t else ⟨t.entries ++ [(k, v)]⟩

/-- The table of a list of pairs: a repeated key keeps its first place and its last value. -/
def ofList (pairs : List (κ × β)) : Table κ β :=
  pairs.foldl (fun t e => t.put e.1 e.2) empty

/-- Puts all entries of another table. -/
def merge (t u : Table κ β) : Table κ β :=
  u.entries.foldl (fun acc e => acc.put e.1 e.2) t

/-- The keys, in order. -/
def keys (t : Table κ β) : List κ :=
  t.entries.map (·.1)

/-- The values, in the order of their keys. -/
def values (t : Table κ β) : List β :=
  t.entries.map (·.2)

/-- Whether the table has no entries. -/
def isEmpty (t : Table κ β) : Bool :=
  t.entries.isEmpty

/-- Looking up what was put last finds it, and other keys as before. -/
theorem find?_putEntry (k k' : κ) (v : β) (es : List (κ × β)) :
    (putEntry k v es).find? (·.1 = k') =
      if k = k' then some (k, v) else es.find? (·.1 = k') := by
  induction es with
  | nil => by_cases h : k = k' <;> simp [putEntry, h]
  | cons e rest ih =>
    by_cases hek : e.1 = k
    · subst hek
      by_cases h : e.1 = k' <;> simp [putEntry, h]
    · rw [putEntry, if_neg hek, List.find?_cons, List.find?_cons, ih]
      by_cases h : k = k'
      · subst h
        simp [hek]
      · simp [h]

/-- A look-up after a put sees the new value at the put key and the old ones elsewhere. -/
theorem find?_put (t : Table κ β) (k k' : κ) (v : β) :
    (t.put k v).find? k' = if k = k' then some v else t.find? k' := by
  simp only [find?, put, find?_putEntry]
  split <;> rfl

/-- An entry was put last, or was there before. -/
theorem mem_putEntry {k : κ} {v : β} {es : List (κ × β)} {e : κ × β}
    (h : e ∈ putEntry k v es) : e = (k, v) ∨ e ∈ es := by
  induction es with
  | nil => exact .inl (List.mem_singleton.mp h)
  | cons d rest ih =>
    rw [putEntry] at h
    split at h
    · exact (List.mem_cons.mp h).imp_right (List.mem_cons_of_mem _)
    · rcases List.mem_cons.mp h with rfl | h
      · exact .inr List.mem_cons_self
      · exact (ih h).imp_right (List.mem_cons_of_mem _)

/-- A key that has a value keeps it when a value is set for keys that have none. -/
theorem find?_putNew (t : Table κ β) (k k' : κ) (v : β) :
    (t.putNew k v).find? k' = (t.find? k').or (if k = k' then some v else none) := by
  unfold putNew
  by_cases hk : t.contains k
  · rw [if_pos hk]
    split
    next heq =>
      -- The key has a value already.
      obtain ⟨e, he, hek⟩ := List.any_eq_true.mp hk
      cases hfind : t.find? k' with
      | some _ => rfl
      | none =>
        have hne := List.find?_eq_none.mp (Option.map_eq_none_iff.mp hfind) e he
        exact absurd (heq ▸ hek) hne
    next => exact (Option.or_none).symm
  · rw [if_neg hk, find?, List.find?_append, Option.map_or, ← find?]
    by_cases h : k = k' <;> simp [h]

/-- An entry of a table after a put is the new one or an old one. -/
theorem mem_entries_put {t : Table κ β} {k : κ} {v : β} {e : κ × β}
    (h : e ∈ (t.put k v).entries) : e = (k, v) ∨ e ∈ t.entries :=
  mem_putEntry h

/-- An entry of a table after a put of a new key is the new one or an old one. -/
theorem mem_entries_putNew {t : Table κ β} {k : κ} {v : β} {e : κ × β}
    (h : e ∈ (t.putNew k v).entries) : e = (k, v) ∨ e ∈ t.entries := by
  rw [putNew] at h
  split at h
  · exact .inr h
  · exact (List.mem_append.mp h).symm.imp_left List.mem_singleton.mp

/-- A value that is found is that of an entry at the key. -/
theorem mem_entries_of_find? {t : Table κ β} {k : κ} {v : β} (h : t.find? k = some v) :
    (k, v) ∈ t.entries := by
  obtain ⟨e, he, rfl⟩ := Option.map_eq_some_iff.mp h
  have hk : e.1 = k := by simpa using List.find?_some he
  exact hk ▸ List.mem_of_find?_eq_some he

/-- A table that lacks a key has other keys only. -/
theorem contains_eq_false {t : Table κ β} {k : κ} :
    t.contains k = false ↔ ∀ e ∈ t.entries, e.1 ≠ k := by
  simp [contains]

/-- A table that finds nothing at a key lacks it. -/
theorem contains_eq_false_of_find? {t : Table κ β} {k : κ} (h : t.find? k = none) :
    t.contains k = false :=
  contains_eq_false.mpr fun e he => by
    simpa using List.find?_eq_none.mp (Option.map_eq_none_iff.mp h) e he

/-- Putting at a new key appends the entry. -/
theorem putEntry_of_forall_ne {k : κ} {v : β} {es : List (κ × β)} (h : ∀ e ∈ es, e.1 ≠ k) :
    putEntry k v es = es ++ [(k, v)] := by
  induction es with
  | nil => rfl
  | cons e rest ih =>
    rw [putEntry, if_neg (h e List.mem_cons_self),
      ih fun e he => h e (List.mem_cons_of_mem _ he), List.cons_append]

/-- A value that is put at a new key comes last. -/
theorem entries_put_of_not_contains {t : Table κ β} {k : κ} (v : β)
    (h : t.contains k = false) : (t.put k v).entries = t.entries ++ [(k, v)] :=
  putEntry_of_forall_ne (contains_eq_false.mp h)

/-- The empty table finds nothing. -/
@[simp] theorem find?_empty (k : κ) : (empty : Table κ β).find? k = none := rfl

end Table

end ScriptGraph
