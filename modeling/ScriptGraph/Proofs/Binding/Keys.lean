import ScriptGraph.Proofs.Binding.Changes
import ScriptGraph.Proofs.Workspace.Coherence

/-!
# Names are listed once

A table has every key once, since what is put again keeps its place. So no scope lists a name
twice, neither among the names that it exposes nor among those that it declares.

- `Store.Listed`: the scopes of a store list every name once
- `bind_listed`: they still do when a file has been bound
-/

namespace ScriptGraph

namespace Table

variable {κ β : Type} [DecidableEq κ]

/-- The keys of a table are those that a value is found at. -/
theorem isSome_find? {t : Table κ β} {k : κ} : (t.find? k).isSome = true ↔ k ∈ t.keys := by
  simp [find?, keys, List.find?_isSome]

/-- A table contains its keys. -/
theorem contains_iff {t : Table κ β} {k : κ} : t.contains k = true ↔ k ∈ t.keys := by
  simp [contains, keys]

/-- What is put again keeps its place. -/
theorem map_fst_putEntry {k : κ} {es : List (κ × β)} (h : k ∈ es.map (·.1)) (v : β) :
    (putEntry k v es).map (·.1) = es.map (·.1) := by
  induction es with
  | nil => exact absurd h List.not_mem_nil
  | cons e rest ih =>
    rw [putEntry]
    split
    next he => rw [List.map_cons, List.map_cons, he]
    next he =>
      have hrest : k ∈ rest.map (·.1) := (List.mem_cons.mp h).resolve_left (Ne.symm he)
      rw [List.map_cons, List.map_cons, ih hrest]

/-- Putting an entry repeats no key. -/
theorem nodup_keys_put {t : Table κ β} (h : t.keys.Nodup) (k : κ) (v : β) :
    (t.put k v).keys.Nodup := by
  by_cases hk : k ∈ t.keys
  · rw [keys, put, map_fst_putEntry hk]
    exact h
  · have hnew : t.contains k = false :=
      contains_eq_false.mpr fun e he hek => hk (hek ▸ List.mem_map_of_mem he)
    rw [keys, entries_put_of_not_contains v hnew, List.map_append]
    refine List.nodup_append.mpr ⟨h, List.nodup_cons.mpr ⟨List.not_mem_nil, List.nodup_nil⟩, ?_⟩
    rintro a ha b hb rfl
    have hak : a = k := List.mem_singleton.mp hb
    exact hk (hak ▸ ha)

end Table

namespace Binding

open Syntax

/-- A scope lists every name once among those that it exposes, and among those that it declares if
it keeps a table of its own. -/
structure Scope.Listed (scope : Scope) : Prop where
  exports : scope.exports.keys.Nodup
  own : ∀ t, scope.table = .own t → t.keys.Nodup

/-- A scope that knows no names lists none twice. -/
theorem Scope.listed_empty (kind : ScopeKind) (node : Node) (parent : Option ScopeId) :
    Scope.Listed { kind, node, parent } :=
  ⟨List.nodup_nil, fun _ ht => ScopeTable.own.inj ht ▸ List.nodup_nil⟩

namespace Store

/-- The scopes of a store list every name once. -/
def Listed (s : Store) : Prop :=
  ∀ id, (s.scope id).exports.keys.Nodup ∧ (s.symbolsOf id).keys.Nodup

/-- What is bound into a store lists every name once: all scopes, and among their statics the
symbols from a number on. -/
structure ListedFrom (first : Nat) (s : Store) : Prop where
  scope : ∀ id, (s.scope id).Listed
  statics : ∀ id : SymbolId, first ≤ id.index → (s.symbol id).statics.keys.Nodup

variable {s next : Store} {first : Nat}

/-- Beyond the last symbol there is nothing to be listed. -/
theorem Listed.listedFrom (h : s.Listed) : s.ListedFrom s.symbols.size where
  scope id := by
    obtain ⟨hexports, hsymbols⟩ := h id
    refine ⟨hexports, fun t ht => ?_⟩
    rwa [symbolsOf, ht] at hsymbols
  statics id hid := by
    rw [symbol, Array.getD_eq_getD_getElem?, Array.getElem?_eq_none hid]
    exact List.nodup_nil

/-! ## One change -/

/-- A symbol may change if its statics still list every name once. -/
theorem ListedFrom.modifySymbol (h : s.ListedFrom first) {id : SymbolId} {f : Symbol → Symbol}
    (hf : ∀ o : Symbol, o.statics.keys.Nodup → (f o).statics.keys.Nodup) :
    (s.modifySymbol id f).ListedFrom first where
  scope := h.scope
  statics other hother := by
    rw [symbol_modifySymbol]
    split
    · exact hf _ (h.statics other hother)
    · exact h.statics other hother

/-- A scope may change if it still lists every name once. -/
theorem ListedFrom.modifyScope (h : s.ListedFrom first) {id : ScopeId} {f : Scope → Scope}
    (hf : ∀ sc : Scope, sc.Listed → (f sc).Listed) : (s.modifyScope id f).ListedFrom first where
  scope other := by
    rw [scope_modifyScope]
    split
    · exact hf _ (h.scope other)
    · exact h.scope other
  statics := h.statics

/-- Putting a symbol under a name lists the name once. -/
theorem ListedFrom.putSymbol (h : s.ListedFrom first) (scope : ScopeId) (name : String)
    (symbol : SymbolId) : (s.putSymbol scope name symbol).ListedFrom first := by
  unfold Store.putSymbol
  split
  · refine h.modifyScope fun sc hsc => ?_
    split
    next t ht =>
      refine ⟨hsc.exports, fun u hu => ?_⟩
      rw [← ScopeTable.own.inj hu]
      exact Table.nodup_keys_put (hsc.own t ht) name symbol
    next => exact hsc
  · exact h.modifySymbol fun o ho => Table.nodup_keys_put ho name symbol

/-- No change lists a name again. -/
theorem ListedFrom.change (h : s.ListedFrom first) (hchange : s.Change next) :
    next.ListedFrom first := by
  cases hchange with
  -- A new symbol or scope lists nothing, and any other one what it listed before.
  | symbol name parent =>
    refine ⟨h.scope, fun id hid => ?_⟩
    rw [symbol_addSymbol]
    split
    · exact List.nodup_nil
    · exact h.statics id hid
  | declaration => exact ⟨h.scope, h.statics⟩
  | scope kind node parent =>
    refine ⟨fun id => ?_, h.statics⟩
    rw [scope_addScope]
    split
    · exact Scope.listed_empty kind node parent
    · exact h.scope id
  | enter scope name symbol => exact h.putSymbol scope name symbol
  -- The symbol of a declaration shows in no table.
  | attach symbol d =>
    have hdeclared : (s.modifyDeclaration d fun decl =>
        { decl with symbol := some symbol }).ListedFrom first := ⟨h.scope, h.statics⟩
    exact hdeclared.modifySymbol fun _ ho => ho
  | member | constructs | calls => exact h.modifySymbol fun _ ho => ho
  | static owner name symbol => exact h.modifySymbol fun o ho => Table.nodup_keys_put ho name symbol
  | typeParameter owner name =>
    refine h.modifySymbol fun o ho => ?_
    split <;> exact ho
  | exposed module name entry =>
    exact h.modifyScope fun sc hsc => ⟨Table.nodup_keys_put hsc.exports name entry, hsc.own⟩
  | star | ambient => exact h.modifyScope fun sc hsc => ⟨hsc.exports, hsc.own⟩
  | block => exact h.modifyScope fun sc hsc => ⟨hsc.exports, nofun⟩

/-- The changes of binding list every name once. -/
theorem ListedFrom.changes (h : s.ListedFrom first) (hchanges : s.Changes next) :
    next.ListedFrom first := by
  induction hchanges with
  | refl => exact h
  | tail _ hlast ih => exact ih.change hlast

/-! ## Stores -/

/-- The empty store lists nothing. -/
theorem listed_empty : ({} : Store).Listed :=
  fun _ => ⟨List.nodup_nil, List.nodup_nil⟩

/-- A store lists the same names when its scopes and what they declare stay the same. -/
theorem Listed.congr (h : s.Listed) (hscope : ∀ id, next.scope id = s.scope id)
    (hsymbols : ∀ id, next.symbolsOf id = s.symbolsOf id) : next.Listed := fun id => by
  rw [hscope, hsymbols]
  exact h id

end Store

/-- The scopes of a store list every name once when a file has been bound. -/
theorem bind_listed (file : Source) {store : Store} (hclosed : store.Closed)
    (h : store.Listed) : (bind file store).2.Listed := by
  intro id
  have hgrown := (bind_grown file store).store
  have hlisted := h.listedFrom.changes (bind_changes file store)
  refine ⟨(hlisted.scope id).exports, ?_⟩
  -- The scopes of the library were there before, and have not changed.
  by_cases hid : id.index < store.scopes.size
  · rw [hclosed.symbolsOf_extends hgrown.extends_base hid]
    exact (h id).2
  · -- What a scope of the file declares is its own, or among the statics of a new symbol.
    have hnew := (hgrown.scope_closed id (Nat.not_lt.mp hid)).2
    unfold Store.symbolsOf
    cases ht : ((bind file store).2.scope id).table with
    | own t => exact (hlisted.scope id).own t ht
    | staticsOf owner =>
      rw [ht] at hnew
      exact hlisted.statics owner hnew.1

end Binding

end ScriptGraph
