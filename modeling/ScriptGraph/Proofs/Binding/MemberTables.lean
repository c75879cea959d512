import ScriptGraph.Proofs.Binding.Constructs
import ScriptGraph.Proofs.Binding.Keys

/-!
# Members are symbols apart

What is declared as a member of a symbol gets a symbol that nothing else leads to: no scope knows
it, and it is no static member. So whatever is declared in a scope, or on the static side of a
symbol, leaves members as they are. The steps of binding keep this, and all of them but one leave
the members of a symbol alone.

- `Store.MemberOf`: the members of a symbol
- `Store.MembersApart`: no other table leads to a member
- `Store.KeepsMembers`: what leaves the members of a symbol alone
- `Bind.Step.membersApart`, `Bind.Step.keepsMembers`: one step of binding
-/

namespace ScriptGraph.Binding

open Syntax

namespace Store

/-- A symbol is a member of another one. -/
def MemberOf (s : Store) (owner m : SymbolId) : Prop :=
  ∃ name, (name, m) ∈ (s.symbol owner).members.entries

/-- Members are symbols apart: neither a scope nor the static side of a symbol leads to them. -/
structure MembersApart (s : Store) : Prop where
  own : ∀ id t, (s.scope id).table = .own t → ∀ e ∈ t.entries, ∀ owner, ¬ s.MemberOf owner e.2
  statics : ∀ x, ∀ e ∈ (s.symbol x).statics.entries, ∀ owner, ¬ s.MemberOf owner e.2
  keys_nodup : ∀ x, (s.symbol x).members.keys.Nodup

/-- A change leaves the members of a symbol alone. -/
structure KeepsMembers (owner : SymbolId) (old new : Store) : Prop where
  members_eq : (new.symbol owner).members = (old.symbol owner).members
  parent_eq : ∀ m, old.MemberOf owner m → (new.symbol m).parent = (old.symbol m).parent
  declarations_eq : ∀ m, old.MemberOf owner m →
    (new.symbol m).declarations = (old.symbol m).declarations

variable {s next last : Store} {name : String} {owner x m : SymbolId} {d : DeclarationId}

/-- A member stands under a name, and the symbol that it is a member of is its parent. -/
theorem MemberOf.standsUnder (h : s.MemberOf owner m) (hlinked : s.Linked) :
    ∃ name, s.StandsUnder name m ∧ (s.symbol m).parent = some owner := by
  obtain ⟨name, hm⟩ := h
  exact ⟨name, (hlinked.symbol owner).members _ hm⟩

/-- A member is in the store. -/
theorem MemberOf.index_lt (h : s.MemberOf owner m) (hlinked : s.Linked) :
    m.index < s.symbols.size := by
  obtain ⟨name, hstands, -⟩ := h.standsUnder hlinked
  exact hstands.index_lt

/-- No symbol that is still to be added is a member. -/
theorem Linked.not_memberOf_new (h : s.Linked) (owner : SymbolId) :
    ¬ s.MemberOf owner ⟨s.symbols.size⟩ :=
  fun hm => Nat.lt_irrefl _ (hm.index_lt h)

/-- No scope leads to a member. -/
theorem MembersApart.not_memberOf_symbolsOf (h : s.MembersApart) {scope : ScopeId}
    {e : String × SymbolId} (he : e ∈ (s.symbolsOf scope).entries) (owner : SymbolId) :
    ¬ s.MemberOf owner e.2 := by
  unfold symbolsOf at he
  cases htable : (s.scope scope).table with
  | own t =>
    rw [htable] at he
    exact h.own scope t htable e he owner
  | staticsOf other =>
    rw [htable] at he
    exact h.statics other e he owner

/-! ## What leaves members alone -/

namespace KeepsMembers

/-- Doing nothing leaves members alone. -/
theorem refl (owner : SymbolId) (s : Store) : KeepsMembers owner s s :=
  ⟨rfl, fun _ _ => rfl, fun _ _ => rfl⟩

/-- The members are the same before and after. -/
theorem memberOf_iff (h : KeepsMembers owner s next) :
    next.MemberOf owner m ↔ s.MemberOf owner m := by
  rw [MemberOf, h.members_eq, MemberOf]

/-- Two changes that leave members alone do so one after the other. -/
theorem trans (h : KeepsMembers owner s next) (h' : KeepsMembers owner next last) :
    KeepsMembers owner s last where
  members_eq := h'.members_eq.trans h.members_eq
  parent_eq m hm := (h'.parent_eq m (h.memberOf_iff.mpr hm)).trans (h.parent_eq m hm)
  declarations_eq m hm :=
    (h'.declarations_eq m (h.memberOf_iff.mpr hm)).trans (h.declarations_eq m hm)

/-- A change that shows at no symbol. -/
theorem of_symbol_eq (h : ∀ x, next.symbol x = s.symbol x) : KeepsMembers owner s next :=
  ⟨by rw [h], fun m _ => by rw [h], fun m _ => by rw [h]⟩

/-- A new symbol has no members, and is none. -/
theorem addSymbol (hlinked : s.Linked) (name : String) (parent : Option SymbolId) :
    KeepsMembers owner s (s.addSymbol { name, parent }).2 := by
  have hold : ∀ m, s.MemberOf owner m →
      (s.addSymbol { name, parent }).2.symbol m = s.symbol m := fun m hm => by
    rw [symbol_addSymbol, if_neg (Nat.ne_of_lt (hm.index_lt hlinked))]
  refine ⟨?_, fun m hm => by rw [hold m hm], fun m hm => by rw [hold m hm]⟩
  rw [symbol_addSymbol]
  split
  · rename_i hindex
    rw [symbol, Array.getD_eq_getD_getElem?, Array.getElem?_eq_none (Nat.le_of_eq hindex.symm)]
    rfl
  · rfl

/-- A change of what a symbol lists apart from members and declarations. -/
theorem modifySymbol {f : Symbol → Symbol} (hmembers : ∀ o, (f o).members = o.members)
    (hparent : ∀ o, (f o).parent = o.parent)
    (hdeclarations : ∀ o, (f o).declarations = o.declarations)
    (s : Store) (x : SymbolId) : KeepsMembers owner s (s.modifySymbol x f) := by
  refine ⟨?_, fun m _ => ?_, fun m _ => ?_⟩
  · rw [symbol_modifySymbol]
    split
    · exact hmembers _
    · rfl
  · rw [symbol_modifySymbol]
    split
    · exact hparent _
    · rfl
  · rw [symbol_modifySymbol]
    split
    · exact hdeclarations _
    · rfl

/-- What is put into a scope is put among the members of no symbol. -/
theorem putSymbol (s : Store) (scope : ScopeId) (name : String) (x : SymbolId) :
    KeepsMembers owner s (s.putSymbol scope name x) := by
  unfold Store.putSymbol
  split
  · exact .of_symbol_eq fun _ => rfl
  · refine .modifySymbol ?_ ?_ ?_ s _ <;> exact fun _ => rfl

/-- What is attached to a symbol that is no member. -/
theorem attach (hx : ¬ s.MemberOf owner x) (d : DeclarationId) :
    KeepsMembers owner s (s.attach x d) := by
  have hother : ∀ m, s.MemberOf owner m → (s.attach x d).symbol m = s.symbol m := fun m hm => by
    rw [symbol_attach, if_neg fun h : x = m ∧ _ => hx (h.1 ▸ hm)]
  refine ⟨?_, fun m hm => by rw [hother m hm], fun m hm => by rw [hother m hm]⟩
  rw [symbol_attach]
  split <;> rfl

/-- What is put among the members of another symbol, or on the static side. -/
theorem putMember {other : SymbolId} {isStatic : Bool} (h : other = owner → isStatic = true)
    (s : Store) (name : String) (x : SymbolId) :
    KeepsMembers owner s (s.putMember other isStatic name x) := by
  refine ⟨?_, fun m _ => ?_, fun m _ => ?_⟩
  · rw [Store.putMember, symbol_modifySymbol]
    split
    -- The table of members is touched if the owner is the same symbol, and then the entry is
    -- static.
    · rename_i hother
      rw [if_pos (h hother.1)]
    · rfl
  · rw [Store.putMember, symbol_modifySymbol]
    split
    · split <;> rfl
    · rfl
  · rw [Store.putMember, symbol_modifySymbol]
    split
    · split <;> rfl
    · rfl

end KeepsMembers

/-! ## Members stay apart -/

namespace MembersApart

/-- The rule behind every change that adds no member: what it puts into a table is no member. -/
theorem change (h : s.MembersApart) (hmembers : ∀ x, (next.symbol x).members = (s.symbol x).members)
    (hown : ∀ id t, (next.scope id).table = .own t → ∀ e ∈ t.entries,
      (∃ old, (s.scope id).table = .own old ∧ e ∈ old.entries) ∨ ∀ owner, ¬ s.MemberOf owner e.2)
    (hstatics : ∀ x, ∀ e ∈ (next.symbol x).statics.entries,
      e ∈ (s.symbol x).statics.entries ∨ ∀ owner, ¬ s.MemberOf owner e.2) :
    next.MembersApart := by
  -- No new members: a member afterwards has been one before.
  have hmember : ∀ owner m, next.MemberOf owner m → s.MemberOf owner m := fun owner m hm => by
    rwa [MemberOf, hmembers] at hm
  refine ⟨fun id t ht e he owner hm => ?_, fun x e he owner hm => ?_, fun x => ?_⟩
  · rcases hown id t ht e he with ⟨old, hold, he⟩ | hnot
    · exact h.own id old hold e he owner (hmember owner _ hm)
    · exact hnot owner (hmember owner _ hm)
  · rcases hstatics x e he with he | hnot
    · exact h.statics x e he owner (hmember owner _ hm)
    · exact hnot owner (hmember owner _ hm)
  · rw [hmembers]
    exact h.keys_nodup x

/-- A declaration that is added leads to no member. -/
theorem addDeclaration (h : s.MembersApart) (decl : Declaration) :
    (s.addDeclaration decl).2.MembersApart :=
  h.change (fun _ => rfl) (fun _ t ht _ he => .inl ⟨t, ht, he⟩) fun _ _ he => .inl he

/-- A new scope is empty. -/
theorem addScope (h : s.MembersApart) (kind : ScopeKind) (node : Node) (parent : Option ScopeId) :
    (s.addScope { kind, node, parent }).2.MembersApart := by
  refine h.change (fun _ => rfl) (fun id t ht e he => .inl ?_) fun _ _ he => .inl he
  rw [scope_addScope] at ht
  split at ht
  · exact absurd (ScopeTable.own.inj ht ▸ he) List.not_mem_nil
  · exact ⟨t, ht, he⟩

/-- A new symbol has empty tables. -/
theorem addSymbol (h : s.MembersApart) (name : String) (parent : Option SymbolId) :
    (s.addSymbol { name, parent }).2.MembersApart := by
  -- Beyond the end of the store, a symbol reads as the default one, whose tables are empty.
  have hempty : ∀ x : SymbolId, x.index = s.symbols.size → s.symbol x = default := fun x hx => by
    rw [symbol, Array.getD_eq_getD_getElem?, Array.getElem?_eq_none (Nat.le_of_eq hx.symm)]
    rfl
  refine h.change (fun x => ?_) (fun _ t ht _ he => .inl ⟨t, ht, he⟩) fun x e he => .inl ?_
  · rw [symbol_addSymbol]
    split
    next hx => rw [hempty x hx]; rfl
    next => rfl
  · rw [symbol_addSymbol] at he
    split at he
    next => exact absurd he List.not_mem_nil
    next => exact he

/-- A change of a symbol may put into its statics only what is no member. -/
theorem modifySymbol (h : s.MembersApart) {f : Symbol → Symbol}
    (hmembers : ∀ o, (f o).members = o.members)
    (hstatics : ∀ o, ∀ e ∈ (f o).statics.entries,
      e ∈ o.statics.entries ∨ ∀ owner, ¬ s.MemberOf owner e.2) (x : SymbolId) :
    (s.modifySymbol x f).MembersApart := by
  refine h.change (fun y => ?_) (fun _ t ht _ he => .inl ⟨t, ht, he⟩) fun y e he => ?_
  · rw [symbol_modifySymbol]
    split
    · exact hmembers _
    · rfl
  · rw [symbol_modifySymbol] at he
    split at he
    · exact hstatics _ e he
    · exact .inl he

/-- A change of a scope may put into its table only what is no member. -/
theorem modifyScope (h : s.MembersApart) {f : Scope → Scope}
    (hf : ∀ sc t, (f sc).table = .own t → ∀ e ∈ t.entries,
      (∃ old, sc.table = .own old ∧ e ∈ old.entries) ∨ ∀ owner, ¬ s.MemberOf owner e.2)
    (id : ScopeId) : (s.modifyScope id f).MembersApart := by
  refine h.change (fun _ => rfl) (fun other t ht e he => ?_) fun _ _ he => .inl he
  rw [scope_modifyScope] at ht
  split at ht
  · exact hf _ t ht e he
  · exact .inl ⟨t, ht, he⟩

/-- A change of what a scope exposes. -/
theorem modifyExports (h : s.MembersApart) {f : Scope → Scope} (hf : ∀ sc, (f sc).table = sc.table)
    (id : ScopeId) : (s.modifyScope id f).MembersApart :=
  h.modifyScope (fun sc t ht _ he => .inl ⟨t, hf sc ▸ ht, he⟩) id

/-- Attaching a declaration puts nothing into tables. -/
theorem attach (h : s.MembersApart) (x : SymbolId) (d : DeclarationId) :
    (s.attach x d).MembersApart := by
  have hmarked : (s.modifyDeclaration d fun decl => { decl with symbol := some x }).MembersApart :=
    h.change (fun _ => rfl) (fun _ t ht _ he => .inl ⟨t, ht, he⟩) fun _ _ he => .inl he
  unfold Store.attach
  refine hmarked.modifySymbol ?_ ?_ x
  · exact fun _ => rfl
  · exact fun _ _ he => .inl he

/-- A symbol that is no member may be put into a scope. -/
theorem putSymbol (h : s.MembersApart) (scope : ScopeId) (name : String)
    (hx : ∀ owner, ¬ s.MemberOf owner x) : (s.putSymbol scope name x).MembersApart := by
  unfold Store.putSymbol
  split
  -- A scope has a table of its own or shares that of the exports of a symbol.
  · refine h.modifyScope (fun sc t ht e he => ?_) scope
    split at ht
    · rename_i old hold
      rw [← ScopeTable.own.inj ht] at he
      rcases Table.mem_entries_put he with rfl | he
      · exact .inr hx
      · exact .inl ⟨old, hold, he⟩
    · exact .inl ⟨t, ht, he⟩
  · refine h.modifySymbol ?_ ?_ _
    · exact fun _ => rfl
    · intro o e he
      rcases Table.mem_entries_put he with rfl | he
      · exact .inr hx
      · exact .inl he

/-- A symbol that is no member may be put among statics. -/
theorem putStatic (h : s.MembersApart) (owner : SymbolId) (name : String)
    (hx : ∀ o, ¬ s.MemberOf o x) : (s.putMember owner true name x).MembersApart := by
  refine h.modifySymbol ?_ ?_ owner
  · exact fun _ => rfl
  · intro o e he
    rcases Table.mem_entries_put he with rfl | he
    · exact .inr hx
    · exact .inl he

/-- A new member is known nowhere else yet. -/
theorem addMember (h : s.MembersApart) (hlinked : s.Linked) (owner : SymbolId) (name other : String)
    (parent : Option SymbolId) :
    ((s.addSymbol { name := other, parent }).2.putMember owner false name
      ⟨s.symbols.size⟩).MembersApart := by
  have hadded := h.addSymbol other parent
  let made := (s.addSymbol { name := other, parent }).2
  have hlinkedMade : made.Linked := hlinked.addSymbol other parent
  -- Linked tables lead to symbols under their own names, and the new symbol stands under none yet.
  have hnew : ∀ k (e : SymbolId), made.StandsUnder k e → e ≠ ⟨s.symbols.size⟩ := by
    rintro k e hstands rfl
    refine hstands.2 ?_
    rw [symbol_addSymbol, if_pos rfl]
  -- Only one member is new.
  have hmember : ∀ o m, (made.putMember owner false name ⟨s.symbols.size⟩).MemberOf o m →
      made.MemberOf o m ∨ m = ⟨s.symbols.size⟩ := by
    rintro o m ⟨k, hm⟩
    rw [Store.putMember, symbol_modifySymbol] at hm
    split at hm
    · rcases Table.mem_entries_put hm with heq | hm
      · exact .inr (congrArg Prod.snd heq)
      · exact .inl ⟨k, hm⟩
    · exact .inl ⟨k, hm⟩
  refine ⟨fun id t ht e he o hm => ?_, fun x e he o hm => ?_, fun x => ?_⟩
  · rcases hmember o _ hm with hm | hm
    · exact hadded.own id t ht e he o hm
    · exact hnew e.1 e.2 (hlinkedMade.own id t ht e he) hm
  · have he : e ∈ (made.symbol x).statics.entries := by
      rw [Store.putMember, symbol_modifySymbol] at he
      split at he <;> exact he
    rcases hmember o _ hm with hm | hm
    · exact hadded.statics x e he o hm
    · exact hnew e.1 e.2 ((hlinkedMade.symbol x).statics e he) hm
  · rw [Store.putMember, symbol_modifySymbol]
    split
    · exact Table.nodup_keys_put (hadded.keys_nodup x) _ _
    · exact hadded.keys_nodup x

end MembersApart

end Store

/-! ## Steps of binding -/

namespace Bind

open Store

variable {φ : Node → Prop} {p q : Progress} {owner : SymbolId} {st : Store}

/-- A symbol that is added is no member at first. -/
theorem not_memberOf_addSymbol (hlinked : st.Linked) (name : String) (parent : Option SymbolId)
    (owner : SymbolId) : ¬ (st.addSymbol { name, parent }).2.MemberOf owner ⟨st.symbols.size⟩ := by
  rw [(KeepsMembers.addSymbol hlinked name parent).memberOf_iff]
  exact hlinked.not_memberOf_new owner

/-- Attaching a declaration in a scope leaves members apart. -/
theorem attachIn_membersApart (hlinked : p.store.Linked) (h : p.store.MembersApart)
    (scope : ScopeId) (name : String) (d : DeclarationId) :
    ((attachIn scope name d).run p).2.store.MembersApart := by
  rw [attachIn_store]
  split
  · exact h.attach _ d
  · exact ((h.addSymbol name none).putSymbol scope name
      (not_memberOf_addSymbol hlinked name none)).attach _ d

/-- What is attached in a scope is attached to no member. -/
theorem attachIn_keepsMembers (hlinked : p.store.Linked) (h : p.store.MembersApart)
    (scope : ScopeId) (name : String) (d : DeclarationId) :
    KeepsMembers owner p.store ((attachIn scope name d).run p).2.store := by
  rw [attachIn_store]
  split
  -- A name that is known leads to no member; a name that is not gets a new symbol first.
  · rename_i x hfind
    exact .attach (h.not_memberOf_symbolsOf (Table.mem_entries_of_find? hfind) owner) d
  · have hadded : KeepsMembers owner p.store (p.store.addSymbol { name }).2 :=
      .addSymbol hlinked name none
    have hput : KeepsMembers owner (p.store.addSymbol { name }).2
        ((p.store.addSymbol { name }).2.putSymbol scope name ⟨p.store.symbols.size⟩) :=
      .putSymbol _ _ _ _
    refine (hadded.trans hput).trans (.attach ?_ d)
    rw [hput.memberOf_iff]
    exact not_memberOf_addSymbol hlinked name none owner

/-- A member that is declared gets a symbol that nothing else leads to. -/
theorem declareMember_membersApart (hlinked : p.store.Linked) (h : p.store.MembersApart)
    (owner : SymbolId) (d : Declaration) :
    ((declareMember owner d).run p).2.store.MembersApart := by
  have hlinked := hlinked.addDeclaration d
  have h := h.addDeclaration d
  rw [declareMember_store]
  dsimp only
  split
  · exact h.attach _ _
  -- The member is new on one side of the class or the other.
  · refine MembersApart.attach ?_ _ _
    cases d.isStatic with
    | true =>
      exact (h.addSymbol d.name (some owner)).putStatic owner d.name
        (not_memberOf_addSymbol hlinked d.name (some owner))
    | false => exact h.addMember hlinked owner d.name d.name (some owner)

/-- A member that is declared is no member of another symbol, and a static member is none at all. -/
theorem declareMember_keepsMembers (hlinked : p.store.Linked) (h : p.store.MembersApart)
    {other : SymbolId} {d : Declaration} (hother : other = owner → d.isStatic = true) :
    KeepsMembers owner p.store ((declareMember other d).run p).2.store := by
  have hlinked := hlinked.addDeclaration d
  have h := h.addDeclaration d
  have hrecorded : KeepsMembers owner p.store (p.store.addDeclaration d).2 :=
    .of_symbol_eq fun _ => rfl
  refine hrecorded.trans ?_
  rw [declareMember_store]
  dsimp only
  split
  · rename_i x hfind
    -- A name that is known already: what matters is that its symbol is no member of `owner`.
    refine .attach (fun hx => ?_) _
    have hmem := Table.mem_entries_of_find? hfind
    split at hmem
    · exact h.statics other _ hmem owner hx
    next hstatic =>
      -- The symbol has one parent.
      obtain ⟨-, -, hparent⟩ := hx.standsUnder hlinked
      have hmember := ((hlinked.symbol other).members _ hmem).2
      exact hstatic (hother (Option.some.inj (hmember.symm.trans hparent)))
  · have hadded : KeepsMembers owner (p.store.addDeclaration d).2
        -- A new name: its symbol is put on the side of the declaring symbol, and attached last.
        ((p.store.addDeclaration d).2.addSymbol { name := d.name, parent := some other }).2 :=
      .addSymbol hlinked d.name (some other)
    have hput := KeepsMembers.putMember hother ((p.store.addDeclaration d).2.addSymbol
      { name := d.name, parent := some other }).2 d.name ⟨p.store.symbols.size⟩
    refine (hadded.trans hput).trans (.attach ?_ _)
    rw [hput.memberOf_iff]
    exact not_memberOf_addSymbol hlinked d.name (some other) owner

/-- The store after a symbol has been introduced that no scope knows. -/
theorem introduce_store (p : Progress) (d : Declaration) : ((introduce d).run p).2.store =
    ((p.store.addDeclaration d).2.addSymbol { name := d.name }).2.attach ⟨p.store.symbols.size⟩
      ⟨p.store.declarations.size⟩ :=
  rfl

/-- The store after a symbol has been introduced for the inside of its construct. -/
theorem introduceWithin_store (p : Progress) (scope : ScopeId) (d : Declaration) :
    ((introduceWithin scope d).run p).2.store =
      (((introduce d).run p).2.store.addScope
        { kind := .class, node := d.node, parent := some scope }).2.putSymbol
          ⟨p.store.scopes.size⟩ d.name ⟨p.store.symbols.size⟩ :=
  rfl

/-- A symbol that no scope knows leaves members apart. -/
theorem introduce_membersApart (h : p.store.MembersApart) (d : Declaration) :
    ((introduce d).run p).2.store.MembersApart := by
  rw [introduce_store]
  exact ((h.addDeclaration d).addSymbol d.name none).attach _ _

/-- What is introduced gets a symbol that is no member. -/
theorem introduce_keepsMembers (hlinked : p.store.Linked) (d : Declaration) :
    KeepsMembers owner p.store ((introduce d).run p).2.store := by
  have hlinked := hlinked.addDeclaration d
  have hrecorded : KeepsMembers owner p.store (p.store.addDeclaration d).2 :=
    .of_symbol_eq fun _ => rfl
  rw [introduce_store]
  exact (hrecorded.trans (.addSymbol hlinked d.name none)).trans
    (.attach (not_memberOf_addSymbol hlinked d.name none owner) _)

/-- Declaring is recording and attaching. -/
theorem declare_run (p : Progress) (scope : ScopeId) (d : Declaration) :
    ((declare scope d).run p).2 =
      ((attachIn scope d.name ⟨p.store.declarations.size⟩).run ((record d).run p).2).2 :=
  rfl

/-- Declaring in a scope of its own is recording, opening the scope and attaching there. -/
theorem declareWithin_run (p : Progress) (scope : ScopeId) (d : Declaration) :
    ((declareWithin scope d).run p).2 =
      ((attachIn ⟨p.store.scopes.size⟩ d.name ⟨p.store.declarations.size⟩).run
        ((openScope .function d.node scope).run ((record d).run p).2).2).2 :=
  rfl

/-- Every step of binding leaves members apart. -/
theorem Step.membersApart (hstep : Step φ p q) (hlinked : p.store.Linked)
    (h : p.store.MembersApart) : q.store.MembersApart := by
  -- Declaring in scopes uses that members are apart, as no entry of a scope leads to a member; only
  -- `member` adds one.
  cases hstep with
  | scope kind node parent => exact h.addScope kind node (some parent)
  | declare scope d =>
    rw [declare_run]
    exact attachIn_membersApart (hlinked.addDeclaration d) (h.addDeclaration d) scope d.name _
  | within scope d =>
    rw [declareWithin_run]
    exact attachIn_membersApart
      ((hlinked.addDeclaration d).addScope .function d.node (some scope))
      ((h.addDeclaration d).addScope .function d.node (some scope)) _ d.name _
  | introduced d => exact introduce_membersApart h d
  | introducedWithin scope d =>
    rw [introduceWithin_store]
    -- The symbol of a named class expression is new, so nothing has it as a member yet.
    refine ((introduce_membersApart h d).addScope .class d.node (some scope)).putSymbol _ _
      fun owner hm => ?_
    have hkept : KeepsMembers owner p.store (((introduce d).run p).2.store.addScope
        { kind := .class, node := d.node, parent := some scope }).2 :=
      (introduce_keepsMembers hlinked d).trans (.of_symbol_eq fun _ => rfl)
    exact hlinked.not_memberOf_new owner (hkept.memberOf_iff.mp hm)
  | unattached d => exact h.addDeclaration d
  | member owner d => exact declareMember_membersApart hlinked h owner d
  | constructs owner d =>
    refine (h.addDeclaration { d with symbol := some owner }).modifySymbol ?_ ?_ owner
    · exact fun _ => rfl
    · exact fun _ _ he => .inl he
  | calls owner d =>
    refine (h.addDeclaration { d with symbol := some owner }).modifySymbol ?_ ?_ owner
    · exact fun _ => rfl
    · exact fun _ _ he => .inl he
  -- Type parameters are names without symbols.
  | typeParameter owner name =>
    refine h.modifySymbol (fun o => ?_) (fun o e he => .inl ?_) owner
    · split <;> rfl
    · split at he <;> exact he
  | exposed module =>
    refine h.modifyExports ?_ module
    exact fun _ => rfl
  | star module =>
    refine h.modifyExports ?_ module
    exact fun _ => rfl
  | ambient module =>
    refine h.modifyExports ?_ module
    exact fun _ => rfl
  | block module =>
    refine h.modifyScope ?_ module
    exact fun _ _ ht => nomatch ht
  | quoted => exact h

/-- Declaring a name in a scope leaves members alone. -/
theorem declare_keepsMembers (hlinked : p.store.Linked) (h : p.store.MembersApart)
    (scope : ScopeId) (d : Declaration) :
    KeepsMembers owner p.store ((declare scope d).run p).2.store := by
  have hrecorded : KeepsMembers owner p.store ((record d).run p).2.store :=
    .of_symbol_eq fun _ => rfl
  rw [declare_run]
  exact hrecorded.trans
    (attachIn_keepsMembers (hlinked.addDeclaration d) (h.addDeclaration d) scope d.name _)

/-- A signature of a symbol itself is no member. -/
theorem addConstructSignature_keepsMembers (p : Progress) (other : SymbolId) (d : Declaration) :
    KeepsMembers owner p.store ((addConstructSignature other d).run p).2.store := by
  have hrecorded : KeepsMembers owner p.store
      (p.store.addDeclaration { d with symbol := some other }).2 := .of_symbol_eq fun _ => rfl
  refine hrecorded.trans (.modifySymbol ?_ ?_ ?_ _ other) <;> exact fun _ => rfl

/-- Nor is a call signature. -/
theorem addCallSignature_keepsMembers (p : Progress) (other : SymbolId) (d : Declaration) :
    KeepsMembers owner p.store ((addCallSignature other d).run p).2.store := by
  have hrecorded : KeepsMembers owner p.store
      (p.store.addDeclaration { d with symbol := some other }).2 := .of_symbol_eq fun _ => rfl
  refine hrecorded.trans (.modifySymbol ?_ ?_ ?_ _ other) <;> exact fun _ => rfl

/-- A type parameter of a symbol is no member. -/
theorem typeParameter_keepsMembers (s : Store) (other : SymbolId) (name : String) :
    KeepsMembers owner s (s.modifySymbol other fun o =>
      if o.typeParameters.contains name then o
      else { o with typeParameters := o.typeParameters ++ [name] }) := by
  refine .modifySymbol (fun o => ?_) (fun o => ?_) (fun o => ?_) _ other <;> split <;> rfl

/-- A step of binding leaves the members of a symbol alone, unless it declares one of them. -/
theorem Step.keepsMembers (hstep : Step φ p q) (hlinked : p.store.Linked)
    (h : p.store.MembersApart) (owner : SymbolId) : KeepsMembers owner p.store q.store ∨
      ∃ d, d.symbol = none ∧ d.isStatic = false ∧ q = ((declareMember owner d).run p).2 := by
  have hsame : ∀ {next : Store}, (∀ x, next.symbol x = p.store.symbol x) →
      KeepsMembers owner p.store next := .of_symbol_eq
  cases hstep with
  | scope kind node parent => exact .inl (hsame fun _ => rfl)
  | declare scope d => exact .inl (declare_keepsMembers hlinked h scope d)
  | within scope d =>
    -- Scopes that are opened on the way hold no members.
    rw [declareWithin_run]
    let opened := (openScope .function d.node scope).run ((record d).run p).2
    have hopened : KeepsMembers owner p.store opened.2.store := hsame fun _ => rfl
    exact .inl (hopened.trans (attachIn_keepsMembers
      ((hlinked.addDeclaration d).addScope .function d.node (some scope))
      ((h.addDeclaration d).addScope .function d.node (some scope)) _ d.name _))
  | introduced d => exact .inl (introduce_keepsMembers hlinked d)
  | introducedWithin scope d =>
    rw [introduceWithin_store]
    have hopened : KeepsMembers owner p.store (((introduce d).run p).2.store.addScope
        { kind := .class, node := d.node, parent := some scope }).2 :=
      (introduce_keepsMembers hlinked d).trans (.of_symbol_eq fun _ => rfl)
    exact .inl (hopened.trans (.putSymbol _ _ _ _))
  | unattached d => exact .inl (hsame fun _ => rfl)
  -- Only an instance member of `owner` itself is the second case.
  | member other d hd =>
    by_cases hother : other = owner → d.isStatic = true
    · exact .inl (declareMember_keepsMembers hlinked h hother)
    · obtain ⟨rfl, hstatic⟩ := Classical.not_imp.mp hother
      exact .inr ⟨d, hd, Bool.eq_false_iff.mpr hstatic, rfl⟩
  | constructs other d => exact .inl (addConstructSignature_keepsMembers p other d)
  | calls other d => exact .inl (addCallSignature_keepsMembers p other d)
  | typeParameter other name => exact .inl (typeParameter_keepsMembers p.store other name)
  | exposed => exact .inl (hsame fun _ => rfl)
  | star => exact .inl (hsame fun _ => rfl)
  | ambient => exact .inl (hsame fun _ => rfl)
  | block => exact .inl (hsame fun _ => rfl)
  | quoted => exact .inl (hsame fun _ => rfl)

/-- Any number of steps leaves members apart. -/
theorem Steps.membersApart (hsteps : Steps φ p q) (hlinked : p.store.Linked)
    (h : p.store.MembersApart) : q.store.MembersApart := by
  induction hsteps with
  | refl => exact h
  | tail hbefore hlast ih => exact hlast.membersApart (Steps.linked hbefore hlinked) ih

end Bind

/-- In the empty store there are no members at all. -/
theorem Store.membersApart_empty : ({} : Store).MembersApart where
  own _ _ ht _ he := absurd (ScopeTable.own.inj ht ▸ he) List.not_mem_nil
  statics _ _ he := absurd he List.not_mem_nil
  keys_nodup _ := List.nodup_nil

/-- Binding a file leaves members apart. -/
theorem bind_membersApart (file : Source) {base : Store} (hlinked : base.Linked)
    (h : base.MembersApart) : (bind file base).2.MembersApart := by
  rw [bind_eq]
  exact (opened_steps file base file.root.children).membersApart
    (hlinked.addScope .module file.root none) (h.addScope .module file.root none)

end ScriptGraph.Binding
