import ScriptGraph.Proofs.Inference.Signatures

/-!
# Which constructor a construction takes

A class that declares constructors is constructed by the first of their overloads. A class without
any is constructed by those of the nearest class that it extends, if the way up to that one is not
too long. Which classes a class extends is told by what is known in the end: whatever an inquiry has
found on the way to it is still found there.

- `FindsBefore`: what an inquiry finds on the way to some knowledge
- `Knowledge.constructorOwner?`: the class whose constructor makes the instances of a class
- `resolvedConstructSignature_takes`: the signature of a construction is that of this constructor
-/

namespace ScriptGraph.Inference

open Binding Syntax

variable {files : Source → Prop} {oracle : Oracle} {base last : Knowledge} {α β : Type}

/-! ## On the way to some knowledge -/

/-- What an inquiry finds from `base` on, if everything that it leads to is known in the end. -/
def FindsBefore (files : Source → Prop) (oracle : Oracle) (base last : Knowledge) (x : Inquiry α)
    (P : α → Prop) : Prop :=
  ∀ k, base.Later k → k.Sound files → ((x.perform oracle).run k).2.Later last →
    P ((x.perform oracle).run k).1

namespace FindsBefore

variable {P : α → Prop} {Q : β → Prop} {φ : α → Store → Prop} {χ : β → Store → Prop}

/-- A result is found before anything else is asked. -/
theorem pure {a : α} (h : P a) : FindsBefore files oracle base last (Pure.pure a) P :=
  fun _ _ _ _ => h

/-- Whatever is known, the answers are like this. -/
theorem of_yields {x : Inquiry α} (h : x.Yields P) : FindsBefore files oracle base last x P :=
  fun _ _ _ _ => h _ _

/-- A function of what is found. -/
theorem map {x : Inquiry β} {f : β → α}
    (h : FindsBefore files oracle base last x fun b => P (f b)) :
    FindsBefore files oracle base last (do return f (← x)) P := by
  intro k hk hsound hlast
  rw [Inquiry.run_bind] at hlast ⊢
  exact h k hk hsound hlast

/-- What lasts is known in the end. -/
theorem of_lasts {x : Inquiry α} (hx : Learns files True oracle base x φ)
    (hempty : base.inProgress = []) :
    FindsBefore files oracle base last x fun a => last.Knows oracle x a :=
  fun k hk hsound hlast next hnext =>
    (hx k hk hsound).2.2.2 ⟨trivial, hempty⟩ next (hlast.trans hnext)

/-- What an inquiry finds is like this if it is so from then on. -/
theorem of_learns {x : Inquiry α} (hx : Learns files False oracle base x φ)
    (h : ∀ a now, base.Later now → now.Later last → φ a now.store → P a) :
    FindsBefore files oracle base last x P :=
  fun k hk hsound hlast =>
    let ⟨hlater, _, hφ, _⟩ := hx k hk hsound
    h _ _ (hk.trans hlater) hlast hφ

/-- Two inquiries one after the other. -/
theorem bind {x : Inquiry β} {f : β → Inquiry α} (hx : Learns files False oracle base x χ)
    (h : FindsBefore files oracle base last x Q)
    (hf : ∀ b now, base.Later now → χ b now.store → Learns files False oracle now (f b) φ)
    (hfound : ∀ b now, base.Later now → now.Later last → χ b now.store → Q b →
      FindsBefore files oracle now last (f b) P) :
    FindsBefore files oracle base last (x >>= f) P := by
  intro k hk hsound hlast
  rw [Inquiry.run_bind] at hlast ⊢
  obtain ⟨hlater, hsound', hχ, -⟩ := hx k hk hsound
  have hbase := Knowledge.Later.trans hk hlater
  obtain ⟨hlater', -⟩ := hf _ _ hbase hχ _ (.refl _) hsound'
  -- What the first part leads to is known in the end because the second part keeps it.
  have hknown := hlater'.trans hlast
  exact hfound _ _ hbase hknown hχ (h k hk hsound hknown) _ (.refl _) hsound' hlast

/-- An inquiry that goes by the store. -/
theorem store {f : Store → Inquiry α}
    (hx : Learns files False oracle base (Inference.store >>= f) φ)
    (h : ∀ now : Knowledge, base.Later now → now.Sound files → now.Later last →
      FindsBefore files oracle now last (f now.store) P) :
    FindsBefore files oracle base last (Inference.store >>= f) P := by
  intro k hk hsound hlast
  obtain ⟨hlater, -⟩ := hx k hk hsound
  exact h k hk hsound (hlater.trans hlast) k (.refl k) hsound hlast

end FindsBefore

/-! ## The way up from a class -/

/-- The constructor that constructions take of those that a symbol has. -/
def takenConstructor? (st : Store) (c : SymbolId) : Option DeclarationId :=
  (overloads st (st.symbol c).constructSignatures).head?

/-- A class and those that it extends, as many as are searched for a constructor. -/
def lineage (up : SymbolId → Option SymbolId) : Nat → SymbolId → List SymbolId
  | 0, _ => []
  | steps + 1, c => c :: (up c).elim [] (lineage up steps)

namespace Knowledge

/-- What a class extends, as far as is known. -/
def baseOf (oracle : Oracle) (k : Knowledge) (c : SymbolId) : Option SymbolId :=
  (firstObject? (((basesOf c).perform oracle).run k).1).map Entity.id

/-- The class whose constructor makes the instances of a class: the first one on the way up that
has a constructor. -/
def constructorOwner? (oracle : Oracle) (k : Knowledge) (c : SymbolId) : Option SymbolId :=
  (lineage (k.baseOf oracle) constructorSteps c).find? (hasConstructor k.store)

end Knowledge

/-- The constructors of a class, if there is one. -/
def constructorsWith (st : Store) (owner : Option SymbolId) : List DeclarationId :=
  owner.elim [] fun c => (st.symbol c).constructSignatures

/-! ## The signatures of constructors -/

/-- Signatures of which the first one is that of the constructor that is taken; none if no class has
a constructor. -/
def TakesFrom (st : Store) (owner : Option SymbolId) (signatures : List Signature) : Prop :=
  match owner with
  | none => signatures = []
  | some b => ∃ s ∈ signatures.head?, ∃ id ∈ takenConstructor? st b,
      DeclaredAt st (st.declaration id).key s

/-- Only the first signature and what it is declared by matter. -/
theorem TakesFrom.of_head? {st : Store} {owner : Option SymbolId} {first later : List Signature}
    (h : TakesFrom st owner first)
    (hsame : later.head?.map Signature.outline = first.head?.map Signature.outline) :
    TakesFrom st owner later := by
  cases owner with
  | none =>
    obtain rfl : first = [] := h
    exact List.head?_eq_none_iff.mp (Option.map_eq_none_iff.mp hsame)
  | some b =>
    obtain ⟨s, hs, id, hid, hdeclared⟩ := h
    rw [Option.mem_def.mp hs] at hsame
    obtain ⟨t, ht, hsame⟩ := Option.map_eq_some_iff.mp hsame
    exact ⟨t, ht, id, hid, hdeclared.of_outline hsame⟩

/-- A declaration is a constructor of a class. -/
structure IsConstructor (st : Store) (c : SymbolId) (d : DeclarationId) : Prop where
  kind_eq : (st.declaration d).kind = .constructor
  symbol_eq : (st.declaration d).symbol = some c

/-- What is declared at the construct that constructions take is a constructor of the class, and not
a member of an interface that is merged with it. -/
def TakesConstructor (st : Store) (c : SymbolId) : Prop :=
  ∀ id ∈ takenConstructor? st c, ∀ d : DeclarationId, d.index < st.declarations.size →
    (st.declaration d).key = (st.declaration id).key → IsConstructor st c d

/-- The signature that is taken belongs to the constructor that is taken. -/
theorem TakesFrom.exists_declaration {st : Store} {b : SymbolId} {found : Option Signature}
    (h : TakesFrom st (some b) found.toList) :
    ∃ d, found.bind (·.declaration) = some d ∧ d.index < st.declarations.size ∧
      (TakesConstructor st b → IsConstructor st b d) := by
  obtain ⟨s, hs, id, hid, d, hd, hlt, hkey, -⟩ := h
  rw [Option.head?_toList] at hs
  exact ⟨d, by rw [Option.mem_def.mp hs, Option.bind_some, hd], hlt, fun htaken =>
    htaken id hid d hlt hkey⟩

/-- A symbol has overloads if it has declarations. -/
theorem overloads_isEmpty (st : Store) (ids : List DeclarationId) :
    (overloads st ids).isEmpty = ids.isEmpty := by
  unfold overloads
  dsimp only
  split
  · rfl
  · rename_i hboth
    rw [Bool.not_eq_true, Bool.or_eq_false_iff, List.partition_eq_filter_filter] at hboth
    rw [List.partition_eq_filter_filter, hboth.2]
    -- There are declarations without a body, so there are declarations.
    cases ids with
    | nil => exact nomatch hboth.2
    | cons => rfl

/-- Of the signatures of all overloads, the first one is that of the constructor that is taken. -/
theorem SignaturesFor.takesFrom {st : Store} {owner : Option SymbolId} {signatures : List Signature}
    (h : SignaturesFor st (constructorsWith st owner) signatures)
    (howner : ∀ c, owner = some c → hasConstructor st c = true) :
    TakesFrom st owner signatures := by
  unfold SignaturesFor at h
  cases owner with
  | none =>
    have hnone : overloads st (constructorsWith st none) = [] := rfl
    rw [hnone] at h
    exact List.forall₂_nil_left_iff.mp h
  | some c =>
    -- A class that has a constructor has an overload, so the list is not empty.
    have hempty : (overloads st (constructorsWith st (some c))).isEmpty = false :=
      (overloads_isEmpty st _).trans (Bool.not_eq_true' _ |>.mp (howner c rfl))
    cases hfirst : overloads st (constructorsWith st (some c)) with
    | nil =>
      rw [hfirst] at hempty
      exact nomatch hempty
    | cons id rest =>
      rw [hfirst] at h
      cases h with
      | cons hs _ => exact ⟨_, rfl, id, congrArg List.head? hfirst, hs⟩

section Oracles

variable (horacle : oracle.Learns files)
include horacle

/-- The constructors that are found on the way up are those of the first class that has one. They
have the signatures of their overloads, also where they are inherited. -/
theorem constructorsFrom_declares {constructed : Entity} (steps : Nat) {current : SymbolId}
    (hc : constructed.id.index < base.store.symbols.size)
    (hcurrent : current.index < base.store.symbols.size) (hempty : base.inProgress = []) :
    FindsBefore files oracle base last (constructorsFrom constructed steps current)
      (SignaturesFor last.store (constructorsWith last.store
        ((lineage (last.baseOf oracle) steps current).find? (hasConstructor last.store)))) := by
  -- The search goes on in the class that the current one extends.
  induction steps generalizing base current with
  | zero => exact .pure .nil
  | succ steps ih =>
    have hsearch : Learns files False oracle base
        (constructorsFrom constructed (steps + 1) current) _ :=
      (constructorsFrom_repeats horacle (steps + 1) hc hcurrent).1
    rw [constructorsFrom_succ] at hsearch ⊢
    refine .store hsearch fun now hnow hsound hlast => ?_
    have hc := hnow.symbol_lt hc
    have hcurrent := hnow.symbol_lt hcurrent
    have hempty := hnow.inProgress_eq.trans hempty
    -- Symbols have not changed since, so what is found now is what is found in the end.
    have hsame := hlast.workspace.store.symbol_eq current hcurrent
    have hhas : hasConstructor last.store current = hasConstructor now.store current := by
      rw [hasConstructor, hsame, hasConstructor]
    rw [lineage]
    split
    -- This class has constructors of its own, so the search ends here.
    · rename_i hown
      have hids := (hsound.workspace.store.symbol current).constructSignatures
      have hlearns : Learns files False oracle now
          (signaturesOf (now.store.symbol current).constructSignatures) _ :=
        signaturesOf_declares horacle hids
      rw [List.find?_cons_of_pos (hhas.trans hown), constructorsWith, Option.elim, hsame]
      refine .bind hlearns (.of_learns hlearns fun signatures next hnext hend hfound =>
          hfound.2.later hend fun d hd =>
            hnext.declaration_lt (hids d hd))
        (fun _ _ hnext hs => (constructorsOf_repeats (hnext.symbol_lt hc) hs.1).1)
        fun signatures _ _ _ _ hfound => .of_yields ?_
      exact .imp (constructorsOf_yields constructed current signatures) fun _ => hfound.of_outlines
    · rename_i hnone
      rw [List.find?_cons_of_neg (by rwa [hhas])]
      refine .bind (φ := AllWithin files) (basesOf_learns horacle current)
        (.of_lasts (basesOf_learns horacle current) hempty) (fun types next hnext htypes => ?_)
        fun types next hnext _ htypes hknown => ?_
      · split
        · exact (constructorsFrom_repeats horacle steps
            (hnext.symbol_lt hc) (firstObject?_lt htypes ‹_›)).1
        · exact .pure fun _ _ _ hs => absurd hs List.not_mem_nil
      -- What the class extends is known in the end.
      · rw [Knowledge.baseOf, hknown.eq]
        split
        · rename_i hfirst
          rw [hfirst]
          exact ih (hnext.symbol_lt hc)
            (firstObject?_lt htypes hfirst) (hnext.inProgress_eq.trans hempty)
        · rename_i hfirst
          rw [hfirst]
          exact .pure .nil

omit horacle in
/-- What is a class in the end is found to be one. -/
theorem isClass_holds {c : SymbolId} (hc : c.index < base.store.symbols.size)
    (hclass : last.store.hasKind (· == .class) c = true) :
    FindsBefore files oracle base last (isClass c) (· = true) :=
  .store (isClass_learns hc) fun now hnow hsound hlast => .pure <| by
    rwa [← hlast.workspace.store.hasKind_eq hsound.workspace.store (hnow.symbol_lt hc)]

/-- The static side of a class is constructed by the constructors of the nearest class that has
some. -/
theorem constructSignatures_declares {e : Entity} (he : e.id.index < base.store.symbols.size)
    (hclass : last.store.hasKind (· == .class) e.id = true) (hempty : base.inProgress = []) :
    FindsBefore files oracle base last (constructSignatures (.static e))
      (SignaturesFor last.store
        (constructorsWith last.store (last.constructorOwner? oracle e.id))) := by
  refine .bind (φ := AllWithin files) (isClass_learns he) (isClass_holds he hclass)
    (fun is now hnow _ => ?_)
    fun is now hnow _ _ his => ?_
  -- In either case the class is still there when its constructors are looked up.
  all_goals have he := Knowledge.Later.symbol_lt hnow he
  · split
    · exact (constructorsFrom_repeats horacle _ he he).1
    · exact .pure fun _ _ => nofun
  · rw [if_pos his]
    exact constructorsFrom_declares horacle _ he he (hnow.inProgress_eq.trans hempty)

/-- The signature of a construction of a class is that of the constructor that is taken. -/
theorem resolvedConstructSignature_takes {construction constructed : Node}
    (hn : construction.From files)
    (hconstructed : construction.child? .constructed = some constructed) {e : Entity}
    (htype : (((typeOf constructed).perform oracle).run last).1 = .static e)
    (hclass : last.store.hasKind (· == .class) e.id = true) (hempty : base.inProgress = []) :
    FindsBefore files oracle base last (resolvedConstructSignature construction)
      fun found => TakesFrom last.store (last.constructorOwner? oracle e.id) found.toList := by
  have hof : ∀ again : Prop, Learns files again oracle base (typeOf constructed) _ := fun _ =>
    typeOf_learns horacle (hn.child? hconstructed)
  rw [resolvedConstructSignature_eq hconstructed]
  refine .bind (φ := FoundWithin files) (hof False) (.of_lasts (hof True) hempty)
    (fun t now hnow ht => .bind (constructSignatures_repeats horacle ht).1
      fun _ _ _ hs => firstSignature_learns horacle hn hs) fun t now hnow _ ht hknown => ?_
  -- The type that is found is the one that is known in the end.
  obtain rfl : t = .static e := hknown.eq.symm.trans htype
  cases ht with
  | static he =>
    refine .bind (constructSignatures_repeats horacle (.static he)).1
      (constructSignatures_declares horacle he hclass (hnow.inProgress_eq.trans hempty))
      (fun _ _ _ hs => firstSignature_learns horacle hn hs) fun signatures _ _ _ _ hfound => ?_
    have htakes := hfound.takesFrom fun c hc => List.find?_some hc
    exact .of_yields (.imp (firstSignature_yields construction signatures) fun found hsame =>
      htakes.of_head? (by rw [Option.head?_toList, hsame]))

end Oracles

end ScriptGraph.Inference
