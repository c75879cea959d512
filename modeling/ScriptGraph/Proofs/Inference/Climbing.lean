import ScriptGraph.Proofs.Inference.Inheritance

/-!
# How far look-ups climb

A member of an instance, a static member and a constructor are each looked up in the classes that a
class extends, up to a limit. The three limits differ: what only one class declares is found from a
class that is at most eight, nine or seven steps below that one.

- `Knowledge.ancestor?`: the class that is a number of steps above a class
- `memberFrom_climbs`, `staticMember_climbs`, `find?_lineage`: what is found within a number of
  steps
- `lookups_climb`: how far each of the look-ups climbs
-/

namespace ScriptGraph.Inference

open Binding Syntax

variable {files : Source → Prop} {oracle : Oracle} {base last k : Knowledge}

/-! ## The classes above a class -/

/-- A symbol is that of a class, and not of an enumeration as well. -/
structure IsClass (st : Store) (c : SymbolId) : Prop where
  class_kind : st.hasKind (· == .class) c = true
  no_enum : st.hasKind (· == .enum) c = false

instance (st : Store) (c : SymbolId) : Decidable (IsClass st c) :=
  decidable_of_iff (st.hasKind (· == .class) c = true ∧ st.hasKind (· == .enum) c = false)
    ⟨fun h => ⟨h.1, h.2⟩, fun h => ⟨h.class_kind, h.no_enum⟩⟩

namespace Knowledge

/-- What a class extends, if it extends one class or interface alone. -/
def onlyBase? (oracle : Oracle) (k : Knowledge) (c : SymbolId) : Option Entity :=
  match k.extended oracle c with
  | [.object b _] => some b
  | _ => none

/-- What is a number of steps above a class, each of which extends the next one alone. -/
def ancestor? (oracle : Oracle) (k : Knowledge) : Nat → Entity → Option Entity
  | 0, e => some e
  | n + 1, e => (k.onlyBase? oracle e.id).bind (k.ancestor? oracle n)

/-- A property of everything that is fewer steps than a number above a class. -/
def EachBelow (oracle : Oracle) (k : Knowledge) (n : Nat) (e : Entity)
    (p : SymbolId → Prop) : Prop :=
  ∀ i < n, ∀ b ∈ k.ancestor? oracle i e, p b.id

/-- What is a number of steps above a class is the first on the way up that has a property. -/
structure IsFirst (oracle : Oracle) (k : Knowledge) (n : Nat) (e a : Entity) (p : SymbolId → Bool) :
    Prop where
  holds : p a.id = true
  below : k.EachBelow oracle n e fun c => p c = false

variable {n : Nat} {e a b : Entity} {p q : SymbolId → Prop} {c : SymbolId}

instance [DecidablePred p] : Decidable (k.EachBelow oracle n e p) :=
  inferInstanceAs (Decidable (∀ i < n, ∀ b ∈ k.ancestor? oracle i e, p b.id))

instance (p : SymbolId → Bool) : Decidable (k.IsFirst oracle n e a p) :=
  decidable_of_iff (p a.id = true ∧ k.EachBelow oracle n e fun c => p c = false)
    ⟨fun h => ⟨h.1, h.2⟩, fun h => ⟨h.holds, h.below⟩⟩

/-- A class with a single base extends an instance of it. -/
theorem eq_of_onlyBase? (h : k.onlyBase? oracle c = some b) :
    ∃ given, k.extended oracle c = [.object b given] := by
  unfold onlyBase? at h
  split at h
  · rename_i hextended
    rw [hextended, Option.some.inj h]
    exact ⟨_, rfl⟩
  · exact nomatch h

/-- A single base is the base that is climbed to. -/
theorem baseOf_of_onlyBase? (h : k.onlyBase? oracle c = some b) :
    k.baseOf oracle c = some b.id := by
  obtain ⟨given, hextended⟩ := eq_of_onlyBase? h
  show (firstObject? (k.extended oracle c)).map Entity.id = some b.id
  rw [hextended]
  rfl

/-- The first step of the way up. -/
theorem exists_onlyBase? (h : k.ancestor? oracle (n + 1) e = some a) :
    ∃ b, k.onlyBase? oracle e.id = some b ∧ k.ancestor? oracle n b = some a :=
  Option.bind_eq_some_iff.mp h

/-- What holds of each class on the way holds of the first. -/
theorem EachBelow.self (h : k.EachBelow oracle (n + 1) e p) : p e.id :=
  h 0 (Nat.succ_pos n) e rfl

/-- It holds of the classes above the first. -/
theorem EachBelow.above (h : k.EachBelow oracle (n + 1) e p)
    (hb : k.onlyBase? oracle e.id = some b) : k.EachBelow oracle n b p :=
  fun i hi c hc => h (i + 1) (Nat.succ_lt_succ hi) c (Option.bind_eq_some_iff.mpr ⟨b, hb, hc⟩)

/-- What follows from it holds of each class too. -/
theorem EachBelow.imp (h : k.EachBelow oracle n e p) (hpq : ∀ c, p c → q c) :
    k.EachBelow oracle n e q :=
  fun i hi b hb => hpq _ (h i hi b hb)

/-- It holds on a shorter way. -/
theorem EachBelow.mono {m : Nat} (h : k.EachBelow oracle n e p) (hm : m ≤ n) :
    k.EachBelow oracle m e p :=
  fun i hi => h i (Nat.lt_of_lt_of_le hi hm)

end Knowledge

/-- The way up leads to the first class that has a constructor, if it is long enough. -/
theorem find?_lineage {p : SymbolId → Bool} (n steps : Nat) {e a : Entity}
    (hup : last.ancestor? oracle n e = some a) (hown : p a.id = true)
    (hbelow : last.EachBelow oracle n e fun c => p c = false) :
    (lineage (last.baseOf oracle) steps e.id).find? p = if n < steps then some a.id else none := by
  -- Both the way up and the search go on from the class above.
  induction n generalizing e steps with
  | zero =>
    obtain rfl : e = a := Option.some.inj hup
    cases steps with
    | zero => rfl
    | succ steps => rw [lineage, List.find?_cons_of_pos hown, if_pos (Nat.succ_pos steps)]
  | succ n ih =>
    obtain ⟨b, hb, hup⟩ := Knowledge.exists_onlyBase? hup
    cases steps with
    | zero => rfl
    | succ steps =>
      have hnone : ¬ p e.id = true := Bool.eq_false_iff.mp hbelow.self
      rw [lineage, List.find?_cons_of_neg hnone, Knowledge.baseOf_of_onlyBase? hb, Option.elim,
        ih steps hup (hbelow.above hb)]
      simp only [Nat.add_lt_add_iff_right]

/-- The base of a class that extends one alone is all that a look-up among its bases goes
through. -/
theorem firstSymbol_onlyBase {find : Ty → Inquiry (Option SymbolId)} {types : List Ty} {b : Entity}
    {c : SymbolId} {P : Option SymbolId → Prop} (hextended : last.extended oracle c = types)
    (hb : last.onlyBase? oracle c = some b) (htypes : ∀ t ∈ types, t.Within files base.store)
    (hlearns : ∀ now, base.Later now → ∀ t ∈ types, Learns files False oracle now (find t) Found)
    (h : b.id.index < base.store.symbols.size → ∀ given,
      FindsBefore files oracle base last (find (.object b given)) P) :
    FindsBefore files oracle base last (firstSymbol find types) P := by
  obtain ⟨given, hgiven⟩ := Knowledge.eq_of_onlyBase? hb
  -- With a single base, whatever is found among the bases is found there.
  obtain rfl : types = [.object b given] := hextended.symm.trans hgiven
  have hlt : b.id.index < base.store.symbols.size := by
    cases htypes _ List.mem_cons_self with
    | object hlt => exact hlt
  refine .bind (φ := Found) (hlearns base (.refl base) _ List.mem_cons_self) (h hlt given)
    (fun found now _ hfound => ?_) fun found now _ _ _ hfound => ?_
  · split
    · exact .found hfound
    · exact .found (found_none _)
  · split
    · exact .pure hfound
    · exact .pure hfound

section Oracles

variable (horacle : oracle.Learns files)
include horacle

/-! ## Members of instances -/

/-- A member of an instance is found on the classes above, if they are fewer than the steps. -/
theorem memberFrom_climbs (name : String) {m : SymbolId} (n steps : Nat) {e a : Entity}
    (he : e.id.index < base.store.symbols.size) (hempty : base.inProgress = []) (given : List Ty)
    (hup : last.ancestor? oracle n e = some a)
    (hown : (last.store.symbol a.id).members.find? name = some m)
    (hclasses : last.EachBelow oracle n e (IsClass last.store))
    (hbelow : last.EachBelow oracle n e fun c =>
      (last.store.symbol c).members.find? name = none) :
    FindsBefore files oracle base last (memberFrom steps (.object e given) name)
      (· = if n < steps then some m else none) := by
  -- Each step up takes one of the steps.
  induction steps generalizing base n e given with
  | zero => exact .pure rfl
  | succ steps ih =>
    have hlearns : ∀ (now : Knowledge) (t : Ty), t.Within files now.store →
        Learns files False oracle now (memberFrom steps t name) Found :=
      (memberFrom_learns horacle steps name).1
    refine .store (instanceMember_learns horacle name he (fun now t _ ht => hlearns now t ht)
      fun now _ => (memberFrom_learns horacle steps name).2 now "Number")
      fun now hnow hsound hlast => ?_
    have he := hnow.symbol_lt he
    rw [← hlast.workspace.store.symbol_eq e.id he]
    cases n with
    -- The member is the own one of this class.
    | zero =>
      obtain rfl : e = a := Option.some.inj hup
      rw [hown]
      exact .pure (if_pos (Nat.succ_pos steps)).symm
    -- It is further up, so this class has none of its own and its bases are searched.
    | succ n =>
      obtain ⟨b, hb, hup⟩ := Knowledge.exists_onlyBase? hup
      rw [hbelow.self]
      have hsearch : ∀ (next : Knowledge) (types : List Ty),
          (∀ t ∈ types, t.Within files next.store) → ∀ final, next.Later final → ∀ t ∈ types,
            Learns files False oracle final (memberFrom steps t name) Found :=
        fun next types htypes final hfinal t ht =>
          hlearns final t ((htypes t ht).mono hfinal.noSmaller)
      refine .bind (φ := Found) (basesOf_learns horacle e.id)
        (.of_lasts (basesOf_learns horacle e.id) (hnow.inProgress_eq.trans hempty))
        (fun types next hnext htypes => .bind (firstSymbol_learns (hsearch next types htypes))
          fun found final _ hfound => orNumberMember_learns horacle hfound name steps e.id)
        fun types next hnext _ htypes hknown => ?_
      -- The only base is a class one step closer to the one that declares the member.
      have hfirst : FindsBefore files oracle next last (firstSymbol (memberFrom steps · name) types)
          (· = if n < steps then some m else none) :=
        firstSymbol_onlyBase hknown.eq hb htypes (hsearch next types htypes) fun hlt given =>
          ih n hlt ((hnow.trans hnext).inProgress_eq.trans hempty) given hup (hclasses.above hb)
            (hbelow.above hb)
      refine .bind (φ := Found) (firstSymbol_learns (hsearch next types htypes)) hfirst
        (fun found final _ hfound => orNumberMember_learns horacle hfound name steps e.id)
        fun found final hfinal _ _ hfound => ?_
      simp only [Nat.add_lt_add_iff_right, ← hfound]
      split
      · exact .pure rfl
      · -- A class is no enumeration, so its instances are not looked up among numbers.
        refine .store (numberMember_learns horacle name steps e.id)
          fun done hdone hdsound hdlast => ?_
        have hlt := ((hnext.trans hfinal).trans hdone).symbol_lt he
        rw [← hdlast.workspace.store.hasKind_eq hdsound.workspace.store hlt,
          hclasses.self.no_enum]
        exact .pure rfl

/-! ## Static members -/

/-- A class inherits static members from the classes that it extends, and interfaces have none. -/
def inheritedStatic (steps : Nat) (name : String) (t : Ty) : Inquiry (Option SymbolId) :=
  match t with
  | .object e _ => do if ← isClass e.id then staticMember steps e.id name else return none
  | _ => return none

/-- A static member of a base is found within the files. -/
theorem inheritedStatic_learns (steps : Nat) (name : String) {t : Ty}
    (ht : t.Within files base.store) :
    Learns files False oracle base (inheritedStatic steps name t) Found := by
  cases ht with
  | object he =>
    refine .bind (isClass_learns he) fun is final hfinal _ => ?_
    split
    · exact staticMember_learns horacle steps name (Knowledge.Later.symbol_lt hfinal he)
    · exact .found (found_none _)
  | _ => exact .found (found_none _)

/-- A static member is found on the classes above, as many as there are steps. -/
theorem staticMember_climbs (name : String) {m : SymbolId} (n steps : Nat) {e a : Entity}
    (he : e.id.index < base.store.symbols.size) (hempty : base.inProgress = [])
    (hup : last.ancestor? oracle n e = some a)
    (hown : (last.store.symbol a.id).statics.find? name = some m)
    (hclasses : last.EachBelow oracle (n + 1) e (IsClass last.store))
    (hbelow : last.EachBelow oracle n e fun c =>
      (last.store.symbol c).statics.find? name = none) :
    FindsBefore files oracle base last (staticMember steps e.id name)
      (· = if n ≤ steps then some m else none) := by
  -- By induction on the distance, for any number of steps: each base uses up one of both.
  induction n generalizing base steps e with
  | zero =>
    obtain rfl : e = a := Option.some.inj hup
    have hsearch : Learns files False oracle base (staticMember steps e.id name) Found :=
      staticMember_learns horacle steps name he
    unfold staticMember at hsearch ⊢
    refine .store hsearch fun now hnow hsound hlast => ?_
    have he := hnow.symbol_lt he
    rw [← hlast.workspace.store.symbol_eq e.id he, hown]
    exact .pure (if_pos (Nat.zero_le steps)).symm
  | succ n ih =>
    obtain ⟨b, hb, hup⟩ := Knowledge.exists_onlyBase? hup
    have hsearch : Learns files False oracle base (staticMember steps e.id name) Found :=
      staticMember_learns horacle steps name he
    unfold staticMember at hsearch ⊢
    refine .store hsearch fun now hnow hsound hlast => ?_
    have he := hnow.symbol_lt he
    rw [← hlast.workspace.store.symbol_eq e.id he, hbelow.self]
    -- No step is left although the class that has it is still above.
    cases steps with
    | zero => exact .pure rfl
    | succ steps =>
      refine .bind (φ := Found) (basesOf_learns horacle e.id)
        (.of_lasts (basesOf_learns horacle e.id) (hnow.inProgress_eq.trans hempty))
        (fun types next hnext htypes => firstSymbol_learns fun final hfinal t ht =>
          inheritedStatic_learns horacle steps name ((htypes t ht).mono hfinal.noSmaller))
        fun types next hnext _ htypes hknown => ?_
      -- The base is a class, so the search goes on in it with one step less.
      refine firstSymbol_onlyBase hknown.eq hb htypes (fun final hfinal t ht =>
        inheritedStatic_learns horacle steps name ((htypes t ht).mono hfinal.noSmaller))
          fun hlt given => ?_
      refine .bind (φ := Found) (isClass_learns hlt)
        (isClass_holds hlt (hclasses.above hb).self.class_kind) (fun is final hfinal _ => ?_)
        fun is final hfinal _ _ his => ?_
      all_goals have hlt := Knowledge.Later.symbol_lt hfinal hlt
      · split
        · exact staticMember_learns horacle steps name hlt
        · exact .found (found_none _)
      · rw [if_pos his]
        simp only [Nat.add_le_add_iff_right]
        exact ih steps hlt (((hnow.trans hnext).trans hfinal).inProgress_eq.trans hempty) hup
          (hclasses.above hb) (hbelow.above hb)

/-- What is no static member is looked up among the members of functions. -/
theorem memberOf_static_climbs (name : String) {m : SymbolId} (n : Nat) {e a : Entity}
    (he : e.id.index < base.store.symbols.size) (hempty : base.inProgress = [])
    (hup : last.ancestor? oracle n e = some a)
    (hown : (last.store.symbol a.id).statics.find? name = some m)
    (hclasses : last.EachBelow oracle (n + 1) e (IsClass last.store))
    (hbelow : last.EachBelow oracle n e fun c =>
      (last.store.symbol c).statics.find? name = none) :
    FindsBefore files oracle base last (memberOf (.static e) name) fun found =>
      if n ≤ memberSteps then found = some m
      else last.Knows oracle (globalMemberFrom (memberSteps - 1) "Function" name) found := by
  have hfunction : ∀ again now, Learns files again oracle now
      (globalMemberFrom (memberSteps - 1) "Function" name) Found :=
    fun _ now => (memberFrom_learns horacle _ name).2 now "Function"
  refine .bind (φ := Found) (staticMember_learns horacle memberSteps name he)
    (staticMember_climbs horacle name n memberSteps he hempty hup hown hclasses hbelow)
    (fun found now _ hfound => ?_) fun found now hnow _ _ hfound => ?_
  · split
    · exact .found hfound
    · exact hfunction False now
  · subst hfound
    -- Beyond the reach, what is left are the members that every function has.
    by_cases hwithin : n ≤ memberSteps
    · simp only [if_pos hwithin]
      exact .pure rfl
    · simp only [if_neg hwithin]
      exact .of_lasts (hfunction True now) (hnow.inProgress_eq.trans hempty)

/-! ## Constructors -/

/-- A class is constructed by the constructor of the class above that has one, if that is among the
classes that are searched. -/
theorem constructSignatures_climbs (n : Nat) {e a : Entity}
    (he : e.id.index < base.store.symbols.size) (hempty : base.inProgress = [])
    (hup : last.ancestor? oracle n e = some a) (hown : hasConstructor last.store a.id = true)
    (hclass : IsClass last.store e.id)
    (hbelow : last.EachBelow oracle n e fun c => hasConstructor last.store c = false) :
    FindsBefore files oracle base last (constructSignatures (.static e))
      (TakesFrom last.store (if n < constructorSteps then some a.id else none)) := by
  intro k hk hsound hlast
  have hfound := constructSignatures_declares horacle he hclass.class_kind hempty k hk hsound hlast
  have howner : last.constructorOwner? oracle e.id =
      if n < constructorSteps then some a.id else none :=
    find?_lineage n constructorSteps hup hown hbelow
  -- The owner is the first class in the lineage that has a constructor.
  rw [howner] at hfound
  refine hfound.takesFrom fun c hc => ?_
  split at hc
  · rwa [← Option.some.inj hc]
  · exact nomatch hc

end Oracles

/-! ## The three look-ups -/

/-- Whether the instances of a symbol have a member that it declares. -/
def hasMember (st : Store) (name : String) (c : SymbolId) : Bool :=
  ((st.symbol c).members.find? name).isSome

/-- Whether a symbol declares a static member. -/
def hasStatic (st : Store) (name : String) (c : SymbolId) : Bool :=
  ((st.symbol c).statics.find? name).isSome

/-- What is declared on one class only, of those that a class extends in a row, is found from that
class, whatever has been requested before: a member of its instances if the class that declares it
is at most eight steps above, a static member if it is at most nine, and a constructor if it is at
most seven. Further away, there is no member of instances and no constructor, and a static member is
looked up among the members of functions. -/
theorem lookups_climb (settings : Settings) (disk : Disk) (library root : Source) {k : Knowledge}
    (hk : (Knowledge.start settings disk library root).Reaches k) {e a : Entity}
    (he : e.id.index < k.store.symbols.size) {last : Knowledge} {n : Nat} :
    let oracle := answer (depthBound k.workspace)
    let st := last.store
    last.ancestor? oracle n e = some a → last.EachBelow oracle (n + 1) e (IsClass st) →
    (∀ name, last.IsFirst oracle n e a (hasMember st name) → ∀ given,
      FindsBefore anyFile oracle k last (memberOf (.object e given) name)
        (· = if n ≤ 8 then (st.symbol a.id).members.find? name else none)) ∧
    (∀ name, last.IsFirst oracle n e a (hasStatic st name) →
      FindsBefore anyFile oracle k last (memberOf (.static e) name) fun found =>
        if n ≤ 9 then found = (st.symbol a.id).statics.find? name
        else last.Knows oracle (globalMemberFrom 8 "Function" name) found) ∧
    (last.IsFirst oracle n e a (hasConstructor st) →
      FindsBefore anyFile oracle k last (constructSignatures (.static e))
        (TakesFrom st (if n ≤ 7 then some a.id else none))) := by
  intro oracle st hup hclasses
  have hempty : k.inProgress = [] :=
    (hk.keeps (Knowledge.start_sound settings disk library root)).1.inProgress_eq
  have horacle : oracle.Learns anyFile := answer_learns _
  have hnone : ∀ found : Option SymbolId, found.isSome = false → found = none := fun _ h =>
    Option.isNone_iff_eq_none.mp (Option.isSome_eq_false_iff.mp h)
  -- The three searches, each with its own number of steps: 8, 9 and 8 classes with their own.
  refine ⟨fun name hfirst given => ?_, fun name hfirst => ?_, fun hfirst => ?_⟩
  · obtain ⟨m, hm⟩ := Option.isSome_iff_exists.mp hfirst.holds
    have hfound := memberFrom_climbs horacle name n memberSteps he hempty given hup hm
      (hclasses.mono (Nat.le_succ n)) (hfirst.below.imp fun _ => hnone _)
    simp only [memberSteps, Nat.lt_succ_iff, ← hm] at hfound
    exact hfound
  · obtain ⟨m, hm⟩ := Option.isSome_iff_exists.mp hfirst.holds
    rw [hm]
    exact memberOf_static_climbs horacle name n he hempty hup hm hclasses
      (hfirst.below.imp fun _ => hnone _)
  · have hfound := constructSignatures_climbs horacle n he hempty hup hfirst.holds hclasses.self
      hfirst.below
    simp only [constructorSteps, Nat.lt_succ_iff] at hfound
    exact hfound

/-- What is found of a member `m`, a static member `s` and the constructors of a class. -/
structure Lookups where
  member : Option SymbolId
  ownMember : Option SymbolId
  signatures : List Signature

/-- The three look-ups, one after the other. -/
def lookupsFrom (e : Entity) : Inquiry Lookups := do
  let member ← memberOf (.object e []) "m"
  let ownMember ← memberOf (.static e) "s"
  return ⟨member, ownMember, ← constructSignatures (.static e)⟩

/-- Each of the look-ups keeps what is known, so whatever they lead to is known in the end. -/
theorem lookupsFrom_finds {e : Entity} (horacle : oracle.Learns files)
    (he : e.id.index < base.store.symbols.size) {P Q : Option SymbolId → Prop}
    {R : List Signature → Prop}
    (hmember : FindsBefore files oracle base last (memberOf (.object e []) "m") P)
    (hstatic : FindsBefore files oracle base last (memberOf (.static e) "s") Q)
    (hconstructors : FindsBefore files oracle base last (constructSignatures (.static e)) R) :
    FindsBefore files oracle base last (lookupsFrom e) fun found =>
      P found.member ∧ Q found.ownMember ∧ R found.signatures := by
  have hstart : ∀ now : Knowledge, base.Later now → e.id.index < now.store.symbols.size :=
    fun now hnow => hnow.symbol_lt he
  have hlearns : ∀ now, base.Later now → Learns files False oracle now
      (memberOf (.static e) "s") Found := fun now hnow =>
    memberOf_learns horacle (.static (hstart now hnow)) "s"
  have hlast : ∀ now, base.Later now → Learns files False oracle now
      (constructSignatures (.static e)) _ := fun now hnow =>
    (constructSignatures_repeats horacle (.static (hstart now hnow))).1
  have htold : ∀ m s now, base.Later now → Learns files False oracle now
      (do return (⟨m, s, ← constructSignatures (.static e)⟩ : Lookups)) fun _ _ => True :=
    fun m s now hnow => .map (.weaken (hlast now hnow) fun _ _ _ _ => trivial)
  -- One look-up after the other; the later ones start from what the earlier ones have learned.
  refine .bind (φ := fun _ _ => True)
    (memberOf_learns horacle (.object he fun _ ht => absurd ht List.not_mem_nil) "m") hmember
    (fun m now hnow _ => .bind (hlearns now hnow) fun s next hnext _ =>
      htold m s next (hnow.trans hnext)) fun m now hnow _ _ hm => ?_
  refine .bind (φ := fun _ _ => True) (hlearns now hnow) (fun k hk => hstatic k (hnow.trans hk))
    (fun s next hnext _ => htold m s next (hnow.trans hnext)) fun s next hnext _ _ hs => ?_
  exact .map fun k hk hsound hlast =>
    ⟨hm, hs, hconstructors k ((hnow.trans hnext).trans hk) hsound hlast⟩

/-- A class that extends another one, which declares a member of either kind and a constructor. -/
def twoClasses : Source :=
  .ofText "/a.ts"
    "new class extends class\x7bconstructor()\x7b\x7dm()\x7b\x7dstatic s()\x7b\x7d\x7d\x7b\x7d" .ts

/-- All of them are found from the class that extends it. -/
theorem lookups_climb_once :
    let start := Knowledge.start {} {} default twoClasses
    let oracle := answer (depthBound start.workspace)
    ∃ e a, e ≠ a ∧
      let found := ((lookupsFrom e).perform oracle).run start
      let last := found.2
      let st := last.store
      last.ancestor? oracle 1 e = some a ∧
        found.1.member = (st.symbol a.id).members.find? "m" ∧
        found.1.ownMember = (st.symbol a.id).statics.find? "s" ∧
        TakesFrom st (some a.id) found.1.signatures := by
  intro start oracle
  -- Every condition on the classes is checked on the knowledge that the look-ups end with.
  have hclasses : ∃ n ∈ twoClasses.root.preorder, ∃ constructed ∈ n.child? .constructed,
      ∃ e ∈ (((typeOf constructed).perform oracle).run start).1.entity?,
        let found := ((lookupsFrom e).perform oracle).run start
        let last := found.2
        let st := last.store
        ∃ a ∈ last.ancestor? oracle 1 e, e.id.index < start.store.symbols.size ∧ e ≠ a ∧
          last.EachBelow oracle 2 e (IsClass st) ∧
          last.IsFirst oracle 1 e a (hasMember st "m") ∧
          last.IsFirst oracle 1 e a (hasStatic st "s") ∧
          last.IsFirst oracle 1 e a (hasConstructor st) := by
    decide +kernel
  obtain ⟨-, -, -, -, e, -, a, ha, he, hne, hclass, hm, hs, hc⟩ := hclasses
  have hreaches : (Knowledge.start {} {} default twoClasses).Reaches start := .refl
  have hsound : start.Sound anyFile := Knowledge.start_sound {} {} default twoClasses
  clear_value start
  obtain ⟨hmember, hstatic, hconstructor⟩ :=
    lookups_climb {} {} default twoClasses hreaches he ha hclass
  exact ⟨e, a, hne, ha, lookupsFrom_finds (answer_learns _) he (hmember "m" hm []) (hstatic "s" hs)
    (hconstructor hc) start (.refl start) hsound (.refl _)⟩

/-- Nine classes in a row, of which only the last one declares anything. -/
def nineClasses : Source :=
  .ofText "/a.ts" ("new class extends class extends class extends class extends class extends " ++
    "class extends class extends class extends class" ++
      "\x7bconstructor()\x7b\x7dm()\x7b\x7dstatic s()\x7b\x7d\x7d" ++
    "\x7b\x7d\x7b\x7d\x7b\x7d\x7b\x7d\x7b\x7d\x7b\x7d\x7b\x7d\x7b\x7d") .ts

/-- From the first class, the member and the static member are found, and the constructor is not. -/
theorem exists_constructor_out_of_reach :
    let start := Knowledge.start {} {} default nineClasses
    let oracle := answer (depthBound start.workspace)
    ∃ n ∈ nineClasses.root.preorder, ∃ constructed ∈ n.child? .constructed,
      ∃ e ∈ (((typeOf constructed).perform oracle).run start).1.entity?,
        let found := ((lookupsFrom e).perform oracle).run start
        let last := found.2
        let st := last.store
        ∃ a ∈ last.ancestor? oracle 8 e, last.EachBelow oracle 9 e (IsClass st) ∧
          last.IsFirst oracle 8 e a (hasMember st "m") ∧
          last.IsFirst oracle 8 e a (hasStatic st "s") ∧
          last.IsFirst oracle 8 e a (hasConstructor st) ∧
          found.1.member = (st.symbol a.id).members.find? "m" ∧
          found.1.ownMember = (st.symbol a.id).statics.find? "s" ∧
            found.1.signatures.isEmpty = true := by
  decide +kernel

end ScriptGraph.Inference
