import ScriptGraph.Proofs.Binding.SourceOrder
import ScriptGraph.Proofs.Inference.Constructors
import ScriptGraph.Proofs.Inference.Requests

/-!
# Which overload a call binds to

A call goes by the number of its arguments. Of the callable declarations of a symbol it binds to the
first overload that takes this number, or else to the first overload; where there are overloads
without a body, the ones with a body are implementations and hidden. A call of `super` goes by the
constructors of the nearest class on the way up that has some. Signatures are remembered under their
constructs and may be instances, but they keep the parameters that the constructs tell.

- `callables`: the declarations of a symbol that have parameters, in the order of their declaration
- `BindsToFirst`: what a call among declarations binds to
- `Reaches.boundWith`: the symbols whose declarations are in source order
- `declarationType_offers`: the declarations of a symbol have the function type of the symbol
- `calls_bind_first`: calls and calls of `super` bind to the first overload that takes the arguments
- `exists_call_past_overload`, `exists_call_past_undefined`: calls that do not
-/

namespace ScriptGraph.Inference

open Binding Syntax

variable {files : Source → Prop} {oracle : Oracle} {base last : Knowledge}

/-! ## The choice among declarations -/

/-- The first of some declarations that takes a number of arguments, or else the first of all. -/
def firstTaking (st : Store) (ids : List DeclarationId) (count : Nat) : Option DeclarationId :=
  (ids.find? fun d => decide (Takes (st.declaration d).node count)).or ids.head?

/-- The construct that a signature belongs to. -/
def declaredNode (st : Store) (s : Signature) : Option Node :=
  s.declaration.map fun d => (st.declaration d).node

/-- No two constructs are declared where one of some declarations stands. -/
def KnownByPlace (st : Store) (ids : List DeclarationId) : Prop :=
  ∀ id ∈ ids, ∀ d : DeclarationId, d.index < st.declarations.size →
    (st.declaration d).key = (st.declaration id).key →
      (st.declaration d).node = (st.declaration id).node

/-- What is found for a call among some declarations: a signature of the first overload that takes
the arguments. It has no body if there are declarations without. -/
structure BindsToFirst (st : Store) (ids : List DeclarationId) (count : Nat)
    (found : Option Signature) : Prop where
  node_eq : found.map (declaredNode st) =
    (firstTaking st (overloads st ids) count).map fun d => some (st.declaration d).node
  bodiless : ∀ d ∈ ids, (st.declaration d).hasBody = false →
    ∀ s n, found = some s → declaredNode st s = some n → n.child? .body = none

/-- The first items of two lists with a property, if it is the same for partners. -/
theorem map_find?_eq {α β γ : Type} {p : α → Bool} {q : β → Bool} {f : α → γ} {g : β → γ}
    {as : List α} {bs : List β}
    (h : List.Forall₂ (fun a b => q b = p a ∧ g b = f a) as bs) :
    (bs.find? q).map g = (as.find? p).map f := by
  induction h with
  | nil => rfl
  | cons hhead _ ih =>
    rw [List.find?_cons, List.find?_cons, hhead.1]
    split
    · exact congrArg some hhead.2
    · exact ih

/-- The first items of lists with partners are partners. -/
theorem map_head?_eq {α β γ : Type} {R : α → β → Prop} {f : α → γ} {g : β → γ} {as : List α}
    {bs : List β} (h : List.Forall₂ R as bs) (hR : ∀ a b, R a b → g b = f a) :
    bs.head?.map g = as.head?.map f := by
  cases h with
  | nil => rfl
  | cons hhead _ => exact congrArg some (hR _ _ hhead)

/-- The first declaration that takes the arguments is one of them. -/
theorem mem_of_firstTaking {st : Store} {ids : List DeclarationId} {count : Nat}
    {d : DeclarationId} (h : firstTaking st ids count = some d) : d ∈ ids := by
  rcases Option.or_eq_some_iff.mp h with hfind | ⟨-, hhead⟩
  · exact List.mem_of_find?_eq_some hfind
  · exact List.mem_of_head? hhead

/-- Where there are declarations without a body, the overloads are without. -/
theorem overloads_bodiless {st : Store} {ids : List DeclarationId} {d : DeclarationId}
    (hd : d ∈ ids) (hbody : (st.declaration d).hasBody = false) :
    ∀ id ∈ overloads st ids, (st.declaration id).hasBody = false := by
  unfold overloads
  rw [List.partition_eq_filter_filter]
  dsimp only
  intro id hid
  split at hid
  · rename_i hone
    rcases Bool.or_eq_true_iff.mp hone with hbodied | hbodiless
    -- There is no declaration with a body.
    · have hall := List.filter_eq_nil_iff.mp (List.isEmpty_iff.mp hbodied) id hid
      exact Bool.not_eq_true _ |>.mp hall
    · have hnone := List.filter_eq_nil_iff.mp (List.isEmpty_iff.mp hbodiless) d hd
      simp [hbody] at hnone
  · simpa using (List.mem_filter.mp hid).2

/-- Of signatures that overloads give, the one that is chosen is that of the first overload that
takes the arguments. -/
theorem SignaturesFor.bindsToFirst {st : Store} {ids : List DeclarationId}
    {signatures : List Signature} (h : SignaturesFor st ids signatures)
    (hplace : KnownByPlace st ids) (count : Nat) :
    BindsToFirst st ids count (Signature.choose signatures count) := by
  -- Overloads and signatures correspond: they take the same arguments and have the same node.
  have hpartners : List.Forall₂ (fun id s =>
      s.accepts count = decide (Takes (st.declaration id).node count) ∧
        declaredNode st s = some (st.declaration id).node) (overloads st ids) signatures := by
    refine ((List.forall₂_and_left _ _).mpr ⟨fun _ => mem_of_mem_overloads, h⟩).imp
      fun id s ⟨hid, d, hd, hlt, hkey, hforms⟩ => ?_
    have hnode := hplace id hid d hlt hkey
    rw [hnode] at hforms
    exact ⟨accepts_eq hforms count, by rw [declaredNode, hd, Option.map_some, hnode]⟩
  have hchosen : (Signature.choose signatures count).map (declaredNode st) =
      (firstTaking st (overloads st ids) count).map fun d => some (st.declaration d).node := by
    unfold Signature.choose firstTaking
    rw [Option.map_or, Option.map_or, map_find?_eq hpartners,
      map_head?_eq hpartners fun _ _ hboth => hboth.2]
  -- A chosen overload with a body would be the only kind there is.
  refine ⟨hchosen, fun d hd hbody s n hs hn => ?_⟩
  rw [hs, Option.map_some, hn] at hchosen
  obtain ⟨id, hid, hnode⟩ := Option.map_eq_some_iff.mp hchosen.symm
  have hid := overloads_bodiless hd hbody id (mem_of_firstTaking hid)
  rw [← Option.some.inj hnode]
  exact Option.not_isSome_iff_eq_none.mp (Bool.not_eq_true _ |>.mpr hid)

/-! ## The calls of a symbol -/

/-- The declarations of a symbol that have parameters, in the order of their declaration. -/
def callables (st : Store) (symbol : SymbolId) : List DeclarationId :=
  (st.symbol symbol).declarations.filter fun d => (st.declaration d).kind.isCallable

/-- A type offers the calls of a symbol: it has the signatures of the symbol's overloads or
instances of them. -/
def Knowledge.OffersCallsOf (k : Knowledge) (symbol : SymbolId) (t : Ty) : Prop :=
  t.offers = (Ty.function ((symbolSignatures symbol).conduct.run k).1 none).offers

/-- The callables of a symbol are declarations of it. -/
theorem mem_of_mem_callables {st : Store} {symbol : SymbolId} {d : DeclarationId}
    (h : d ∈ callables st symbol) : d ∈ (st.symbol symbol).declarations :=
  (List.mem_filter.mp h).1

/-- A symbol has the same callables later on. -/
theorem callables_later {old new : Knowledge} (h : old.Later new) (hsound : old.Sound files)
    {symbol : SymbolId} (hs : symbol.index < old.store.symbols.size) :
    callables new.store symbol = callables old.store symbol := by
  unfold callables
  rw [h.workspace.store.symbol_eq symbol hs]
  refine List.filter_congr fun d hd => ?_
  have hlt := (hsound.workspace.store.symbol symbol).declarations d hd
  rw [(h.workspace.store.declaration_became d hlt).kind_eq]

/-- The signatures of a symbol are those of its overloads. -/
theorem symbolSignatures_declares (horacle : oracle.Learns files) {symbol : SymbolId}
    (hs : symbol.index < base.store.symbols.size) :
    Learns files False oracle base (symbolSignatures symbol) fun signatures st =>
      AllWithin files signatures st ∧ SignaturesFor st (callables st symbol) signatures :=
  .store nofun fun now hnow hsound => .weaken (signaturesOf_declares horacle fun d hd =>
      (hsound.workspace.store.symbol symbol).declarations d (mem_of_mem_callables hd))
    fun signatures next hnext h => ⟨h.1, by
      rw [callables_later hnext hsound (hnow.symbol_lt hs)]
      exact h.2⟩

/-- Signatures that are there already are signatures of the same declarations as later on. -/
theorem SignaturesFor.earlier {old new : Knowledge} {ids : List DeclarationId}
    {signatures : List Signature} (h : SignaturesFor new.store ids signatures)
    (hlater : old.Later new) (hids : ∀ d ∈ ids, d.index < old.store.declarations.size)
    (hwithin : AllWithin files signatures old.store) :
    SignaturesFor old.store ids signatures := by
  unfold SignaturesFor at h ⊢
  -- What was known of the declarations then is what is known of them now.
  rw [overloads_later hlater hids, List.forall₂_iff_zip] at h
  refine List.forall₂_iff_zip.mpr ⟨h.1, fun {id s} hmem => ?_⟩
  obtain ⟨hid, hs⟩ := List.of_mem_zip hmem
  obtain ⟨d, hd, -, hkey, hforms⟩ := h.2 hmem
  have hlt := (hwithin s hs).declaration d hd
  rw [key_later hlater hlt, key_later hlater (hids id (mem_of_mem_overloads hid))] at hkey
  rw [node_later hlater hlt] at hforms
  exact ⟨d, hd, hlt, hkey, hforms⟩

/-- A type that offers signatures of some outlines is called by signatures of these outlines. -/
theorem callSignatures_yields {t : Ty} {signatures : List Signature} {e : Option Entity}
    (h : t.offers = (Ty.function signatures e).offers) :
    (callSignatures t).Yields fun found => SameOutlines found signatures := by
  obtain ⟨c, hc, hoffer⟩ := List.map_eq_singleton_iff.mp h
  rw [callSignatures_eq, hc, Callable.firstSignatures_singleton]
  cases c with
  | function found => exact .pure (Offer.outlines.inj hoffer)
  | object => exact nomatch hoffer

section Calls

variable (horacle : oracle.Learns files) {call callee : Node}
include horacle

/-- A call of a value that offers the calls of a symbol binds to the first overload of the symbol
that takes the arguments. -/
theorem resolvedSignature_binds (hn : call.From files) (hcallee : call.child? .callee = some callee)
    (hsuper : callee.is .superExpression = false) (hempty : base.inProgress = [])
    (hsound : last.Sound files) {symbol : SymbolId} (hs : symbol.index < last.store.symbols.size)
    (hoffers : (((typeOf callee).perform oracle).run last).1.offers =
      (Ty.function (((symbolSignatures symbol).perform oracle).run last).1 none).offers)
    (hplace : KnownByPlace last.store (callables last.store symbol)) :
    FindsBefore files oracle base last (resolvedSignature call)
      (BindsToFirst last.store (callables last.store symbol) (callArguments call).length) := by
  -- The callee is no super expression, so its type decides which signatures there are.
  have hcall : resolvedSignature call = typeOf callee >>= fun t => do
      return Signature.choose (← callSignatures t) (callArguments call).length := by
    unfold resolvedSignature
    rw [hcallee]
    dsimp only
    rw [hsuper, if_neg Bool.false_ne_true]
  have hof : ∀ again : Prop, Learns files again oracle base (typeOf callee) _ := fun _ =>
    typeOf_learns horacle (hn.child? hcallee)
  rw [hcall]
  refine .bind (φ := FoundWithin files) (hof False) (.of_lasts (hof True) hempty)
    (fun t now _ ht => (Repeats.choose (callSignatures_repeats horacle ht) _).1)
    fun t now hnow _ ht hknown => .map ?_
  -- The type that is found is the one that is known in the end.
  rw [hknown.eq] at hoffers
  have hlearns : Learns files False oracle now (callSignatures t) (AllWithin files) :=
    (callSignatures_repeats horacle ht).1
  refine .of_learns (hlearns.yields (callSignatures_yields hoffers))
    fun signatures next _ hend ⟨hwithin, hsame⟩ => ?_
  -- Asked for in the end, the symbol has the signatures of its declarations as they were then.
  have hdeclares : Learns files False oracle last (symbolSignatures symbol) _ :=
    symbolSignatures_declares horacle hs
  obtain ⟨hlater, -, ⟨-, hfor⟩, -⟩ := hdeclares last (.refl last) hsound
  rw [callables_later hlater hsound hs] at hfor
  have hids : ∀ d ∈ callables last.store symbol, d.index < last.store.declarations.size :=
    fun d hd => (hsound.workspace.store.symbol symbol).declarations d (mem_of_mem_callables hd)
  exact ((hfor.of_outlines hsame).earlier hlater hids (hwithin.mono hend.noSmaller)).bindsToFirst
    hplace _

/-- A call of `super` binds to the first constructor that takes the arguments, of the nearest class
on the way up that has constructors. -/
theorem resolvedSignature_super_binds (hcallee : call.child? .callee = some callee)
    (hsuper : callee.is .superExpression = true) (hempty : base.inProgress = []) {e : Entity}
    {arguments : List Ty}
    (htype : (((superType callee).perform oracle).run last).1 = .object e arguments)
    (hclass : last.store.hasKind (· == .class) e.id = true)
    (hplace : KnownByPlace last.store
      (constructorsWith last.store (last.constructorOwner? oracle e.id))) :
    FindsBefore files oracle base last (resolvedSignature call)
      (BindsToFirst last.store (constructorsWith last.store (last.constructorOwner? oracle e.id))
        (callArguments call).length) := by
  have hof : ∀ again : Prop, Learns files again oracle base (superType callee) _ := fun _ =>
    superType_learns horacle callee
  unfold resolvedSignature
  rw [hcallee]
  dsimp only
  rw [if_pos hsuper]
  refine .bind (φ := FoundWithin files) (hof False) (.of_lasts (hof True) hempty)
    (fun t now _ ht => ?_) fun t now hnow _ ht hknown => ?_
  -- Before the last knowledge is reached, `super` may be anything; at the end, it is the instance.
  · cases ht with
    | object he => exact (Repeats.choose (constructSignatures_repeats horacle (.static he)) _).1
    | _ => exact Repeats.noSignature.1
  · obtain rfl : t = .object e arguments := hknown.eq.symm.trans htype
    cases ht with
    | object he =>
      refine .map fun k hk hsound hlast => ?_
      have hfor := constructSignatures_declares horacle he hclass (hnow.inProgress_eq.trans hempty)
        k hk hsound hlast
      exact hfor.bindsToFirst hplace _

end Calls

/-! ## The function type of a symbol -/

/-- A declaration of a function, or of a method that is a member. -/
structure DeclaresFunction (st : Store) (id : DeclarationId) (symbol : SymbolId) : Prop where
  symbol_eq : (st.declaration id).symbol = some symbol
  kind : (st.declaration id).kind = .function ∨ (st.declaration id).kind = .functionSignature ∨
    ((st.declaration id).kind = .method ∨ (st.declaration id).kind = .methodSignature) ∧
      (st.declaration id).accessor = none ∧ (st.symbol symbol).parent.isSome = true

/-- The type of such a declaration has the signatures of all overloads of its symbol. -/
theorem declarationType_offers {k : Knowledge} {id : DeclarationId} {symbol : SymbolId}
    (h : DeclaresFunction k.store id symbol) :
    k.OffersCallsOf symbol ((declarationType id).conduct.run k).1 := by
  unfold Knowledge.OffersCallsOf
  rw [run_conduct _ (.refl k), run_conduct _ (.refl k)]
  generalize answer (depthBound k.workspace) = oracle
  have hd : ((declarationOf id).perform oracle).run k = (k.store.declaration id, k) := rfl
  have hof : ∀ signatures e, Inquiry.Yields (do return Ty.function signatures (← entityOf? e))
      fun t => t.offers = (Ty.function signatures none).offers :=
    fun _ _ => .bind (.something _) fun _ _ => .pure rfl
  have hfunction : (((do
      let signatures ← symbolSignatures symbol
      return .function signatures (← entityOf? (some symbol)) : Inquiry Ty).perform oracle).run
        k).1.offers =
      (Ty.function (((symbolSignatures symbol).perform oracle).run k).1 none).offers := by
    rw [Inquiry.run_bind]
    exact hof _ _ oracle _
  rw [declarationType, Inquiry.run_bind, hd]
  dsimp only
  -- Functions have the rule of their kind; methods that of members, which leads to the same
  -- signatures.
  rcases h.kind with hkind | hkind | ⟨hkind, haccessor, hparent⟩
  · rw [hkind, h.symbol_eq]
    exact hfunction
  · rw [hkind, h.symbol_eq]
    exact hfunction
  · have hmethod : (((methodType id (k.store.declaration id)).perform oracle).run k).1.offers =
        (Ty.function (((symbolSignatures symbol).perform oracle).run k).1 none).offers := by
      obtain ⟨e, hmember⟩ : ∃ e, ((methodType id (k.store.declaration id)).perform oracle).run k =
          ((if (k.store.symbol symbol).parent.isSome then do
              return Ty.function (← symbolSignatures symbol) e
            else do
              return Ty.function [← signatureOf id] e : Inquiry Ty).perform oracle).run k := by
        unfold methodType
        rw [haccessor, h.symbol_eq]
        exact ⟨_, rfl⟩
      rw [hmember, if_pos hparent, Inquiry.run_bind]
      rfl
    rcases hkind with hkind | hkind
    · rw [hkind]
      exact hmethod
    · rw [hkind]
      exact hmethod

/-! ## The order of the declarations -/

/-- What is declared in a file stays as it is when more becomes known. -/
theorem boundWith_later {old new : Store} {file : Source} {symbol : SymbolId}
    (h : old.BoundWith file symbol) (hlater : old.Later new)
    (hs : symbol.index < old.symbols.size) : new.BoundWith file symbol := by
  obtain ⟨base, hid, hkept, hsame⟩ := h
  refine ⟨base, hid, ⟨Nat.le_trans hkept.size_le hlater.declarations_le, fun d hd => ?_,
    fun d hd => ?_⟩, (hlater.symbol_eq symbol hs).trans hsame⟩
  all_goals have hbecame := hlater.declaration_became d (Nat.lt_of_lt_of_le hd hkept.size_le)
  · exact hbecame.kind_eq.trans (hkept.kind_eq d hd)
  · exact hbecame.node_eq.trans (hkept.node_eq d hd)

/-- The symbols that are there before the first request are those of the library and of the file
under analysis. -/
theorem Knowledge.Reaches.boundWith {settings : Settings} {disk : Disk} {library root : Source}
    {k : Knowledge} (hk : (Knowledge.start settings disk library root).Reaches k)
    {symbol : SymbolId}
    (hs : symbol.index < (Knowledge.start settings disk library root).store.symbols.size) :
    k.store.BoundWith library symbol ∨ k.store.BoundWith root symbol := by
  have hlater := (hk.keeps (Knowledge.start_sound settings disk library root)).1.workspace.store
  -- The library was bound before the file, so its symbols have the smaller numbers.
  by_cases hlibrary : symbol.index < (bind library {}).2.symbols.size
  · have hbound : (bind library {}).2.BoundWith library symbol :=
      ⟨{}, Nat.zero_le _, .of_eq rfl, rfl⟩
    have hroot := (bind_grown root (bind library {}).2).store.extends_base.later
    exact .inl (boundWith_later hbound (hroot.trans hlater) hlibrary)
  · have hbound : (Knowledge.start settings disk library root).store.BoundWith root symbol :=
      ⟨(bind library {}).2, Nat.not_lt.mp hlibrary, .of_eq rfl, rfl⟩
    exact .inr (boundWith_later hbound hlater hs)

/-- Whatever has been requested before, a call of a value that offers the calls of a symbol binds to
the first overload of the symbol that takes the number of its arguments, or else to the first
overload; and to none with a body if there are declarations without. So does a call of `super` with
the constructors of what `super` is an instance of, or of the nearest class on the way up that has
any. The declarations of what is bound in a file are in the order of its text. -/
theorem calls_bind_first (settings : Settings) (disk : Disk) (library root : Source)
    {k : Knowledge} (hk : (Knowledge.start settings disk library root).Reaches k)
    {call callee : Node} (hcallee : call.child? .callee = some callee) :
    let found := ((resolvedSignature call).conduct.run k).1
    let later := ((resolvedSignature call).conduct.run k).2
    let count := (callArguments call).length
    (callee.is .superExpression = false → ∀ symbol : SymbolId,
      symbol.index < later.store.symbols.size →
        later.OffersCallsOf symbol ((typeOf callee).conduct.run later).1 →
          KnownByPlace later.store (callables later.store symbol) →
            BindsToFirst later.store (callables later.store symbol) count found) ∧
    (callee.is .superExpression = true → ∀ e arguments,
      ((superType callee).conduct.run later).1 = .object e arguments →
        later.store.hasKind (· == .class) e.id = true →
          let owner := later.constructorOwner? (answer (depthBound k.workspace)) e.id
          (hasConstructor later.store e.id = true → owner = some e.id) ∧
            (KnownByPlace later.store (constructorsWith later.store owner) →
              BindsToFirst later.store (constructorsWith later.store owner) count found)) ∧
    (∀ file symbol, later.store.BoundWith file symbol → file.tree.laidOut = true →
      later.store.InSourceOrder (callables later.store symbol) ∧
        later.store.InSourceOrder (constructorsWith later.store (some symbol))) ∧
    ∀ symbol, symbol.index < (Knowledge.start settings disk library root).store.symbols.size →
      later.store.BoundWith library symbol ∨ later.store.BoundWith root symbol := by
  intro found later count
  obtain ⟨hstart, hsound⟩ := hk.keeps (Knowledge.start_sound settings disk library root)
  have hempty : k.inProgress = [] := hstart.inProgress_eq
  have hn := from_anyFile call
  obtain ⟨hlater, hlsound⟩ : k.Later later ∧ later.Sound anyFile := hsound.after
    (r := .signatureOfCall call) trivial
  have horacle : (answer (depthBound k.workspace)).Learns anyFile := answer_learns _
  have hrun := run_conduct (resolvedSignature call) (.refl k)
  have hend : (((resolvedSignature call).perform (answer (depthBound k.workspace))).run k).2.Later
      later := by
    rw [← hrun]
    exact .refl later
  refine ⟨fun hsuper symbol hs hoffers hplace => ?_,
    fun hsuper e arguments htype hclass => ⟨fun hown => ?_, fun hplace => ?_⟩,
    fun file symbol hbound hfile => hbound.inSourceOrder hfile,
    fun symbol hs => Knowledge.Reaches.boundWith (hk.tail ⟨.signatureOfCall call, trivial, rfl⟩) hs⟩
  -- The calls that are offered are taken from the knowledge at the end.
  · unfold Knowledge.OffersCallsOf at hoffers
    -- Questions that are asked at the end are answered with the bound of the start.
    rw [run_conduct _ hlater, run_conduct _ hlater] at hoffers
    have hbinds := resolvedSignature_binds horacle hn hcallee hsuper hempty hlsound hs hoffers
      hplace k (.refl k) hsound hend
    rwa [← hrun] at hbinds
  -- A class with a constructor is the first of its own lineage.
  · rw [Knowledge.constructorOwner?, constructorSteps, lineage, List.find?_cons_of_pos hown]
  · rw [run_conduct _ hlater] at htype
    have hbinds := resolvedSignature_super_binds horacle hcallee hsuper hempty htype hclass hplace
      k (.refl k) hsound hend
    rwa [← hrun] at hbinds

/-- A place is known by its key if no other declaration has the key. -/
theorem knownByPlace_of_index_eq {st : Store} {ids : List DeclarationId}
    (h : ∀ id ∈ ids, ∀ i, i < st.declarations.size →
      (st.declaration ⟨i⟩).key = (st.declaration id).key → i = id.index) : KnownByPlace st ids :=
  fun id hid d hd hkey => by
    rw [show d = id from congrArg DeclarationId.mk (h id hid d.index hd hkey)]

instance (k : Knowledge) (symbol : SymbolId) (t : Ty) : Decidable (k.OffersCallsOf symbol t) :=
  inferInstanceAs (Decidable (_ = _))

/-- A function with two overloads. -/
def overloadedSource : Source :=
  .ofText "/a.ts" "function f(a);function f(a,b);function f()\x7b\x7df(1,2)" .ts

/-- A call with two arguments binds to the second one. -/
theorem calls_bind_first_overloaded :
    let start := Knowledge.start {} {} default overloadedSource
    ∃ call ∈ overloadedSource.root.preorder, ∃ symbol,
      let later := ((resolvedSignature call).conduct.run start).2
      BindsToFirst later.store (callables later.store symbol) 2
          ((resolvedSignature call).conduct.run start).1 ∧
        firstTaking later.store (overloads later.store (callables later.store symbol)) 2 =
          (callables later.store symbol)[1]? ∧
        later.store.InSourceOrder (callables later.store symbol) := by
  intro start
  -- The callee, the symbol that it offers the calls of, and its second overload are computed.
  have hcall : ∃ call ∈ overloadedSource.root.preorder, ∃ callee ∈ call.child? .callee,
      callee.is .superExpression = false ∧ (callArguments call).length = 2 ∧
        let later := ((resolvedSignature call).conduct.run start).2
        ∃ symbol ∈ (((typeOf callee).conduct.run later).1.entity?).map Entity.id,
          symbol.index < later.store.symbols.size ∧
            symbol.index < (Knowledge.start {} {} default overloadedSource).store.symbols.size ∧
            later.OffersCallsOf symbol ((typeOf callee).conduct.run later).1 ∧
              (∀ id ∈ callables later.store symbol, ∀ i, i < later.store.declarations.size →
                (later.store.declaration ⟨i⟩).key = (later.store.declaration id).key →
                  i = id.index) ∧
                firstTaking later.store (overloads later.store (callables later.store symbol)) 2 =
                  (callables later.store symbol)[1]? := by
    decide +kernel
  obtain ⟨call, hmem, callee, hcallee, hsuper, hcount, symbol, -, hs, hstart, hoffers, hkeys,
    hfirst⟩ := hcall
  obtain ⟨hbinds, -, horder, hfile⟩ := calls_bind_first {} {} default overloadedSource .refl hcallee
  have hbound := hbinds hsuper symbol hs hoffers (knownByPlace_of_index_eq hkeys)
  rw [hcount] at hbound
  refine ⟨call, hmem, symbol, hbound, hfirst, ?_⟩
  -- The function is declared in the file or in the library, which is empty.
  rcases hfile symbol hstart with hlibrary | hroot
  · exact (horder _ symbol hlibrary (by decide)).1
  · exact (horder _ symbol hroot (by decide +kernel)).1

/-- A static method with overloads, of a class that is merged with a namespace that has a type of
the method's name. -/
def mergedMethodSource : Source :=
  .ofText "/a.ts" ("namespace C\x7binterface m\x7b\x7d\x7d" ++
    "class C\x7bstatic m(a);static m(a,b);static m()\x7b\x7d\x7dC.m(1,2)") .ts

/-- The method's symbol is that of the type, which is no member. So the type of the method has the
signature of one declaration only, and the call does not bind to the overload that takes the
arguments. -/
theorem exists_call_past_overload :
    let start := Knowledge.start {} {} default mergedMethodSource
    ∃ call ∈ mergedMethodSource.root.preorder, ∃ callee ∈ call.child? .callee,
      ∃ symbol ∈ (((typeOf callee).conduct.run start).1.entity?).map Entity.id,
        ∃ d ∈ ((resolvedSignature call).conduct.run start).1.bind (·.declaration),
          ¬ Takes (start.store.declaration d).node (callArguments call).length ∧
            ∃ id ∈ overloads start.store (callables start.store symbol),
              Takes (start.store.declaration id).node (callArguments call).length := by
  decide +kernel

/-- Two functions of one name, of which the second one has a parameter named `undefined`. -/
def undefinedParameterSource : Source :=
  .ofText "/a.js" "function f(a,b)\x7b\x7dfunction f(undefined)\x7b\x7df(1)" .js

/-- The name `undefined` stands for no parameter, so the call does not bind to the function that has
as many parameters as the call has arguments. -/
theorem exists_call_past_undefined :
    let start := Knowledge.start {} {} default undefinedParameterSource
    ∃ call ∈ undefinedParameterSource.root.preorder, ∃ callee ∈ call.child? .callee,
      ∃ symbol ∈ (((typeOf callee).conduct.run start).1.entity?).map Entity.id,
        ∃ d ∈ ((resolvedSignature call).conduct.run start).1.bind (·.declaration),
          ¬ Takes (start.store.declaration d).node (callArguments call).length ∧
            ∃ id ∈ overloads start.store (callables start.store symbol),
              ((start.store.declaration id).node.constructsIn .parameters).length =
                (callArguments call).length := by
  decide +kernel

end ScriptGraph.Inference
