import ScriptGraph.Proofs.Inference.Substitution

/-!
# Inquiries that find alike again

A signature that is instantiated is a new one each time, so an inquiry that does so does not find
the same signature again; but what it finds belongs to the same declaration and takes the same
parameters. `Repeats` relates what an inquiry finds first to what it finds later.

- `Signature.outline`: what instances of a signature have in common
- `Repeats`: an inquiry keeps what is known, and finds alike again
-/

namespace ScriptGraph

open Binding Syntax Inference

/-! ## Outlines of signatures -/

/-- The declaration of a signature, and which of its parameters are optional or gather the rest. -/
def Signature.outline (s : Signature) : Option DeclarationId × List (Bool × Bool) :=
  (s.declaration, s.parameters.map fun p => (p.optional, p.rest))

namespace Signature

variable {s t : Signature}

/-- Signatures with one outline need the same number of arguments. -/
theorem minArguments_eq (h : s.outline = t.outline) : s.minArguments = t.minArguments := by
  have hcount : ∀ u : Signature,
      u.minArguments = (u.outline.2.filter fun p => !p.1 && !p.2).length := fun u => by
    unfold minArguments outline
    rw [List.filter_map, List.length_map]
    rfl
  rw [hcount, hcount, h]

/-- Signatures with one outline accept the same numbers of arguments. -/
theorem accepts_eq (h : s.outline = t.outline) (count : Int) :
    s.accepts count = t.accepts count := by
  have hlength : ∀ u : Signature, u.parameters.length = u.outline.2.length := fun u =>
    (List.length_map _).symm
  have hrest : ∀ u : Signature, u.parameters.any (·.rest) = u.outline.2.any (·.2) := fun u => by
    unfold outline
    rw [List.any_map]
    rfl
  unfold accepts
  rw [minArguments_eq h, hlength, hlength, hrest, hrest, h]

/-- The choice goes by the outlines. -/
theorem choose_eq {first later : List Signature}
    (h : first.map outline = later.map outline) (count : Int) :
    (choose first count).map outline = (choose later count).map outline := by
  -- The lists are gone through side by side.
  have hfind : (first.find? fun s => s.accepts count).map outline =
      (later.find? fun s => s.accepts count).map outline := by
    induction first generalizing later with
    | nil =>
      cases later with
      | nil => rfl
      | cons t ts => exact nomatch h
    | cons s ss ih =>
      cases later with
      | nil => exact nomatch h
      | cons t ts =>
        obtain ⟨hhead, htail⟩ := List.cons.inj h
        rw [List.find?_cons, List.find?_cons, accepts_eq hhead count]
        split
        · exact congrArg some hhead
        · exact ih htail
  unfold choose
  rw [Option.map_or, Option.map_or, hfind, ← List.head?_map, ← List.head?_map, h]

/-- Parameters keep their forms under a mapping. -/
theorem substituteParameters_yields (mapping : List (String × Ty)) (ps : List Parameter) :
    Inquiry.Yields (Ty.substituteParameters demand mapping ps) fun qs =>
      qs.map (fun p => (p.optional, p.rest)) = ps.map fun p => (p.optional, p.rest) := by
  induction ps with
  | nil => exact .pure rfl
  | cons p ps ih =>
    obtain ⟨name, t, optional, gathers⟩ := p
    exact .bind (.something _) fun _ _ => .bind ih fun _ hqs =>
      .pure (congrArg ((optional, gathers) :: ·) hqs)

/-- An instance of a signature has its outline. -/
theorem instantiate_yields (mapping : List (String × Ty)) (s : Signature) :
    Inquiry.Yields (s.instantiate demand mapping) fun t => t.outline = s.outline := by
  unfold instantiate
  split
  · exact .pure rfl
  · exact .bind (substituteParameters_yields mapping _) fun _ hqs => .bind (.something _)
      fun _ _ => .pure (congrArg (Prod.mk _) hqs)

/-- Signatures keep their outlines when types are put for type parameters. -/
theorem substituteSignatures_yields (mapping : List (String × Ty)) (ss : List Signature) :
    Inquiry.Yields (Ty.substituteSignatures demand mapping ss) fun ts =>
      ts.map outline = ss.map outline := by
  induction ss with
  | nil => exact .pure rfl
  | cons s ss ih =>
    obtain ⟨declaration, parameters, result, old, cell⟩ := s
    refine .bind (substituteParameters_yields mapping parameters) fun _ hps =>
      .bind (.something _) fun _ _ => .bind ih fun _ hss => .pure ?_
    rw [List.map_cons, List.map_cons, hss]
    exact congrArg (fun outlines => (declaration, outlines) :: ss.map outline) hps

end Signature

namespace Inference

/-! ## Repetition -/

/-- What `x` finds from `base` on is related to what `y` finds later. -/
def FindsAlike (files : Source → Prop) (oracle : Oracle) (base : Knowledge) {α : Type}
    (x y : Inquiry α)
    (R : α → α → Prop) : Prop :=
  ∀ k, base.Later k → k.Sound files → ∀ next, ((x.perform oracle).run k).2.Later next →
    next.Sound files →
    R ((x.perform oracle).run k).1 ((y.perform oracle).run next).1

/-- An inquiry keeps what is known and finds something with `φ`. What it finds when nothing else
is being worked out is related to what it finds later. -/
def Repeats (files : Source → Prop) (oracle : Oracle) (base : Knowledge) {α : Type} (x : Inquiry α)
    (φ : α → Store → Prop) (R : α → α → Prop) : Prop :=
  Learns files False oracle base x φ ∧ (base.inProgress = [] → FindsAlike files oracle base x x R)

variable {files : Source → Prop} {oracle : Oracle} {base : Knowledge} {α β : Type}
    {φ : α → Store → Prop}
  {R : α → α → Prop} {χ : β → Store → Prop} {S : β → β → Prop}

namespace FindsAlike

/-- Results that are related are found alike. -/
theorem pure {a b : α} (h : R a b) : FindsAlike files oracle base (Pure.pure a) (Pure.pure b) R :=
  fun _ _ _ _ _ _ => h

/-- Whatever is known, what two inquiries find is related. -/
theorem of_yields {x y : Inquiry α} {P Q : α → Prop} (hx : x.Yields P) (hy : y.Yields Q)
    (h : ∀ a b, P a → Q b → R a b) : FindsAlike files oracle base x y R :=
  fun _ _ _ _ _ _ => h _ _ (hx _ _) (hy _ _)

/-- What lasts is found again. -/
theorem of_lasts {x : Inquiry α} (hx : Learns files True oracle base x φ)
    (hempty : base.inProgress = []) : FindsAlike files oracle base x x (· = ·) :=
  fun k hk hsound next hnext _ =>
    (congrArg Prod.fst ((hx k hk hsound).2.2.2 ⟨trivial, hempty⟩ next hnext)).symm

/-- Functions of what is found. -/
theorem map {x y : Inquiry β} {f g : β → α}
    (h : FindsAlike files oracle base x y fun a b => R (f a) (g b)) :
    FindsAlike files oracle base (do return f (← x)) (do return g (← y)) R := by
  intro k hk hsound next hnext hnsound
  rw [Inquiry.run_bind] at hnext ⊢
  rw [Inquiry.run_bind]
  exact h k hk hsound next hnext hnsound

/-- Inquiries that do the same as two others from `base` on. -/
theorem congr {x x' y y' : Inquiry α}
    (hx : ∀ k, base.Later k → (x.perform oracle).run k = (x'.perform oracle).run k)
    (hy : ∀ k, base.Later k → (y.perform oracle).run k = (y'.perform oracle).run k)
    (hlearns : Learns files False oracle base x' φ) (h : FindsAlike files oracle base x' y' R) :
    FindsAlike files oracle base x y R := by
  intro k hk hsound next hnext hnsound
  rw [hx k hk] at hnext ⊢
  rw [hy next (hk.trans ((hlearns k hk hsound).1.trans hnext))]
  exact h k hk hsound next hnext hnsound

/-- Two inquiries one after the other, which find alike in both of their parts. -/
theorem bind {x y : Inquiry β} {f g : β → Inquiry α} {ψ : β → Store → Prop}
    (hx : Learns files False oracle base x χ) (hy : Learns files False oracle base y ψ)
    (h : FindsAlike files oracle base x y S)
    (hf : ∀ a now, base.Later now → χ a now.store → Learns files False oracle now (f a) φ)
    (hfg : ∀ a b now, base.Later now → χ a now.store → S a b →
      FindsAlike files oracle now (f a) (g b) R) :
    FindsAlike files oracle base (x >>= f) (y >>= g) R := by
  intro k hk hsound next hnext hnsound
  rw [Inquiry.run_bind] at hnext ⊢
  rw [Inquiry.run_bind]
  obtain ⟨hlater, hsound', hχ, -⟩ := hx k hk hsound
  have hbase := Knowledge.Later.trans hk hlater
  obtain ⟨hlater', -⟩ := hf _ _ hbase hχ _ (.refl _) hsound'
  -- What the first parts find stays related until the second parts are done.
  have hknown := Knowledge.Later.trans hlater' hnext
  obtain ⟨hnlater, hnsound', -⟩ := hy next (hbase.trans hknown) hnsound
  exact hfg _ _ _ hbase hχ (h k hk hsound next hknown hnsound) _ (.refl _) hsound' _
    (hnext.trans hnlater) hnsound'

/-- Inquiries that go by the store, the second one the same way by every later store. -/
theorem store {f g : Store → Inquiry α}
    (hsame : ∀ old new : Knowledge, base.Later old → old.Sound files → old.Later new →
      g new.store = g old.store)
    (hf : ∀ now : Knowledge, base.Later now → now.Sound files →
      Learns files False oracle now (f now.store) φ)
    (h : ∀ now : Knowledge, base.Later now → now.Sound files →
      FindsAlike files oracle now (f now.store) (g now.store) R) :
    FindsAlike files oracle base (Inference.store >>= f) (Inference.store >>= g) R := by
  intro k hk hsound next hnext hnsound
  obtain ⟨hlater, -⟩ := hf k hk hsound k (.refl k) hsound
  show R (((f k.store).perform oracle).run k).1 (((g next.store).perform oracle).run next).1
  rw [hsame k next hk hsound (hlater.trans hnext)]
  exact h k hk hsound k (.refl k) hsound next hnext hnsound

end FindsAlike

namespace Repeats

/-- A result is repeated. -/
theorem pure {a : α} (h : ∀ now, base.Later now → φ a now.store) (hR : R a a) :
    Repeats files oracle base (Pure.pure a) φ R :=
  ⟨.pure h, fun _ => .pure hR⟩

/-- Two parts are repeated if both are. -/
theorem bind {x : Inquiry β} {f : β → Inquiry α} (hx : Repeats files oracle base x χ S)
    (hf : ∀ a now, base.Later now → χ a now.store → Learns files False oracle now (f a) φ)
    (hff : ∀ a b now, base.Later now → now.inProgress = [] → χ a now.store → S a b →
      FindsAlike files oracle now (f a) (f b) R) : Repeats files oracle base (x >>= f) φ R :=
  ⟨.bind hx.1 hf, fun hempty => .bind hx.1 hx.1 (hx.2 hempty) hf fun a b now hnow hχ hab =>
    hff a b now hnow (hnow.inProgress_eq.trans hempty) hχ hab⟩

/-- An inquiry that repeats, followed by one whose answers are like what the first one finds. -/
theorem bindYields {x : Inquiry β} {f : β → Inquiry α} {P : β → α → Prop}
    (hx : Repeats files oracle base x χ S)
    (hf : ∀ a now, base.Later now → χ a now.store → Learns files False oracle now (f a) φ)
    (hyields : ∀ a, (f a).Yields (P a)) (hR : ∀ a b c d, S a b → P a c → P b d → R c d) :
    Repeats files oracle base (x >>= f) φ R :=
  bind hx hf fun a b _ _ _ _ hab =>
    .of_yields (hyields a) (hyields b) fun c d hc hd => hR a b c d hab hc hd

/-- An inquiry whose answer lasts, followed by one that repeats. -/
theorem bindLasting {x : Inquiry β} {f : β → Inquiry α} (hx : Learns files True oracle base x χ)
    (hf : ∀ a now, base.Later now → χ a now.store → Repeats files oracle now (f a) φ R) :
    Repeats files oracle base (x >>= f) φ R :=
  have hx' : Repeats files oracle base x χ (· = ·) :=
    ⟨hx.imp fun h => h.1.elim, .of_lasts hx⟩
  bind hx' (fun a now hnow hχ => (hf a now hnow hχ).1) fun a _ now hnow hempty hχ hab =>
    hab ▸ (hf a now hnow hχ).2 hempty

/-- An inquiry that goes by the store repeats if it goes the same way by every later one. -/
theorem store {f : Store → Inquiry α}
    (hsame : ∀ old new : Knowledge, base.Later old → old.Sound files → old.Later new →
      f new.store = f old.store)
    (hf : ∀ now : Knowledge, base.Later now → now.Sound files →
      Repeats files oracle now (f now.store) φ R) :
    Repeats files oracle base (Inference.store >>= f) φ R :=
  have hlearns := fun now hnow hsound => (hf now hnow hsound).1
  ⟨.store False.elim hlearns, fun hempty => .store hsame hlearns fun now hnow hsound =>
    (hf now hnow hsound).2 (hnow.inProgress_eq.trans hempty)⟩

/-- An inquiry of which it is known beforehand what its answers are like. -/
theorem of_yields {x : Inquiry α} {P : α → Prop} (hx : Learns files False oracle base x φ)
    (h : x.Yields P) (hR : ∀ a b, P a → P b → R a b) : Repeats files oracle base x φ R :=
  ⟨hx, fun _ => .of_yields h h hR⟩

end Repeats

/-- A store holds what signatures mention, and their constructs come from `files`. -/
def AllWithin (files : Source → Prop) (signatures : List Signature) (st : Store) : Prop :=
  ∀ s ∈ signatures, s.Within files st

/-- Signatures within a store are within larger ones. -/
theorem AllWithin.mono {signatures : List Signature} {old new : Store}
    (h : AllWithin files signatures old) (hle : old.NoSmaller new) :
    AllWithin files signatures new :=
  fun s hs => (h s hs).mono hle

/-- Lists of signatures with the same outlines. -/
def SameOutlines (first later : List Signature) : Prop :=
  first.map Signature.outline = later.map Signature.outline

/-- Of two lists with the same outlines both are empty, or none. -/
theorem SameOutlines.isEmpty_eq {first later : List Signature} (h : SameOutlines first later) :
    first.isEmpty = later.isEmpty := by
  rw [← List.isEmpty_map (f := Signature.outline), h, List.isEmpty_map]

/-- Signatures are the same, or there are none. -/
theorem Repeats.signatures {signatures : List Signature}
    (h : AllWithin files signatures base.store) :
    Repeats files oracle base (Pure.pure signatures) (AllWithin files) SameOutlines :=
  .pure (fun _ hnow => h.mono (Knowledge.Later.noSmaller hnow)) rfl

/-- Signatures that are found one after the other. -/
theorem Learns.signatures {again : Prop} {f : β → Inquiry Signature} {l : List β}
    (h : ∀ now, base.Later now → ∀ b ∈ l,
      Learns files again oracle now (f b) fun s st => s.Within files st) :
    Learns files again oracle base (l.mapM f) (AllWithin files) :=
  .mapM (fun _ _ _ hle hs => hs.mono hle) h

/-- Signatures with the same outlines are found one after the other in two ways. -/
theorem FindsAlike.mapM {f g : β → Inquiry Signature} {l : List β}
    (hf : ∀ now, base.Later now → ∀ b ∈ l,
      Learns files False oracle now (f b) fun s st => s.Within files st)
    (hg : ∀ now, base.Later now → ∀ b ∈ l,
      Learns files False oracle now (g b) fun s st => s.Within files st)
    (h : ∀ now, base.Later now → ∀ b ∈ l,
      FindsAlike files oracle now (f b) (g b) fun s t => s.outline = t.outline) :
    FindsAlike files oracle base (l.mapM f) (l.mapM g) SameOutlines := by
  -- By induction on the list, with each item found in both ways from later knowledge.
  induction l generalizing base with
  | nil => exact .pure rfl
  | cons b rest ih =>
    have hb := List.mem_cons_self (a := b) (l := rest)
    have hf' := fun now hnow c (hc : c ∈ rest) => hf now hnow c (List.mem_cons_of_mem _ hc)
    have hg' := fun now hnow c (hc : c ∈ rest) => hg now hnow c (List.mem_cons_of_mem _ hc)
    rw [List.mapM_cons, List.mapM_cons]
    refine .bind (φ := fun _ _ => True) (hf base (.refl base) b hb) (hg base (.refl base) b hb)
      (h base (.refl base) b hb) (fun s now hnow _ => .map (.weaken (Learns.signatures
        fun next hnext => hf' next (hnow.trans hnext)) fun _ _ _ _ => trivial))
      fun s t now hnow _ hst => .map fun k hk hsound next hnext hnsound => ?_
    have hrest : FindsAlike files oracle now (rest.mapM f) (rest.mapM g) SameOutlines :=
      ih (fun next hnext => hf' next (hnow.trans hnext))
        (fun next hnext => hg' next (hnow.trans hnext))
        fun next hnext c hc => h next (hnow.trans hnext) c (List.mem_cons_of_mem _ hc)
    show s.outline :: _ = t.outline :: _
    rw [hst, hrest k hk hsound next hnext hnsound]

/-- Signatures with the same outlines are found again one after the other. -/
theorem Repeats.mapM {f : β → Inquiry Signature} {l : List β}
    (hf : ∀ now, base.Later now →
      ∀ b ∈ l, Repeats files oracle now (f b) (fun s st => s.Within files st)
      fun s t => s.outline = t.outline) :
    Repeats files oracle base (l.mapM f) (AllWithin files) SameOutlines :=
  have hlearns := fun now hnow b hb => (hf now hnow b hb).1
  ⟨.signatures hlearns, fun hempty => .mapM hlearns hlearns fun now hnow b hb =>
    (hf now hnow b hb).2 (hnow.inProgress_eq.trans hempty)⟩

end Inference

end ScriptGraph
