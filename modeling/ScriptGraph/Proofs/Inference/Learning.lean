import Mathlib.Data.List.Forall2
import ScriptGraph.Proofs.Inference.Parameters
import ScriptGraph.Proofs.Types.Within
import ScriptGraph.Proofs.Workspace.Stability

/-!
# Knowledge evolves

Answers are remembered once and never exchanged. `Knowledge.Later` states what a later knowledge
keeps of an earlier one, `Knowledge.Sound` what is true of every knowledge, and `Learns` what an
inquiry does to it. A rule may assume that the oracle which answers its questions learns in the
same way; `Oracle.Learns` states this.

- `Knowledge.Later`, `Knowledge.Sound`
- `Learns`: an inquiry keeps what is known, its answer mentions what is there, and lasts
- `Learns.ask`, `Learns.store`, ...: the elementary steps
-/

namespace ScriptGraph.Inference

open Binding Syntax

/-! ## Later and sound knowledge -/

/-- The store of the workspace. -/
abbrev Knowledge.store (k : Knowledge) : Store :=
  k.workspace.store

/-- What a later knowledge keeps of an earlier one. New answers are to questions that had none and
were not being worked out. -/
structure Knowledge.Later (old new : Knowledge) : Prop where
  workspace : old.workspace.Later new.workspace
  inProgress_eq : new.inProgress = old.inProgress
  answers : ∃ added, new.answers.entries = added ++ old.answers.entries ∧
    ∀ e ∈ added, e.1 ∉ old.inProgress ∧ old.answers.find? e.1 = none
  signatures : ∀ key s, old.signatures.find? key = some s → new.signatures.find? key = some s
  bases : ∀ symbol types, old.bases.find? symbol = some types →
    new.bases.find? symbol = some types
  results : ∀ cell t, old.results.find? cell = some t → new.results.find? cell = some t

/-- A signature belongs to a declaration that stands at a construct, and has its parameters. -/
def DeclaredAt (st : Store) (key : NodeKey) (s : Signature) : Prop :=
  ∃ d, s.declaration = some d ∧ d.index < st.declarations.size ∧ (st.declaration d).key = key ∧
    formsOf s.parameters = parameterForms (st.declaration d).node

/-- What has been declared stays where it is. -/
theorem DeclaredAt.mono {old new : Store} {key : NodeKey} {s : Signature}
    (h : DeclaredAt old key s) (hle : old.NoSmaller new)
    (hnode : ∀ id : DeclarationId, id.index < old.declarations.size →
      (new.declaration id).node = (old.declaration id).node) : DeclaredAt new key s := by
  obtain ⟨d, hd, hlt, hkey, hforms⟩ := h
  have hsame := hnode d hlt
  exact ⟨d, hd, hle.declaration_lt hlt, (congrArg Node.key hsame).trans hkey,
    hsame ▸ hforms⟩

/-- What is true of every knowledge: each question has been answered once, whatever is remembered
mentions what is there, and a signature is remembered under the construct that declares it.
Constructs come from `files`. -/
structure Knowledge.Sound (files : Source → Prop) (k : Knowledge) : Prop where
  workspace : k.workspace.Sound
  declares : k.workspace.DeclaresIn files
  distinct : (k.answers.entries.map (·.1)).Nodup
  answers : ∀ e ∈ k.answers.entries, e.2.Within files k.store
  signatures : ∀ e ∈ k.signatures.entries, Signature.Within files k.store e.2
  declared : ∀ e ∈ k.signatures.entries, DeclaredAt k.store e.1 e.2
  bases : ∀ e ∈ k.bases.entries, ∀ t ∈ e.2, t.Within files k.store
  results : ∀ e ∈ k.results.entries, e.2.Within files k.store

namespace Knowledge

variable {files : Source → Prop} {a b c k old new : Knowledge}

/-- Knowledge is a later state of itself. -/
theorem Later.refl (k : Knowledge) : k.Later k :=
  ⟨.refl _, rfl, ⟨[], rfl, fun _ he => absurd he List.not_mem_nil⟩, fun _ _ h => h,
    fun _ _ h => h, fun _ _ h => h⟩

/-- An answer that is known stays the one that is known. -/
theorem Later.find?_answers (h : old.Later new) {key : Key} {t : Ty}
    (hkey : old.answers.find? key = some t) : new.answers.find? key = some t := by
  obtain ⟨added, hentries, hadded⟩ := h.answers
  have hnone : added.find? (fun e => decide (e.1 = key)) = none :=
    List.find?_eq_none.mpr fun e he hk => by
      have hfree := (hadded e he).2
      rw [of_decide_eq_true hk, hkey] at hfree
      exact nomatch hfree
  rw [Memo.find?, hentries, List.find?_append, hnone]
  exact hkey

/-- Later states of later states are later. -/
theorem Later.trans (hab : a.Later b) (hbc : b.Later c) : a.Later c where
  workspace := hab.workspace.trans hbc.workspace
  inProgress_eq := hbc.inProgress_eq.trans hab.inProgress_eq
  answers := by
    obtain ⟨first, hfirst, hfirst'⟩ := hab.answers
    obtain ⟨second, hsecond, hsecond'⟩ := hbc.answers
    -- Answers are added in front, each of them to a question that had none.
    refine ⟨second ++ first, by rw [hsecond, hfirst, List.append_assoc], fun e he => ?_⟩
    rcases List.mem_append.mp he with he | he
    · obtain ⟨hprogress, hnone⟩ := hsecond' e he
      refine ⟨hab.inProgress_eq ▸ hprogress, Memo.find?_eq_none.mpr fun d hd => ?_⟩
      exact Memo.find?_eq_none.mp hnone d (hfirst ▸ List.mem_append_right _ hd)
    · exact hfirst' e he
  signatures key s h := hbc.signatures key s (hab.signatures key s h)
  bases symbol types h := hbc.bases symbol types (hab.bases symbol types h)
  results cell t h := hbc.results cell t (hab.results cell t h)

/-- Later knowledge has no smaller store. -/
theorem Later.noSmaller (h : old.Later new) : old.store.NoSmaller new.store :=
  h.workspace.store.toNoSmaller

/-- A known symbol stays known. -/
theorem Later.symbol_lt (h : old.Later new) {id : SymbolId}
    (hid : id.index < old.store.symbols.size) : id.index < new.store.symbols.size :=
  h.noSmaller.symbol_lt hid

/-- A known declaration stays known. -/
theorem Later.declaration_lt (h : old.Later new) {id : DeclarationId}
    (hid : id.index < old.store.declarations.size) : id.index < new.store.declarations.size :=
  h.noSmaller.declaration_lt hid

/-- What a store holds of a binding, a later one holds. -/
theorem Later.binding (h : old.Later new) {b : FileBinding} (hb : b.Within old.store) :
    b.Within new.store :=
  hb.mono h.noSmaller fun id hid => (h.workspace.store.declaration_became id hid).node_eq

instance : Evolving Knowledge :=
  ⟨Later, .refl, .trans⟩

/-- A later workspace makes later knowledge. -/
theorem later_workspace {w : Workspace} (h : k.workspace.Later w) :
    k.Later { k with workspace := w } :=
  { Later.refl k with workspace := h }

/-- A later store makes later knowledge. -/
theorem later_store {next : Store} (h : k.store.Later next) :
    k.Later { k with workspace := { k.workspace with store := next } } :=
  later_workspace { Workspace.Later.refl k.workspace with store := h }

/-- Knowledge stays sound about a sound workspace with no smaller store, in which the declarations
stand where they stood. -/
theorem Sound.withWorkspace (h : k.Sound files) {w : Workspace} (hw : w.Sound)
    (hfiles : w.DeclaresIn files) (hle : k.store.NoSmaller w.store)
    (hnode : ∀ id : DeclarationId, id.index < k.store.declarations.size →
      (w.store.declaration id).node = (k.store.declaration id).node) :
    Sound files { k with workspace := w } where
  workspace := hw
  declares := hfiles
  distinct := h.distinct
  answers e he := (h.answers e he).mono hle
  signatures e he := (h.signatures e he).mono hle
  declared e he := (h.declared e he).mono hle hnode
  bases e he t ht := (h.bases e he t ht).mono hle
  results e he := (h.results e he).mono hle

/-- The knowledge about a sound workspace before anything has been asked. -/
theorem ofWorkspace_sound {w : Workspace} (h : w.Sound) (hfiles : w.DeclaresIn files) :
    (ofWorkspace w).Sound files where
  workspace := h
  declares := hfiles
  distinct := List.Pairwise.nil
  answers _ he := absurd he List.not_mem_nil
  signatures _ he := absurd he List.not_mem_nil
  declared _ he := absurd he List.not_mem_nil
  bases _ he := absurd he List.not_mem_nil
  results _ he := absurd he List.not_mem_nil

end Knowledge

/-! ## Inquiries -/

/-- What a question mentions is in a store, and its constructs come from `files`. -/
def Query.Within (files : Source → Prop) (st : Store) : Query → Prop
  | .expression n | .written n => n.From files
  | .declaration id | .result id => id.index < st.declarations.size
  | .signature s => Signature.Within files st s
  | .bases _ => True

/-- What an answer mentions is in a store, and its constructs come from `files`. -/
def Query.Answered (files : Source → Prop) (st : Store) : (q : Query) → q.Answer → Prop
  | .expression _, t | .written _, t | .declaration _, t | .result _, t | .signature _, t =>
    Ty.Within files st t
  | .bases _, types => ∀ t ∈ types, Ty.Within files st t

/-- The oracle keeps what is known. What it answers when nothing else is being worked out lasts. -/
def Oracle.Learns (files : Source → Prop) (oracle : Oracle) : Prop :=
  ∀ (base : Knowledge) (q : Query), q.Within files base.store →
    Lasts (Knowledge.Sound files) (base.inProgress = []) base (oracle q) fun a k =>
      q.Answered files k.store a

/-- An inquiry keeps what is known and finds something with `φ`. If `again` holds, what it finds
when nothing else is being worked out lasts. -/
def Learns (files : Source → Prop) (again : Prop) (oracle : Oracle) (base : Knowledge) {α : Type}
    (x : Inquiry α)
    (φ : α → Store → Prop) : Prop :=
  Lasts (Knowledge.Sound files) (again ∧ base.inProgress = []) base
    (x.perform oracle) fun a k => φ a k.store

variable {files : Source → Prop} {again : Prop} {oracle : Oracle} {base : Knowledge}
  {α β : Type}

/-- Work on the workspace lasts as it does there. -/
theorem onWorkspace_lasts {action : StateM Workspace α} {φ : α → Workspace → Prop}
    (hgrown : ∀ w : Workspace, w.Coherent → w.Grown (action.run w).2)
    (h : Lasts Workspace.Sound again base.workspace action φ) :
    Lasts (Knowledge.Sound files) again base (onWorkspace action) fun a k => φ a k.workspace := by
  intro k hk hsound
  obtain ⟨hlater, hsound', hφ, hagain⟩ := h k.workspace hk.workspace hsound.workspace
  refine ⟨Knowledge.later_workspace hlater,
    hsound.withWorkspace hsound' (hsound.declares.grown (hgrown _ hsound.workspace.coherent))
      hlater.store.toNoSmaller fun id hid => (hlater.store.declaration_became id hid).node_eq, hφ,
        fun ha next hnext => ?_⟩
  show ((action.run next.workspace).1, { next with workspace := (action.run next.workspace).2 }) = _
  rw [hagain ha next.workspace hnext.workspace]
  rfl

/-- What every item of the second of two lists has by its partner in the first one. -/
theorem forall_mem_right {R : β → α → Prop} {P : α → Prop} {bs : List β} {as : List α}
    (h : List.Forall₂ R bs as) (hP : ∀ b a, R b a → P a) : ∀ a ∈ as, P a := by
  induction h with
  | nil => exact nofun
  | cons hhead _ ih => exact List.forall_mem_cons.mpr ⟨hP _ _ hhead, ih⟩

namespace Learns

variable {φ ψ : α → Store → Prop}

/-- A result is learnt at once. -/
theorem pure {a : α} (h : ∀ now, base.Later now → φ a now.store) :
    Learns files again oracle base (Pure.pure a) φ :=
  Lasts.pure h

/-- A type that mentions what is there. -/
theorem type {t : Ty} (h : t.Within files base.store) :
    Learns files again oracle base (Pure.pure t) fun t st => t.Within files st :=
  .pure fun _ hnow => h.mono (Knowledge.Later.noSmaller hnow)

/-- Types that mention what is there. -/
theorem types {ts : List Ty} (h : ∀ t ∈ ts, t.Within files base.store) :
    Learns files again oracle base (Pure.pure ts) fun ts st => ∀ t ∈ ts, t.Within files st :=
  .pure fun _ hnow t ht => (h t ht).mono (Knowledge.Later.noSmaller hnow)

/-- Two parts learn what they learn one after the other. -/
theorem bind {x : Inquiry β} {f : β → Inquiry α} {χ : β → Store → Prop}
    (hx : Learns files again oracle base x χ)
    (hf : ∀ b now, base.Later now → χ b now.store → Learns files again oracle now (f b) φ) :
    Learns files again oracle base (x >>= f) φ := by
  unfold Learns
  rw [Inquiry.perform_bind]
  refine Lasts.bind hx fun b now hnow hχ => ?_
  have h := hf b now hnow hχ
  unfold Learns at h
  rwa [Knowledge.Later.inProgress_eq hnow] at h

/-- A function of what is found. -/
theorem map {x : Inquiry β} {f : β → α} (hx : Learns files again oracle base x fun b => φ (f b)) :
    Learns files again oracle base (do return f (← x)) φ := by
  unfold Learns
  rw [Inquiry.perform_bind]
  exact Lasts.map hx

/-- What follows from what is learnt is learnt. -/
theorem weaken {x : Inquiry α} (hx : Learns files again oracle base x φ)
    (h : ∀ a now, base.Later now → φ a now.store → ψ a now.store) :
    Learns files again oracle base x ψ :=
  Lasts.weaken hx h

/-- What is found is also what the inquiry yields in any case. -/
theorem yields {P : α → Prop} {x : Inquiry α} (hx : Learns files again oracle base x φ)
    (h : x.Yields P) : Learns files again oracle base x fun a st => φ a st ∧ P a :=
  fun k hk hsound =>
    let ⟨hlater, hsound', hφ, hagain⟩ := hx k hk hsound
    ⟨hlater, hsound', ⟨hφ, h oracle k⟩, hagain⟩

/-- The inquiry of one step does what the step does. -/
theorem ofStep {s : Step} {φ : s.Answer → Store → Prop}
    (h : Lasts (Knowledge.Sound files) (again ∧ base.inProgress = []) base
      (s.perform oracle) fun a k => φ a k.store) :
    Learns files again oracle base (.ofStep s) φ :=
  h

/-- An inquiry about each item of a list, which finds something for each of them. -/
theorem mapM_forall₂ {R : β → α → Store → Prop} {f : β → Inquiry α} {l : List β}
    (hmono : ∀ b a (old new : Knowledge), old.Later new → R b a old.store → R b a new.store)
    (h : ∀ now, base.Later now → ∀ b ∈ l, Learns files again oracle now (f b) (R b)) :
    Learns files again oracle base (l.mapM f) fun as st =>
      List.Forall₂ (fun b a => R b a st) l as := by
  -- The list is gone through from the front; what has been found before stays as it was.
  induction l generalizing base with
  | nil => exact .pure fun _ _ => .nil
  | cons b rest ih =>
    rw [List.mapM_cons]
    refine bind (h base (.refl base) b List.mem_cons_self) fun a now hnow ha => bind
      (ih fun next hnext c hc => h next (hnow.trans hnext) c (List.mem_cons_of_mem _ hc))
      fun as next hnext has => .pure fun last hlast => .cons ?_ ?_
    · exact hmono b a now last (hnext.trans hlast) ha
    · exact has.imp fun c d hcd => hmono c d next last hlast hcd

/-- An inquiry about each item of a list. -/
theorem mapM {f : β → Inquiry α} {l : List β}
    (hmono : ∀ a old new, old.NoSmaller new → φ a old → φ a new)
    (h : ∀ now, base.Later now → ∀ b ∈ l, Learns files again oracle now (f b) φ) :
    Learns files again oracle base (l.mapM f) fun as st => ∀ a ∈ as, φ a st := by
  have hall : Learns files again oracle base (l.mapM f) fun as st =>
      List.Forall₂ (fun _ a => φ a st) l as :=
    mapM_forall₂ (fun _ a _ _ hlater => hmono a _ _ hlater.noSmaller) h
  exact hall.weaken fun _ _ _ hfound => forall_mem_right hfound fun _ _ ha => ha

/-- Lists that are found one after the other, taken together. -/
theorem flatten {γ : Type} (P : γ → Store → Prop)
    (hmono : ∀ c old new, old.NoSmaller new → P c old → P c new) {f : β → Inquiry (List γ)}
    {l : List β} (h : ∀ now, base.Later now → ∀ b ∈ l,
      Learns files again oracle now (f b) fun cs st => ∀ c ∈ cs, P c st) :
    Learns files again oracle base (do return (← l.mapM f).flatten) fun cs st => ∀ c ∈ cs, P c st :=
  .map (.weaken (.mapM (fun _ _ _ hle hcs c hc => hmono c _ _ hle (hcs c hc)) h)
    fun _ _ _ hall c hc =>
      let ⟨cs, hcs, hc⟩ := List.mem_flatten.mp hc
      hall cs hcs c hc)

/-- An inquiry that goes through a list, each turn starting from what the one before has found. -/
theorem foldlM {γ : Type} {f : γ → β → Inquiry γ} {l : List β}
    (h : ∀ now, base.Later now → ∀ b ∈ l, ∀ c,
      Learns files again oracle now (f c b) fun _ _ => True) (init : γ) :
    Learns files again oracle base (l.foldlM f init) fun _ _ => True := by
  induction l generalizing base init with
  | nil => exact .pure fun _ _ => trivial
  | cons b rest ih =>
    rw [List.foldlM_cons]
    exact bind (h base (.refl base) b List.mem_cons_self init) fun c now hnow _ =>
      ih (fun next hnext d hd => h next (hnow.trans hnext) d (List.mem_cons_of_mem _ hd)) c

/-- Each item of a list is inquired about in turn, and what is known by then stays known. -/
theorem mapM_visits {f : β → Inquiry α} {l : List β}
    (h : ∀ now, base.Later now → ∀ b ∈ l, Learns files False oracle now (f b) φ) {k : Knowledge}
    (hk : base.Later k) (hsound : k.Sound files) :
    ∀ p ∈ l.zip (((l.mapM f).perform oracle).run k).1, ∃ m : Knowledge, k.Later m ∧ m.Sound files ∧
      p.2 = (((f p.1).perform oracle).run m).1 ∧
        (((f p.1).perform oracle).run m).2.Later (((l.mapM f).perform oracle).run k).2 := by
  -- The first item is visited now; the others are visited on top of what it leaves.
  induction l generalizing base k with
  | nil => exact nofun
  | cons b rest ih =>
    obtain ⟨hlater, hsound', -⟩ := h base (.refl base) b List.mem_cons_self k hk hsound
    have hrest := fun now (hnow : base.Later now) c hc => h now hnow c (List.mem_cons_of_mem b hc)
    have hnext := hk.trans hlater
    have hvisits := ih (fun now hnow => hrest now (hnext.trans hnow)) (.refl _) hsound'
    have hdone : (((f b).perform oracle).run k).2.Later
        (((rest.mapM f).perform oracle).run (((f b).perform oracle).run k).2).2 :=
      (Learns.mapM (φ := fun _ _ => True) (fun _ _ _ _ ha => ha)
        (fun now hnow c hc => .weaken (hrest now (hnext.trans hnow) c hc) fun _ _ _ _ => trivial)
          _ (.refl _) hsound').1
    rw [List.mapM_cons, Inquiry.run_bind, Inquiry.run_bind]
    intro p hp
    rcases List.mem_cons.mp hp with rfl | hp
    · exact ⟨k, .refl k, hsound, rfl, hdone⟩
    · obtain ⟨m, hm, hmsound, hfound, hkept⟩ := hvisits p hp
      exact ⟨m, Knowledge.Later.trans hlater hm, hmsound, hfound, hkept⟩

end Learns

/-- An inquiry finds this from some knowledge on, and changes nothing. -/
def Knowledge.Knows (oracle : Oracle) (k : Knowledge) (x : Inquiry α) (a : α) : Prop :=
  ∀ next, k.Later next → (x.perform oracle).run next = (a, next)

namespace Knowledge.Knows

variable {k next : Knowledge} {x : Inquiry α} {a : α}

/-- What is known stays known. -/
theorem later (h : k.Knows oracle x a) (hnext : k.Later next) : next.Knows oracle x a :=
  fun _ hlast => h _ (hnext.trans hlast)

/-- What is known is what the inquiry finds. -/
theorem eq (h : k.Knows oracle x a) : ((x.perform oracle).run k).1 = a :=
  congrArg Prod.fst (h k (.refl k))

/-- What is known first need not be found. -/
theorem run_bind (h : k.Knows oracle x a) {f : α → Inquiry β} (hnext : k.Later next) :
    (((x >>= f)).perform oracle).run next = ((f a).perform oracle).run next := by
  rw [Inquiry.run_bind, h next hnext]

end Knowledge.Knows

/-- An inquiry in two parts ensures what its parts ensure one after the other. -/
theorem ensures_bind {P : Knowledge → Prop} {R : β → Knowledge → Prop} {Q : α → Knowledge → Prop}
    {x : Inquiry β} {f : β → Inquiry α} (hx : Ensures P (x.perform oracle) R)
    (hf : ∀ b, Ensures (R b) ((f b).perform oracle) Q) :
    Ensures P ((x >>= f).perform oracle) Q := by
  rw [Inquiry.perform_bind]
  exact .bind hx hf

/-- What an inquiry ensures that goes through a list may depend on the items that have been gone
through. -/
theorem ensures_forIn_from {γ : Type} {P : List β → γ → Knowledge → Prop} {l : List β}
    {f : β → γ → Inquiry (ForInStep γ)}
    (h : ∀ gone, ∀ b ∈ l, ∀ c, Ensures (P gone c) ((f b c).perform oracle)
      fun turn k => ∃ c', turn = .yield c' ∧ P (gone ++ [b]) c' k) (gone : List β) (init : γ) :
    Ensures (P gone init) ((forIn l init f).perform oracle) (P (gone ++ l)) := by
  induction l generalizing gone init with
  | nil => exact .pure fun _ hk => (List.append_nil gone).symm ▸ hk
  | cons b rest ih =>
    rw [List.forIn_cons, List.append_cons gone b rest]
    refine ensures_bind (h gone b List.mem_cons_self init) fun turn k ⟨c, hturn, hk⟩ => ?_
    rw [hturn]
    exact ih (fun gone d hd => h gone d (List.mem_cons_of_mem _ hd)) (gone ++ [b]) c k hk

/-- An inquiry that goes through a list ensures what each of its turns does. -/
theorem ensures_forIn {γ : Type} {P : γ → Knowledge → Prop} {l : List β}
    {f : β → γ → Inquiry (ForInStep γ)}
    (h : ∀ b ∈ l, ∀ c, Ensures (P c) ((f b c).perform oracle)
      fun turn k => ∃ c', turn = .yield c' ∧ P c' k) (init : γ) :
    Ensures (P init) ((forIn l init f).perform oracle) P :=
  ensures_forIn_from (P := fun _ => P) (fun _ => h) [] init

/-- What an inquiry does to knowledge that is later than `start`. -/
theorem Learns.ensures {start : Knowledge} {x : Inquiry α} {φ : α → Store → Prop}
    (h : ∀ now, start.Later now → Learns files False oracle now x φ) :
    Ensures (fun k => start.Later k ∧ k.Sound files) (x.perform oracle)
      fun a k => (start.Later k ∧ k.Sound files) ∧ φ a k.store := fun k hk =>
  let ⟨hlater, hsound, hφ, _⟩ := h k hk.1 k (.refl k) hk.2
  ⟨⟨hk.1.trans hlater, hsound⟩, hφ⟩

/-- The first construct inside another one is of its file. -/
theorem from_firstConstruct {n m : Node} (hn : n.From files) (hm : firstConstruct n = some m) :
    m.From files :=
  hn.constructs (List.mem_of_head? hm)

/-! ## Steps -/

section Questions

variable (horacle : oracle.Learns files)
include horacle

/-- An answer of the oracle is within the files. -/
theorem ask_learns {q : Query} (hq : q.Within files base.store) :
    Learns files again oracle base (ask q) fun a st => q.Answered files st a :=
  (horacle base q hq).imp And.right

/-- The type of an expression lasts. -/
theorem typeOf_learns {n : Node} (hn : n.From files) :
    Learns files again oracle base (typeOf n) fun t st => t.Within files st :=
  ask_learns horacle (q := .expression n) hn

/-- The type that is known of an expression mentions what is there. -/
theorem within_of_knows {n : Node} (hn : n.From files) {k : Knowledge} (hsound : k.Sound files)
    {t : Ty} (h : k.Knows oracle (typeOf n) t) : t.Within files k.store := by
  have hlearns : Learns files False oracle k (typeOf n) _ := typeOf_learns horacle hn
  obtain ⟨-, -, ht, -⟩ := hlearns k (.refl k) hsound
  rwa [h k (.refl k)] at ht

/-- The type that is written lasts. -/
theorem typeOfSyntax_learns {n : Node} (hn : n.From files) :
    Learns files again oracle base (typeOfSyntax n) fun t st => t.Within files st :=
  ask_learns horacle (q := .written n) hn

/-- The type of a declaration lasts. -/
theorem typeOfDeclaration_learns {d : DeclarationId} (hd : d.index < base.store.declarations.size) :
    Learns files again oracle base (typeOfDeclaration d) fun t st => t.Within files st :=
  ask_learns horacle (q := .declaration d) hd

/-- The result of a signature lasts. -/
theorem resultOf_learns {s : Signature} (hs : s.Within files base.store) :
    Learns files again oracle base (resultOf s) fun t st => t.Within files st :=
  ask_learns horacle (q := .signature s) hs

/-- What a symbol extends lasts. -/
theorem basesOf_learns (symbol : SymbolId) :
    Learns files again oracle base (basesOf symbol) fun types st =>
      ∀ t ∈ types, t.Within files st :=
  ask_learns horacle (q := .bases symbol) trivial

/-- The type of an expression that may be missing lasts. -/
theorem typeOf?_learns {n : Option Node} (hn : ∀ m, n = some m → m.From files) :
    Learns files again oracle base (typeOf? n) fun t st => t.Within files st := by
  cases n with
  | none => exact .pure fun _ _ => Ty.any_within
  | some n => exact typeOf_learns horacle (hn n rfl)

/-- The type of syntax that may be missing lasts. -/
theorem typeOfSyntax?_learns {n : Option Node} (hn : ∀ m, n = some m → m.From files) :
    Learns files again oracle base (typeOfSyntax? n) fun t st => t.Within files st := by
  cases n with
  | none => exact .pure fun _ _ => Ty.any_within
  | some n => exact typeOfSyntax_learns horacle (hn n rfl)

end Questions

/-- An inquiry that goes by the store lasts if it goes the same way by every later one. -/
theorem Learns.store {f : Store → Inquiry α} {φ : α → Store → Prop}
    (hsame : again → ∀ old new : Knowledge, base.Later old → old.Sound files → old.Later new →
      f new.store = f old.store)
    (hf : ∀ now : Knowledge, base.Later now → now.Sound files →
      Learns files again oracle now (f now.store) φ) :
    Learns files again oracle base (Inference.store >>= f) φ := by
  unfold Learns
  rw [Inquiry.perform_bind]
  refine Lasts.get (f := fun k => (f k.store).perform oracle) (fun h old new hold hsound hnew => ?_)
    fun now hnow hsound => ?_
  · exact congrArg (·.perform oracle) (hsame h.1 old new hold hsound hnew)
  · have h := hf now hnow hsound
    unfold Learns at h
    rwa [Knowledge.Later.inProgress_eq hnow] at h

/-- The binding of a file lasts. -/
theorem bindingOf_learns (n : Node) :
    Learns files again oracle base (bindingOf n) fun b st => b.Within st :=
  .ofStep (onWorkspace_lasts (fun w hw => (Workspace.bindingFor_grown w (.refl hw)).1)
    Workspace.bindingFor_lasts)

/-- What is no alias stands for itself. -/
theorem run_resolveAlias_of_not_alias (oracle : Oracle) {k : Knowledge} {x : SymbolId}
    (h : k.store.isAlias x = false) : ((resolveAlias x).perform oracle).run k = (some x, k) := by
  have hrun : (Workspace.resolveAlias x).run k.workspace = (some x, k.workspace) :=
    Workspace.run_resolveAliasFrom_of_not_alias h _
  show (((Workspace.resolveAlias x).run k.workspace).1,
    { k with workspace := ((Workspace.resolveAlias x).run k.workspace).2 }) = (some x, k)
  rw [hrun]

/-- The type of a variable is that of the first of its declarations that declares a value. -/
theorem run_typeOfSymbol_of_firstOf (oracle : Oracle) {k : Knowledge} {x : SymbolId}
    {d : DeclarationId} (halias : k.store.isAlias x = false)
    (hfirst : k.store.firstOf DeclarationKind.isValue x = some d) :
    ((typeOfSymbol x).perform oracle).run k = ((typeOfDeclaration d).perform oracle).run k := by
  have hstore : (store.perform oracle).run k = (k.store, k) := rfl
  unfold typeOfSymbol
  rw [Inquiry.run_bind, run_resolveAlias_of_not_alias oracle halias]
  dsimp only
  rw [Inquiry.run_bind, hstore]
  dsimp only
  rw [hfirst]

/-- The end of a chain of aliases lasts. -/
theorem resolveAlias_learns {symbol : SymbolId} (hs : base.workspace.HasSymbol symbol) :
    Learns files again oracle base (resolveAlias symbol)
      fun found st => ∀ target, found = some target → target.index < st.symbols.size :=
  .ofStep (onWorkspace_lasts (fun w hw => Workspace.resolveAlias_grown _ w (.refl hw))
    (Workspace.resolveAlias_lasts hs))

/-- The declaration that is picked lasts. -/
theorem pickDeclaration_learns {symbol : Option SymbolId} (hs : base.workspace.HasFound symbol) :
    Learns files again oracle base (.ofStep (.pickDeclaration symbol))
      fun found st => ∀ d, found = some d → d.index < st.declarations.size :=
  .ofStep (onWorkspace_lasts (fun w hw => Workspace.pickDeclaration_grown _ w (.refl hw))
    (Workspace.pickDeclaration_lasts hs))

/-- A global name lasts. -/
theorem globalSymbol_learns (kinds : DeclarationKind → Bool) (name : String) :
    Learns files again oracle base (.ofStep (.globalSymbol kinds name))
      fun found st => ∀ symbol, found = some symbol → symbol.index < st.symbols.size :=
  .ofStep (.get
    (fun _ _ _ _ hsound hnew =>
      congrArg pure (hnew.workspace.globalSymbol?_eq hsound.workspace _ _))
    fun _ _ hsound => .pure fun _ hk symbol hs =>
      hk.symbol_lt (hsound.workspace.globalSymbol? kinds name symbol hs))

/-- A new cell has nothing remembered under it. -/
theorem newCell_learns : Learns files False oracle base newCell fun _ _ => True :=
  .ofStep fun k _ hsound => ⟨{ Knowledge.Later.refl k with }, { hsound with }, trivial, nofun⟩

/-- A new symbol is added, and nothing else changes. -/
theorem newSymbol_learns {symbol : Symbol} (hs : symbol.Within base.store) :
    Learns files False oracle base (newSymbol symbol)
      fun id st => base.store.symbols.size ≤ id.index ∧ id.index < st.symbols.size := by
  refine .ofStep fun k hk hsound => ?_
  have hlater := k.store.later_addSymbol symbol
  -- The step does not depend on how questions are answered.
  have hgrown := Step.perform_grown (answer_grows 0) (.addSymbol symbol) k
    ⟨.refl k.workspace, hsound.workspace.coherent⟩
  exact ⟨Knowledge.later_store hlater,
    hsound.withWorkspace ⟨hgrown.coherent, hsound.workspace.store.addSymbol (hs.mono hk.noSmaller)⟩
      (hsound.declares.changeStore hsound.declares.source) hlater.toNoSmaller fun _ _ => rfl,
    ⟨hk.noSmaller.symbols_le,
      Nat.lt_of_lt_of_eq (Nat.lt_succ_self _) (Array.size_push symbol).symm⟩, nofun⟩

/-- A new declaration is added, and nothing else changes. -/
theorem newDeclaration_learns {d : Declaration} (hd : d.Within base.store)
    (hfiles : d.node.From files) :
    Learns files False oracle base (.ofStep (.addDeclaration d))
      fun id st => base.store.declarations.size ≤ id.index ∧
        id.index < st.declarations.size := by
  refine .ofStep fun k hk hsound => ?_
  have hlater := k.store.later_addDeclaration d
  have hgrown := Step.perform_grown (answer_grows 0) (.addDeclaration d) k
    ⟨.refl k.workspace, hsound.workspace.coherent⟩
  -- The new declaration is of a file, and the others are those that were there.
  have hsource : ∀ id : DeclarationId, id.index < (k.store.addDeclaration d).2.declarations.size →
      files ((k.store.addDeclaration d).2.declaration id).source := fun id hid => by
    rw [Store.declaration_addDeclaration]
    split
    · exact hfiles
    · rename_i hne
      have hlt : id.index < k.store.declarations.size + 1 :=
        Nat.lt_of_lt_of_eq hid (Array.size_push d)
      exact hsound.declares.source id (Nat.lt_of_le_of_ne (Nat.le_of_lt_succ hlt) hne)
  exact ⟨Knowledge.later_store hlater,
    hsound.withWorkspace
      ⟨hgrown.coherent, hsound.workspace.store.addDeclaration (hd.mono hk.noSmaller)⟩
      (hsound.declares.changeStore hsource) hlater.toNoSmaller
      fun id hid => (hlater.declaration_became id hid).node_eq,
    ⟨hk.noSmaller.declarations_le,
      Nat.lt_of_lt_of_eq (Nat.lt_succ_self _) (Array.size_push d).symm⟩, nofun⟩

end ScriptGraph.Inference
