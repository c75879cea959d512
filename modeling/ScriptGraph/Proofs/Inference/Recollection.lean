import ScriptGraph.Proofs.Inference.Growth

/-!
# Results of signatures are found once

The result of a signature is remembered when it has been found, and whatever is asked afterwards,
it stays remembered. So what a type was shown by is what it is shown by, and showing it again
changes nothing.

- `Knowledge.Recalls`: the results that are remembered are remembered later
- `answer_recollects`: answering questions keeps them, and the result of a signature is found again
- `Inquiry.Settles`: an inquiry that has been carried out finds the same again and changes nothing
- `Knowledge.Shows`: a type is shown by a text, now and later
-/

namespace ScriptGraph.Inference

open Binding Syntax

/-- The results of signatures that are remembered are remembered later. -/
def Knowledge.Recalls (old new : Knowledge) : Prop :=
  ∀ cell t, old.results.find? cell = some t → new.results.find? cell = some t

/-- Knowledge recalls what it knows. -/
theorem Knowledge.Recalls.refl (k : Knowledge) : k.Recalls k :=
  fun _ _ h => h

/-- What is recalled twice is recalled. -/
theorem Knowledge.Recalls.trans {a b c : Knowledge} (hab : a.Recalls b) (hbc : b.Recalls c) :
    a.Recalls c :=
  fun cell t h => hbc cell t (hab cell t h)

/-! ## Keeping the results -/

/-- An action forgets no result. -/
def Recalling {α : Type} (x : StateM Knowledge α) : Prop :=
  ∀ k : Knowledge, k.Recalls (x.run k).2

namespace Recalling

variable {α β : Type}

/-- A result forgets nothing. -/
theorem pure (a : α) : Recalling (Pure.pure a : StateM Knowledge α) :=
  Knowledge.Recalls.refl

/-- Two parts that forget nothing forget nothing one after the other. -/
theorem bind {x : StateM Knowledge β} {f : β → StateM Knowledge α} (hx : Recalling x)
    (hf : ∀ b, Recalling (f b)) : Recalling (x >>= f) :=
  fun k => (hx k).trans (hf _ _)

/-- Looking at the knowledge forgets nothing. -/
theorem get {f : Knowledge → StateM Knowledge α} (h : ∀ k : Knowledge, k.Recalls ((f k).run k).2) :
    Recalling (MonadState.get >>= f) :=
  h

/-- A change that leaves the results alone. -/
theorem modify {f : Knowledge → Knowledge} (h : ∀ k, (f k).results = k.results) :
    Recalling (modify f : StateM Knowledge PUnit) :=
  fun k _ _ hfound => (congrArg (Memo.find? · _) (h k)).trans hfound

/-- Work on the workspace forgets no answer. -/
theorem onWorkspace (action : StateM Workspace α) : Recalling (onWorkspace action) :=
  fun _ _ _ h => h

end Recalling

/-- A step forgets no result if the oracle does not. -/
theorem Step.perform_recalling {oracle : Oracle} (horacle : ∀ q, Recalling (oracle q)) (s : Step) :
    Recalling (s.perform oracle) := by
  -- Results are recorded by the guard alone, never by a step.
  cases s with
  | ask q => exact horacle q
  | store => exact Knowledge.Recalls.refl
  | globalSymbol kinds name => exact Knowledge.Recalls.refl
  | binding s => exact Recalling.onWorkspace _
  | resolveAlias symbol => exact Recalling.onWorkspace _
  | pickDeclaration symbol => exact Recalling.onWorkspace _
  | addSymbol symbol => exact Recalling.onWorkspace _
  | addDeclaration d => exact Recalling.onWorkspace _
  | addToMember member d => exact Recalling.onWorkspace _
  | knownSignature key => exact Knowledge.Recalls.refl
  | recordSignature key s => exact .modify fun _ => rfl
  | knownBases symbol => exact Knowledge.Recalls.refl
  | recordBases symbol bases => exact .modify fun _ => rfl
  | newCell => exact fun _ _ _ h => h

/-- An inquiry forgets no result if the oracle does not. -/
theorem Inquiry.perform_recalling {α : Type} {oracle : Oracle}
    (horacle : ∀ q, Recalling (oracle q)) (x : Inquiry α) : Recalling (x.perform oracle) := by
  induction x with
  | done a => exact .pure a
  | step s next ih => exact .bind (Step.perform_recalling horacle s) ih

/-- The guard forgets no answer. -/
theorem guarded_recalling {key : Key} {compute : StateM Knowledge Ty} (h : Recalling compute) :
    Recalling (guarded key compute) := by
  apply Recalling.get
  intro k
  split
  · exact .refl k
  · split
    · exact .refl k
    · refine Recalling.bind (.modify ?_)
        (fun _ => .bind h fun t => .bind (.modify ?_) fun _ => .pure t) k
      · exact fun _ => rfl
      · exact fun _ => rfl

/-- A result is recorded where there was none before it was worked out. -/
theorem remembered_recalling {s : Signature} {compute : StateM Knowledge Ty}
    (h : Recalling compute) : Recalling (remembered s compute) := by
  apply Recalling.get
  intro k
  split
  · exact .refl k
  · rename_i hnone
    intro cell t hfound
    -- The cell had no result before, so what was found there is another one.
    have hcell : s.cell ≠ cell := by
      rintro rfl
      rw [hnone] at hfound
      exact nomatch hfound
    have hafter := h k cell t hfound
    show (((compute.run k).2.results.record s.cell (compute.run k).1).find? cell) = some t
    rw [Memo.find?_record, if_neg hcell]
    exact hafter

/-- Answering by the rules forgets no answer. -/
theorem answerBy_recalling {oracle : Oracle} (h : ∀ q, Recalling (oracle q)) (q : Query) :
    Recalling (answerBy oracle q) := by
  cases q with
  | expression n => exact guarded_recalling (Inquiry.perform_recalling h _)
  | written n => exact guarded_recalling (Inquiry.perform_recalling h _)
  | declaration id => exact .get fun k => guarded_recalling (Inquiry.perform_recalling h _) k
  | result id => exact .get fun k => guarded_recalling (Inquiry.perform_recalling h _) k
  | signature s => exact remembered_recalling (Inquiry.perform_recalling h _)
  | bases symbol => exact Inquiry.perform_recalling h _

/-- No answer forgets a result, however deep questions nest. -/
theorem answer_recalling (depth : Nat) (q : Query) : Recalling (answer depth q) := by
  induction depth generalizing q with
  | zero => exact .pure _
  | succ depth ih => exact answerBy_recalling ih q

/-! ## Finding the same again -/

/-- Once an inquiry has been carried out, it finds the same again as long as no result is
forgotten, and finds out nothing new. -/
def Inquiry.Settles {α : Type} (oracle : Oracle) (x : Inquiry α) : Prop :=
  ∀ k next, ((x.perform oracle).run k).2.Recalls next →
    (x.perform oracle).run next = (((x.perform oracle).run k).1, next)

/-- An oracle that forgets no result and finds the result of a signature again. -/
structure Oracle.Recollects (oracle : Oracle) : Prop where
  recalling : ∀ q, Recalling (oracle q)
  settles : ∀ s, Inquiry.Settles oracle (resultOf s)

/-- A result is found in the memory after it has been worked out. -/
theorem remembered_settles (s : Signature) (compute : StateM Knowledge Ty) (k next : Knowledge)
    (h : ((remembered s compute).run k).2.Recalls next) :
    (remembered s compute).run next = (((remembered s compute).run k).1, next) := by
  -- Known before or recorded now, the result is there afterwards.
  have hfound : ((remembered s compute).run k).2.results.find? s.cell =
      some ((remembered s compute).run k).1 := by
    rw [remembered, StateT.run_bind, StateT.run_get, pure_bind]
    dsimp only
    split
    · assumption
    · show ((compute.run k).2.results.record s.cell (compute.run k).1).find? s.cell = _
      rw [Memo.find?_record, if_pos rfl]
      rfl
  have hnext := h _ _ hfound
  generalize ((remembered s compute).run k).1 = t at hnext
  rw [remembered, StateT.run_bind, StateT.run_get, pure_bind]
  dsimp only
  rw [hnext]
  rfl

/-- The answers of the rules forget no result and find the result of a signature again. -/
theorem answer_recollects (depth : Nat) : Oracle.Recollects (answer depth) where
  recalling := answer_recalling depth
  settles s := by
    cases depth with
    | zero => exact fun _ _ _ => rfl
    | succ depth => exact remembered_settles s _

namespace Inquiry.Settles

variable {α β : Type} {oracle : Oracle}

/-- A result is settled. -/
theorem pure (a : α) : Settles oracle (Pure.pure a : Inquiry α) :=
  fun _ _ _ => rfl

/-- Two parts that settle do so one after the other. -/
theorem bind (horacle : oracle.Recollects) {x : Inquiry β} {f : β → Inquiry α}
    (hx : Settles oracle x) (hf : ∀ b, Settles oracle (f b)) : Settles oracle (x >>= f) := by
  intro k next h
  rw [run_bind] at h
  have hmid := Inquiry.perform_recalling horacle.recalling (f ((x.perform oracle).run k).1)
    ((x.perform oracle).run k).2
  rw [run_bind, run_bind, hx k next (hmid.trans h)]
  exact hf _ _ next h

/-- A function of what settles is settled. -/
theorem map (horacle : oracle.Recollects) {x : Inquiry β} {f : β → α} (hx : Settles oracle x) :
    Settles oracle (f <$> x) := by
  rw [map_eq_pure_bind]
  exact bind horacle hx fun b => pure _

/-- What settles for each item of a list settles for the list. -/
theorem mapM (horacle : oracle.Recollects) {f : β → Inquiry α} (h : ∀ b, Settles oracle (f b))
    (l : List β) : Settles oracle (l.mapM f) := by
  induction l with
  | nil => exact pure []
  | cons b rest ih =>
    rw [List.mapM_cons]
    exact bind horacle (h b) fun a => bind horacle ih fun rest => pure _

end Inquiry.Settles

/-! ## Texts -/

section Texts

variable {oracle : Oracle} (horacle : oracle.Recollects)
include horacle

/-- The text of parameters settles if the texts of their types do. -/
theorem parametersText_settles {typeText : Ty → Inquiry String}
    (h : ∀ t, (typeText t).Settles oracle) (s : Signature) :
    (Ty.parametersText typeText s).Settles oracle :=
  .map horacle (.mapM horacle (fun p : Parameter => .map horacle (h p.type)) _)

/-- A type that has been shown is shown by the same text again. -/
theorem textFrom_settles (levels : Nat) (t : Ty) :
    Inquiry.Settles oracle (t.textFrom demand levels) := by
  induction levels generalizing t with
  | zero => exact .pure _
  | succ levels ih =>
    -- A signature is shown with its parameters and its result.
    have hsignature : ∀ s : Signature, ∀ shown : String → String → String,
      Inquiry.Settles oracle (do
        let parameters ← Ty.parametersText (Ty.textFrom demand levels) s
        let result ← Ty.textFrom demand levels (← resultOf s)
        return shown parameters result) := fun s shown =>
      .bind horacle (parametersText_settles horacle ih s) fun _ =>
        .bind horacle (horacle.settles s) fun _ => .map horacle (ih _)
    cases t with
    | intrinsic i => exact .pure _
    | object e arguments =>
      cases arguments with
      | nil => exact .pure _
      | cons a rest => exact .map horacle (.mapM horacle ih _)
    | static e =>
      unfold Ty.textFrom
      dsimp only
      split <;> exact .pure _
    | array element e =>
      apply Inquiry.Settles.bind horacle (ih element)
      intro shown
      -- With parentheses or without, the text follows from that of the element.
      split <;> exact .pure _
    | tuple elements e => exact .map horacle (.mapM horacle ih _)
    | union members => exact .map horacle (.mapM horacle ih _)
    | parameter name => exact .pure _
    | text spelling => exact .pure _
    | literal members types =>
      cases types with
      | nil => exact .pure _
      | cons a rest =>
        exact .map horacle (.mapM horacle (fun p : String × Ty => .map horacle (ih p.2)) _)
    | function signatures e =>
      have hlist := fun s => hsignature s fun parameters result =>
        "(" ++ parameters ++ "): " ++ result ++ ";"
      -- No signature, one that is shown as an arrow, or several that are listed.
      rcases signatures with _ | ⟨s, _ | ⟨s', rest⟩⟩
      · exact .map horacle (.mapM horacle hlist _)
      · exact hsignature s _
      · exact .map horacle (.mapM horacle hlist _)
    | unspecified => exact .pure _

end Texts

/-- The text of a type. -/
abbrev textOf (t : Ty) : Inquiry String :=
  t.display demand

/-- A type is shown by a text, now and as long as no result is forgotten, without anything new
being found out. -/
def Knowledge.Shows (oracle : Oracle) (k : Knowledge) (t : Ty) (text : String) : Prop :=
  ∀ next, k.Recalls next → ((textOf t).perform oracle).run next = (text, next)

namespace Knowledge.Shows

variable {oracle : Oracle} {k next : Knowledge} {t : Ty} {text text' : String}

/-- A type that is shown is shown by what it has been shown by. -/
theorem of_display (horacle : oracle.Recollects) (t : Ty) (k : Knowledge) :
    (((textOf t).perform oracle).run k).2.Shows oracle t
      (((textOf t).perform oracle).run k).1 :=
  textFrom_settles horacle _ t k

/-- A text that is shown stays the text of the type. -/
theorem mono (h : k.Shows oracle t text) (hle : k.Recalls next) : next.Shows oracle t text :=
  fun last hlast => h last (hle.trans hlast)

/-- What is shown is shown again without any change. -/
theorem run (h : k.Shows oracle t text) : ((textOf t).perform oracle).run k = (text, k) :=
  h k (.refl k)

/-- A type is shown by one text. -/
theorem unique (h : k.Shows oracle t text) (h' : k.Shows oracle t text') : text = text' :=
  congrArg Prod.fst (h.run.symm.trans h'.run)

end Knowledge.Shows

end ScriptGraph.Inference
