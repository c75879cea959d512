import ScriptGraph.Proofs.Inference.Requests

/-!
# Answers have a place

The type of a declaration is remembered under the construct that declares it. So an answer under a
construct tells that something has been declared there, and a declaration that stands alone at its
construct is new to all questions when it is added.

- `Knowledge.Placed`: whatever is remembered of a declaration has its place
- `Inquiry.perform_places`, `answer_places`: inquiries keep this
- `Knowledge.Reaches.placed`: whatever has been requested, answers have their places
- `StandsAlone`: a construct has one declaration only, which was new to all questions
-/

namespace ScriptGraph

open Binding Syntax

/-- Outside of a store there is no declaration. -/
theorem Binding.Store.declaration_of_size_le {st : Store} {id : DeclarationId}
    (h : st.declarations.size ≤ id.index) : st.declaration id = default := by
  rw [Store.declaration, Array.getD_eq_getD_getElem?, Array.getElem?_eq_none h]
  rfl

namespace Workspace.RetainedBy

variable {old new : Workspace}

/-- A declaration stays at its construct. -/
theorem declaration_key (h : old.RetainedBy new) {id : DeclarationId}
    (hid : id.index < old.store.declarations.size) :
    (new.store.declaration id).key = (old.store.declaration id).key :=
  congrArg Node.key (Declaration.node_eq_of_detached_eq (h.declaration_eq id hid))

/-- What has been declared at a construct is still there. -/
theorem exists_declaration (h : old.RetainedBy new) {place : NodeKey}
    (hplace : ∃ id, (old.store.declaration id).key = place) :
    ∃ id, (new.store.declaration id).key = place := by
  obtain ⟨id, rfl⟩ := hplace
  by_cases hlt : id.index < old.store.declarations.size
  · exact ⟨id, h.declaration_key hlt⟩
  · -- Outside of a store all declarations are the same.
    have hnew : new.store.declaration ⟨new.store.declarations.size⟩ = default :=
      Store.declaration_of_size_le (Nat.le_refl _)
    exact ⟨_, by rw [hnew, Store.declaration_of_size_le (Nat.not_lt.mp hlt)]⟩

end Workspace.RetainedBy

namespace Inference

/-! ## Places of answers -/

namespace Knowledge

/-- What is remembered or being worked out of a declaration has the construct of a declaration. -/
def Placed (k : Knowledge) : Prop :=
  ∀ place name, k.answers.find? (.declaration place name) ≠ none ∨
    .declaration place name ∈ k.inProgress → ∃ id, (k.store.declaration id).key = place

/-- Knowledge that has grown from what `base` knows, and whose answers have their places. -/
structure GrownPlaced (base : Workspace) (k : Knowledge) : Prop where
  grown : Knowledge.Grown base k
  placed : k.Placed

variable {base : Workspace} {k next : Knowledge}

/-- Nothing else has been answered, and declarations are kept. -/
theorem Placed.keep (h : k.Placed) (hle : k.workspace.RetainedBy next.workspace)
    (hanswers : next.answers = k.answers) (hprogress : next.inProgress = k.inProgress) :
    next.Placed := fun place name hknown => by
  rw [hanswers, hprogress] at hknown
  exact hle.exists_declaration (h place name hknown)

/-- The places of the questions under a key. -/
def HasPlace (w : Workspace) (key : Key) : Prop :=
  ∀ place name, key = .declaration place name → ∃ id, (w.store.declaration id).key = place

/-- Asking a question that has a place leaves answers placed. -/
theorem Placed.asking (h : k.Placed) {key : Key} (hkey : HasPlace k.workspace key) :
    (k.asking key).Placed := fun place name hknown => by
  rcases hknown with hknown | hknown
  · exact h place name (.inl hknown)
  · rcases List.mem_cons.mp hknown with hkey' | hknown
    · exact hkey place name hkey'.symm
    · exact h place name (.inr hknown)

/-- So does remembering its answer. -/
theorem Placed.answered (h : k.Placed) {key : Key} (hkey : HasPlace k.workspace key) (t : Ty) :
    (k.answered key t).Placed := fun place name hknown => by
  rcases hknown with hknown | hknown
  · by_cases hkey' : key = .declaration place name
    · exact hkey place name hkey'
    · refine h place name (.inl ?_)
      rwa [Knowledge.answered, Memo.find?_record, if_neg hkey'] at hknown
  · exact h place name (.inr (List.mem_of_mem_erase hknown))

end Knowledge

open Knowledge

/-- Whatever the oracle is asked, the answers keep their places. -/
def Oracle.Places (oracle : Oracle) : Prop :=
  ∀ base q, Ensures (GrownPlaced base) (oracle q) fun _ => GrownPlaced base

variable {base : Workspace} {oracle : Oracle}

section Inquiries

variable (hgrows : oracle.Grows) (hplaces : oracle.Places)
include hgrows hplaces

/-- Apart from questions, steps answer nothing. -/
theorem Step.perform_places (s : Step) :
    Ensures (GrownPlaced base) (s.perform oracle) fun _ => GrownPlaced base := by
  intro k hk
  have hgrown := Step.perform_grown hgrows s k hk.grown
  have hretained := (Step.perform_grown hgrows s k ⟨.refl k.workspace, hk.grown.coherent⟩).retained
  cases s with
  | ask q => exact hplaces base q k hk
  | _ => exact ⟨hgrown, hk.placed.keep hretained rfl rfl⟩

/-- An inquiry keeps the places of answers, as long as the oracle does. -/
theorem Inquiry.perform_places {α : Type} (inquiry : Inquiry α) :
    Ensures (GrownPlaced base) (inquiry.perform oracle) fun _ => GrownPlaced base := by
  induction inquiry with
  | done a => exact .pure fun _ hk => hk
  | step s next ih => exact .bind (Step.perform_places hgrows hplaces s) ih

end Inquiries

/-- The guard leaves answers placed. -/
theorem guarded_places {key : Key} {compute : StateM Knowledge Ty}
    (h : ∀ base, Ensures (GrownPlaced base) compute fun _ => GrownPlaced base) {k : Knowledge}
    (hk : GrownPlaced base k) (hkey : HasPlace k.workspace key) :
    GrownPlaced base ((guarded key compute).run k).2 := by
  rw [run_guarded]
  split
  · exact hk
  · split
    · exact hk
    -- The question is noted under its key, which has a place, and its answer under the same.
    · have hdone := h k.workspace (k.asking key)
        ⟨⟨.refl _, hk.grown.coherent⟩, hk.placed.asking hkey⟩
      have hplace := fun place name he =>
        hdone.grown.retained.exists_declaration (hkey place name he)
      exact ⟨⟨hk.grown.retained.trans hdone.grown.retained, hdone.grown.coherent⟩,
        hdone.placed.answered hplace _⟩

/-- Remembering results leaves answers placed. -/
theorem remembered_places {s : Signature} {compute : StateM Knowledge Ty}
    (h : Ensures (GrownPlaced base) compute fun _ => GrownPlaced base) :
    Ensures (GrownPlaced base) (remembered s compute) fun _ => GrownPlaced base := by
  refine .get fun known => .of_imp (P := GrownPlaced base) ?_ fun _ hk => hk.1
  split
  · exact .pure fun _ hk => hk
  · exact .bind h fun t => .bind (.modify fun _ hk => ⟨⟨hk.grown.retained, hk.grown.coherent⟩,
      hk.placed⟩) fun _ => .pure fun _ hk => hk

/-- Answering by the rules leaves answers placed. -/
theorem answerBy_places (hgrows : oracle.Grows) (hplaces : oracle.Places) :
    (answerBy oracle).Places := by
  have hrule : ∀ (x : Inquiry Ty) base,
      Ensures (GrownPlaced base) (x.perform oracle) fun _ => GrownPlaced base :=
    fun x _ => Inquiry.perform_places hgrows hplaces x
  intro base q k hk
  -- Only questions about declarations have keys with places.
  cases q with
  | expression n => exact guarded_places (hrule _) hk nofun
  | written n => exact guarded_places (hrule _) hk nofun
  | declaration id =>
    exact guarded_places (hrule _) hk fun place name he => ⟨id, (Key.declaration.inj he).1⟩
  | result id => exact guarded_places (hrule _) hk nofun
  | signature s => exact remembered_places (hrule _ base) k hk
  | bases symbol => exact Inquiry.perform_places hgrows hplaces _ k hk

/-- Answers have their places, however deep questions nest. -/
theorem answer_places (depth : Nat) : Oracle.Places (answer depth) := by
  -- Questions within an answer are answered one level deeper.
  induction depth with
  | zero => exact fun _ _ => .pure fun _ hk => hk
  | succ depth ih => exact answerBy_places (answer_grows depth) ih

namespace Knowledge

variable {k later : Knowledge} {files : Source → Prop} {oracle : Oracle}

/-- Carrying out an inquiry leaves answers placed. -/
theorem Placed.perform (h : k.Placed) (hsound : k.Sound files) (hgrows : oracle.Grows)
    (hplaces : oracle.Places) {α : Type} (x : Inquiry α) : ((x.perform oracle).run k).2.Placed :=
  (Inquiry.perform_places hgrows hplaces x k ⟨⟨.refl _, hsound.workspace.coherent⟩, h⟩).placed

/-- At the start there are no answers. -/
theorem start_placed (settings : Settings) (disk : Disk) (library root : Source) :
    (start settings disk library root).Placed := by
  rintro place name (hanswer | hprogress)
  · exact absurd rfl hanswer
  · exact absurd hprogress List.not_mem_nil

/-- Requests keep the places of answers. -/
theorem Reaches.placed (h : k.Reaches later) (hsound : k.Sound anyFile) (hk : k.Placed) :
    later.Placed := by
  have hconduct : ∀ {α : Type} (x : Inquiry α) (now : Knowledge), now.Sound anyFile → now.Placed →
      (x.conduct.run now).2.Placed := fun x now hsound hnow => by
    rw [run_conduct x (.refl now)]
    exact hnow.perform hsound (answer_grows _) (answer_places _) x
  induction h with
  | refl => exact hk
  -- Each request is an inquiry that is conducted from what is known then.
  | tail hreached hstep ih =>
    have hknown := (Reaches.keeps hreached hsound).2
    obtain ⟨r, -, rfl⟩ := hstep
    cases r with
    | ask q => exact hconduct (ask q) _ hknown ih
    | signatureOfCall call => exact hconduct (resolvedSignature call) _ hknown ih
    | signatureOfConstruction construction =>
      exact hconduct (resolvedConstructSignature construction) _ hknown ih

end Knowledge

/-! ## New declarations -/

/-- One declaration stands at a construct, and no other one does. -/
def StandsAlone (st : Store) (place : NodeKey) : Prop :=
  ∀ c d : DeclarationId, (st.declaration c).key = place → (st.declaration d).key = place → c = d

namespace StandsAlone

variable {old st : Store} {place : NodeKey} {c d : DeclarationId}

/-- What is no declaration of a store is all the same, so it stands nowhere alone. -/
theorem default_ne (h : StandsAlone st place) : (default : Declaration).key ≠ place := by
  intro hdefault
  have hout : ∀ n, st.declarations.size ≤ n → (st.declaration ⟨n⟩).key = place := fun n hn => by
    rwa [Store.declaration_of_size_le hn]
  have hsame := h _ _ (hout _ (Nat.le_refl _)) (hout _ (Nat.le_succ _))
  exact Nat.ne_of_lt (Nat.lt_succ_self _) (congrArg DeclarationId.index hsame)

/-- Whatever stands at the construct in another store is one of its declarations. -/
theorem index_lt (h : StandsAlone st place) (hc : (old.declaration c).key = place) :
    c.index < old.declarations.size := by
  by_contra hle
  rw [Store.declaration_of_size_le (Nat.not_lt.mp hle)] at hc
  exact h.default_ne hc

section Kept

variable (h : StandsAlone st place) (hkept : ∀ id : DeclarationId,
  id.index < old.declarations.size → (st.declaration id).key = (old.declaration id).key)
include h hkept

/-- Before more was declared, no more stood at the construct. -/
theorem earlier : StandsAlone old place := fun c d hc hd =>
  h c d ((hkept c (h.index_lt hc)).trans hc) ((hkept d (h.index_lt hd)).trans hd)

/-- Before a declaration was added that stands alone, none stood at its construct. -/
theorem unplaced (hd : old.declarations.size ≤ d.index) (hplace : (st.declaration d).key = place) :
    ¬ ∃ c, (old.declaration c).key = place := by
  rintro ⟨c, hc⟩
  have hlt := h.index_lt hc
  have hsame := h c d ((hkept c hlt).trans hc) hplace
  exact Nat.not_lt.mpr hd (hsame ▸ hlt)

end Kept

end StandsAlone

/-- Only the declarations of the store have to be looked at. -/
theorem standsAlone_iff {st : Store} {place : NodeKey} :
    StandsAlone st place ↔ (default : Declaration).key ≠ place ∧
      ∀ i < st.declarations.size, (st.declaration ⟨i⟩).key = place →
        ∀ j < st.declarations.size, (st.declaration ⟨j⟩).key = place → i = j := by
  refine ⟨fun h => ⟨h.default_ne, fun i _ hi j _ hj =>
    congrArg DeclarationId.index (h ⟨i⟩ ⟨j⟩ hi hj)⟩, fun ⟨hdefault, h⟩ => ?_⟩
  have hlt : ∀ c : DeclarationId, (st.declaration c).key = place →
      c.index < st.declarations.size := fun c hc => by
    by_contra hle
    rw [Store.declaration_of_size_le (Nat.not_lt.mp hle)] at hc
    exact hdefault hc
  exact fun c d hc hd => congrArg DeclarationId.mk (h c.index (hlt c hc) hc d.index (hlt d hd) hd)

instance (st : Store) (place : NodeKey) : Decidable (StandsAlone st place) :=
  decidable_of_iff _ standsAlone_iff.symm

end Inference

end ScriptGraph
