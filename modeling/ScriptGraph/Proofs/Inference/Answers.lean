import ScriptGraph.Inference.Answers
import ScriptGraph.Proofs.Inference.Expressions

/-!
# Answers are given once

An answer is worked out while its question is in progress, and remembered afterwards. Nothing that
is asked on the way can answer the same question, so each question is answered at most once. An
answer that is given while no question is in progress is remembered and given again ever after.

- `guarded_lasts`: answering under a key
- `answer_learns`: the answers of the rules keep what is known, however deep they nest
-/

namespace ScriptGraph.Inference

open Binding Syntax

variable {files : Source → Prop} {base k : Knowledge}

/-! ## Answering under a key -/

/-- The knowledge while a question is being worked out. -/
def Knowledge.asking (k : Knowledge) (key : Key) : Knowledge :=
  { k with inProgress := key :: k.inProgress }

/-- The knowledge after an answer has been worked out. -/
def Knowledge.answered (k : Knowledge) (key : Key) (t : Ty) : Knowledge :=
  { k with answers := k.answers.record key t, inProgress := k.inProgress.erase key }

/-- The guard answers what is remembered, breaks cycles, and else computes. -/
theorem run_guarded (key : Key) (compute : StateM Knowledge Ty) (k : Knowledge) :
    (guarded key compute).run k =
      match k.answers.find? key with
      | some t => (t, k)
      | none =>
        if k.inProgress.contains key then (.any, k)
        else
          ((compute.run (k.asking key)).1,
            (compute.run (k.asking key)).2.answered key (compute.run (k.asking key)).1) := by
  unfold guarded
  -- The three outcomes: remembered, in progress, worked out.
  rw [StateT.run_bind, StateT.run_get, pure_bind]
  dsimp only
  cases k.answers.find? key with
  | some t => rfl
  | none =>
    dsimp only
    split <;> rfl

/-- What is remembered is not computed again. -/
theorem run_guarded_of_known {key : Key} {compute : StateM Knowledge Ty} {t : Ty}
    (h : k.answers.find? key = some t) : (guarded key compute).run k = (t, k) := by
  rw [run_guarded, h]

/-- A question that is new may be answered, whatever else has been answered on the way. -/
theorem answered_later {key : Key} {next : Knowledge} (hnone : k.answers.find? key = none)
    (hkey : key ∉ k.inProgress)
    (hlater : (k.asking key).Later next) (hnext : next.Sound files) {t : Ty}
    (ht : t.Within files next.store) :
    k.Later (next.answered key t) ∧ (next.answered key t).Sound files := by
  obtain ⟨added, hentries, hadded⟩ := hlater.answers
  -- What has been answered on the way is other questions, because this one was in progress.
  have hother : ∀ e ∈ added, e.1 ≠ key ∧ e.1 ∉ k.inProgress := fun e he =>
    ⟨fun hk => (hadded e he).1 (hk ▸ List.mem_cons_self),
      fun hm => (hadded e he).1 (List.mem_cons_of_mem _ hm)⟩
  refine ⟨⟨hlater.workspace, ?_, ⟨(key, t) :: added, ?_, fun e he => ?_⟩, hlater.signatures,
    hlater.bases, hlater.results⟩,
      ⟨hnext.workspace, hnext.declares, ?_, fun e he => ?_, hnext.signatures,
      hnext.declared, hnext.bases, hnext.results⟩⟩
  · show next.inProgress.erase key = k.inProgress
    rw [hlater.inProgress_eq]
    exact List.erase_cons_head ..
  · exact congrArg ((key, t) :: ·) hentries
  · rcases List.mem_cons.mp he with rfl | he
    · exact ⟨hkey, hnone⟩
    · exact ⟨(hother e he).2, (hadded e he).2⟩
  -- No question is recorded twice: neither was this one answered, nor has it been on the way.
  · refine List.nodup_cons.mpr ⟨fun hmem => ?_, hnext.distinct⟩
    obtain ⟨e, he, hek⟩ := List.mem_map.mp hmem
    rw [hentries] at he
    rcases List.mem_append.mp he with he | he
    · exact (hother e he).1 hek
    · exact Memo.find?_eq_none.mp hnone e he hek
  · rcases List.mem_cons.mp he with rfl | he
    · exact ht
    · exact hnext.answers e he

/-- An answer of the guard lasts. -/
theorem guarded_lasts {key : Key} {compute : StateM Knowledge Ty}
    (h : ∀ now : Knowledge, base.store.NoSmaller now.store →
      Lasts (Knowledge.Sound files) False now compute fun t k => t.Within files k.store) :
    Lasts (Knowledge.Sound files) (base.inProgress = []) base (guarded key compute) fun t k =>
      t.Within files k.store := by
  intro k hbase hsound
  cases hfind : k.answers.find? key with
  | some t =>
    rw [run_guarded_of_known hfind]
    exact ⟨.refl k, hsound, hsound.answers _ (Memo.mem_entries_of_find? hfind),
      fun _ next hnext => run_guarded_of_known (hnext.find?_answers hfind)⟩
  | none =>
    by_cases hkey : key ∈ k.inProgress
    · have hrun : (guarded key compute).run k = (.any, k) := by
        rw [run_guarded, hfind]
        exact if_pos (List.contains_iff_mem.mpr hkey)
      rw [hrun]
      -- A question is in progress, so nothing is claimed of later answers.
      refine ⟨.refl k, hsound, Ty.any_within, fun hempty => ?_⟩
      rw [Knowledge.Later.inProgress_eq hbase, hempty] at hkey
      exact absurd hkey List.not_mem_nil
    -- The question is new: it is asked, computed and recorded.
    · have hle : base.store.NoSmaller k.store := Knowledge.Later.noSmaller hbase
      obtain ⟨hlater, hsound', ht, -⟩ :=
        h (k.asking key) hle (k.asking key) (.refl _) { hsound with }
      obtain ⟨hk, hs⟩ := answered_later hfind hkey hlater hsound' ht
      have hrun : (guarded key compute).run k = ((compute.run (k.asking key)).1,
          (compute.run (k.asking key)).2.answered key (compute.run (k.asking key)).1) := by
        rw [run_guarded, hfind]
        exact if_neg fun hc => hkey (List.contains_iff_mem.mp hc)
      rw [hrun]
      exact ⟨hk, hs, ht, fun _ next hnext => run_guarded_of_known
        (hnext.find?_answers ((Memo.find?_record _ _ _ _).trans (if_pos rfl)))⟩

/-! ## Results of signatures -/

/-- A result that is remembered is not computed again. -/
theorem run_remembered_of_known {s : Signature} {compute : StateM Knowledge Ty} {t : Ty}
    (h : k.results.find? s.cell = some t) : (remembered s compute).run k = (t, k) := by
  unfold remembered
  rw [StateT.run_bind, StateT.run_get, pure_bind, h]
  rfl

/-- A result that is remembered lasts. -/
theorem remembered_lasts {again : Prop} {s : Signature} {compute : StateM Knowledge Ty}
    (h : Lasts (Knowledge.Sound files) False base compute fun t k => t.Within files k.store) :
    Lasts (Knowledge.Sound files) again base (remembered s compute) fun t k =>
      t.Within files k.store := by
  intro k hbase hsound
  cases hfind : k.results.find? s.cell with
  | some t =>
    rw [run_remembered_of_known hfind]
    exact ⟨.refl k, hsound, hsound.results _ (Memo.mem_entries_of_find? hfind),
      fun _ next hnext => run_remembered_of_known (hnext.results _ _ hfind)⟩
  | none =>
    -- Nothing is remembered under the cell yet, so recording it changes no earlier answer.
    obtain ⟨hlater, hsound', ht, -⟩ := h k hbase hsound
    have hrun : (remembered s compute).run k = ((compute.run k).1,
        { (compute.run k).2 with
          results := (compute.run k).2.results.record s.cell (compute.run k).1 }) := by
      unfold remembered
      rw [StateT.run_bind, StateT.run_get, pure_bind, hfind]
      rfl
    rw [hrun]
    refine ⟨{ hlater with results := fun cell known hknown => ?_ },
      { hsound' with results := fun e he => ?_ }, ht, fun _ next hnext => run_remembered_of_known
        (hnext.results _ _ ((Memo.find?_record _ _ _ _).trans (if_pos rfl)))⟩
    · rw [Memo.find?_record, if_neg fun he => ?_, hlater.results cell known hknown]
      rw [← he, hfind] at hknown
      exact nomatch hknown
    · rcases List.mem_cons.mp he with rfl | he
      · exact ht
      · exact hsound'.results e he

/-- The full result of a signature is within the files. -/
theorem fullResult_learns {oracle : Oracle} (horacle : oracle.Learns files) {s : Signature}
    (hs : s.Within files base.store) :
    Learns files False oracle base (fullResult s) fun t st => t.Within files st := by
  have hown : Learns files False oracle base (ownResult s) fun t st => t.Within files st := by
    unfold ownResult
    split
    · exact .type (hs.given _ ‹_›)
    · exact ask_learns horacle (q := .result _) (hs.declared _ ‹_›)
    · exact typeOfSyntax_learns horacle (hs.written _ ‹_›)
    · exact .type .intrinsic
  exact .bind hown fun _ _ hnow ht => instantiate_learns horacle
    (mapping_later hnow hs.mapping) ht

/-! ## Questions -/

/-- A question about a declaration is answered under a key that does not change. -/
theorem guardedAt_lasts {id : DeclarationId} (hid : id.index < base.store.declarations.size)
    (key : NodeKey → String → Key) {compute : StateM Knowledge Ty}
    (h : ∀ now : Knowledge, id.index < now.store.declarations.size →
      Lasts (Knowledge.Sound files) False now compute fun t k => t.Within files k.store) :
    Lasts (Knowledge.Sound files) (base.inProgress = []) base (do
      let d := (← get).workspace.store.declaration id
      guarded (key d.key d.name) compute) fun t k => t.Within files k.store := by
  -- The key is made of the declaration's place and name, which later knowledge leaves as they are.
  refine .get (fun _ old new hold _ hnew => ?_) fun now hnow _ => ?_
  · have hid := Knowledge.Later.declaration_lt hold hid
    dsimp only
    rw [key_later hnew hid, (hnew.workspace.store.declaration_became id hid).name_eq]
  · have hid := Knowledge.Later.declaration_lt hnow hid
    exact (guarded_lasts fun next hle => h next (hle.declaration_lt hid)).imp
      (Knowledge.Later.inProgress_eq hnow).trans

/-- Answering by the rules keeps to the files. -/
theorem answerBy_learns {oracle : Oracle} (horacle : oracle.Learns files) :
    (answerBy oracle).Learns files := by
  intro base q hq
  -- Each question has its rule; all but the last three are guarded by a key that is fixed from the
  -- start.
  cases q with
  | expression n => exact guarded_lasts fun _ _ => (expressionType_learns horacle hq).imp False.elim
  | written n => exact guarded_lasts fun _ _ => (syntaxType_learns horacle hq).imp False.elim
  | declaration id =>
    exact guardedAt_lasts hq Key.declaration fun _ hid =>
      (declarationType_learns horacle hid).imp False.elim
  | result id =>
    exact guardedAt_lasts hq (fun key _ => .result key) fun _ hid =>
      (resultType_learns horacle hid).imp False.elim
  | signature s => exact remembered_lasts ((fullResult_learns horacle hq).imp False.elim)
  | bases symbol =>
    have h : Learns files True oracle base (symbolBases symbol) fun ts st =>
      ∀ t ∈ ts, t.Within files st :=
      symbolBases_learns horacle symbol
    exact h.imp fun h => ⟨trivial, h⟩

/-- Questions are answered without losing what is known, however deep they nest. -/
theorem answer_learns (depth : Nat) : Oracle.Learns files (answer depth) := by
  -- Questions within an answer are answered one level deeper.
  induction depth with
  | zero =>
    intro base q _
    cases q with
    | bases symbol => exact .pure fun _ _ => nofun
    | _ => exact .pure fun _ _ => Ty.any_within
  | succ depth ih => exact answerBy_learns ih

end ScriptGraph.Inference
