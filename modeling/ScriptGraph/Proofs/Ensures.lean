/-!
# What actions on a state ensure

`Ensures P x Q` says that the action `x`, started in any state with `P`, ends in a result and a
state with `Q`. The rules below take an action apart along the way it is written: a result, a
sequence, a look at the state, a change of the state, a list of actions.
-/

namespace ScriptGraph

variable {σ α β : Type} {P P' : σ → Prop} {Q Q' : α → σ → Prop}

/-- From every state with `P` the action ends in a result and a state with `Q`. -/
def Ensures (P : σ → Prop) (x : StateM σ α) (Q : α → σ → Prop) : Prop :=
  ∀ s, P s → Q (x.run s).1 (x.run s).2

namespace Ensures

/-- A result ensures what holds of it in every state. -/
theorem pure {a : α} (h : ∀ s, P s → Q a s) : Ensures P (Pure.pure a) Q :=
  h

/-- Two actions ensure what they ensure one after the other. -/
theorem bind {x : StateM σ β} {f : β → StateM σ α} {R : β → σ → Prop} (hx : Ensures P x R)
    (hf : ∀ b, Ensures (R b) (f b) Q) : Ensures P (x >>= f) Q :=
  fun s hs => hf _ _ (hx s hs)

/-- A function of a result ensures what holds of its value. -/
theorem map {x : StateM σ β} {f : β → α} (hx : Ensures P x fun b => Q (f b)) :
    Ensures P (f <$> x) Q :=
  hx

/-- A look at the state is followed by what depends on the state. -/
theorem get {f : σ → StateM σ α} (h : ∀ a, Ensures (fun s => P s ∧ s = a) (f a) Q) :
    Ensures P (MonadState.get >>= f) Q :=
  fun s hs => h s s ⟨hs, rfl⟩

/-- A change of the state ensures what holds of the new state. -/
theorem modify {f : σ → σ} {Q : PUnit → σ → Prop} (h : ∀ s, P s → Q ⟨⟩ (f s)) :
    Ensures P (modify f : StateM σ PUnit) Q :=
  h

/-- What follows from what is ensured is ensured. -/
theorem weaken {x : StateM σ α} (hx : Ensures P x Q) (h : ∀ a s, Q a s → Q' a s) :
    Ensures P x Q' :=
  fun s hs => h _ _ (hx s hs)

/-- What is ensured from a fact is ensured from a stronger one. -/
theorem of_imp {x : StateM σ α} (hx : Ensures P x Q) (h : ∀ s, P' s → P s) : Ensures P' x Q :=
  fun s hs => hx s (h s hs)

/-- A fact that does not depend on the state may be used as a hypothesis. -/
theorem of_fact {x : StateM σ α} {φ : Prop} (h : φ → Ensures P x Q) :
    Ensures (fun s => P s ∧ φ) x Q :=
  fun s hs => h hs.2 s hs.1

/-- An action that ensures two things from two facts ensures both from both. -/
theorem and {x : StateM σ α} (hx : Ensures P x Q) (hx' : Ensures P' x Q') :
    Ensures (fun s => P s ∧ P' s) x fun a s => Q a s ∧ Q' a s :=
  fun s hs => ⟨hx s hs.1, hx' s hs.2⟩

/-- Actions that each keep `P` keep `P` one after the other. -/
theorem forM {l : List β} {f : β → StateM σ PUnit}
    (h : ∀ b ∈ l, Ensures P (f b) fun _ => P) : Ensures P (l.forM f) fun _ => P := by
  induction l with
  | nil => exact pure fun _ hs => hs
  | cons b rest ih =>
    exact bind (h b List.mem_cons_self) fun _ => ih fun c hc => h c (List.mem_cons_of_mem _ hc)

/-- What actions ensure one after the other may depend on the items that have been gone through. -/
theorem forM_from {l : List β} {f : β → StateM σ PUnit} {I : List β → σ → Prop}
    (h : ∀ gone b, Ensures (I gone) (f b) fun _ => I (gone ++ [b])) (gone : List β) :
    Ensures (I gone) (l.forM f) fun _ => I (gone ++ l) := by
  induction l generalizing gone with
  | nil => exact pure fun _ hs => (List.append_nil gone).symm ▸ hs
  | cons b rest ih =>
    refine bind (h gone b) fun _ => ?_
    rw [List.append_cons gone b rest]
    exact ih (gone ++ [b])

/-- The same of a result that is built up while a state of its own is carried along. -/
theorem foldlM_from {τ : Type} {l : List β} {f : α → β → StateT τ (StateM σ) α}
    {I : List β → α × τ → σ → Prop}
    (h : ∀ gone b a t, Ensures (I gone (a, t)) ((f a b).run t) (I (gone ++ [b])))
    (gone : List β) (a : α) (t : τ) :
    Ensures (I gone (a, t)) ((l.foldlM f a).run t) (I (gone ++ l)) := by
  induction l generalizing gone a t with
  | nil => exact pure fun _ hs => (List.append_nil gone).symm ▸ hs
  | cons b rest ih =>
    rw [List.foldlM_cons, StateT.run_bind, List.append_cons gone b rest]
    exact bind (h gone b a t) fun r => ih (gone ++ [b]) r.1 r.2

/-- The same without the elements that have been gone through, of which each is one of the list. -/
theorem foldlM_mem {τ : Type} {l : List β} {f : α → β → StateT τ (StateM σ) α}
    {I : α × τ → σ → Prop} (h : ∀ b ∈ l, ∀ a t, Ensures (I (a, t)) ((f a b).run t) I) (a : α)
    (t : τ) : Ensures (I (a, t)) ((l.foldlM f a).run t) I := by
  induction l generalizing a t with
  | nil => exact pure fun _ hs => hs
  | cons b rest ih =>
    rw [List.foldlM_cons, StateT.run_bind]
    exact bind (h b List.mem_cons_self a t) fun r =>
      ih (fun c hc => h c (List.mem_cons_of_mem _ hc)) r.1 r.2

end Ensures

/-! ## Actions on the items of a list -/

section MapM

variable (f : α → StateM σ β)

/-- A list of actions runs the first one and then the others. -/
theorem run_mapM_cons (a : α) (rest : List α) (s : σ) :
    ((a :: rest).mapM f).run s = (((f a).run s).1 :: ((rest.mapM f).run ((f a).run s).2).1,
      ((rest.mapM f).run ((f a).run s).2).2) := by
  rw [List.mapM_cons]
  rfl

/-- Each action of a list has a result. -/
theorem length_run_mapM (l : List α) (s : σ) : ((l.mapM f).run s).1.length = l.length := by
  induction l generalizing s with
  | nil => rfl
  | cons a rest ih => rw [run_mapM_cons, List.length_cons, ih, List.length_cons]

/-- The action on an item starts in the state that the actions on the items before it leave. -/
theorem getElem?_run_mapM (l : List α) (s : σ) (i : Nat) : ((l.mapM f).run s).1[i]? =
    l[i]?.map fun a => ((f a).run (((l.take i).mapM f).run s).2).1 := by
  induction l generalizing s i with
  | nil => rfl
  | cons a rest ih =>
    rw [run_mapM_cons]
    cases i with
    | zero => rfl
    | succ i =>
      rw [List.getElem?_cons_succ, ih, List.getElem?_cons_succ, List.take_succ_cons, run_mapM_cons]

end MapM

/-- An action that carries a state of its own along keeps `P` of the state below. -/
def Keeps {τ : Type} (P : σ → Prop) (x : StateT τ (StateM σ) α) : Prop :=
  ∀ t, Ensures P (x.run t) fun _ => P

namespace Keeps

variable {τ : Type}

/-- A result keeps everything. -/
theorem pure {a : α} : Keeps P (Pure.pure a : StateT τ (StateM σ) α) :=
  fun _ _ hs => hs

/-- Two actions keep what both keep. -/
theorem bind {x : StateT τ (StateM σ) β} {f : β → StateT τ (StateM σ) α} (hx : Keeps P x)
    (hf : ∀ b, Keeps P (f b)) : Keeps P (x >>= f) :=
  fun t => .bind (hx t) fun r => hf r.1 r.2

/-- Looking at the state of its own keeps everything. -/
theorem get : Keeps P (MonadState.get : StateT τ (StateM σ) τ) :=
  fun _ _ hs => hs

/-- Setting the state of its own keeps everything. -/
theorem set {t : τ} : Keeps P (MonadStateOf.set t : StateT τ (StateM σ) PUnit) :=
  fun _ _ hs => hs

/-- An action that is lifted keeps what it keeps. -/
theorem lift {x : StateM σ α} (hx : Ensures P x fun _ => P) :
    Keeps P (StateT.lift x : StateT τ (StateM σ) α) :=
  fun _ => .bind hx fun _ => .pure fun _ hs => hs

/-- What an action below ensures may be used in what comes after it. -/
theorem liftBind {x : StateM σ β} {f : β → StateT τ (StateM σ) α} {R : β → σ → Prop}
    (hx : Ensures P x R) (hf : ∀ b t, Ensures (R b) ((f b).run t) fun _ => P) :
    Keeps P (StateT.lift x >>= f) :=
  fun t => .bind hx fun b => hf b t

/-- A fold keeps what its steps keep. -/
theorem foldlM {l : List β} {f : α → β → StateT τ (StateM σ) α}
    (h : ∀ a, ∀ b ∈ l, Keeps P (f a b)) (a : α) : Keeps P (l.foldlM f a) := by
  induction l generalizing a with
  | nil => exact pure
  | cons b rest ih =>
    exact bind (h a b List.mem_cons_self) fun a' =>
      ih (fun a c hc => h a c (List.mem_cons_of_mem _ hc)) a'

end Keeps

end ScriptGraph
