/-!
# Two runs side by side

`Matches R S x y` says that the actions `x` and `y`, started in states that `R` relates, find
results that `S` relates and end in states that `R` relates again. An action that matches itself
with equal results is blind to what `R` leaves open. The rules below take both actions apart along
the way they are written.
-/

namespace ScriptGraph

variable {σ τ α β γ δ : Type} {R : σ → σ → Prop} {S : α → β → Prop} {T : γ → δ → Prop}

/-- From related states two actions find related results and go to related states. -/
def Matches (R : σ → σ → Prop) (S : α → β → Prop) (x : StateM σ α) (y : StateM σ β) : Prop :=
  ∀ s t, R s t → S (x.run s).1 (y.run t).1 ∧ R (x.run s).2 (y.run t).2

/-- From related states an action finds the same and goes to related states. -/
def Blind (R : σ → σ → Prop) (x : StateM σ α) : Prop :=
  Matches R Eq x x

namespace Matches

/-- Results that match do so in all states. -/
theorem pure {a : α} {b : β} (h : S a b) : Matches R S (Pure.pure a) (Pure.pure b) :=
  fun _ _ hR => ⟨h, hR⟩

/-- Actions in two parts match if their parts do. -/
theorem bind {x : StateM σ γ} {y : StateM σ δ} {f : γ → StateM σ α} {g : δ → StateM σ β}
    (hx : Matches R T x y) (hf : ∀ c d, T c d → Matches R S (f c) (g d)) :
    Matches R S (x >>= f) (y >>= g) := fun s t hR =>
  let ⟨hT, hR'⟩ := hx s t hR
  hf _ _ hT _ _ hR'

/-- What is found the same way twice may be used by both actions. -/
theorem bind_eq {x y : StateM σ γ} {f : γ → StateM σ α} {g : γ → StateM σ β}
    (hx : Matches R Eq x y) (hf : ∀ c, Matches R S (f c) (g c)) : Matches R S (x >>= f) (y >>= g) :=
  bind hx fun c _ h => h ▸ hf c

/-- Looks at matching states match if what follows does. -/
theorem get {f : σ → StateM σ α} {g : σ → StateM σ β}
    (h : ∀ s t, R s t → Matches R S (f s) (g t)) :
    Matches R S (MonadState.get >>= f) (MonadState.get >>= g) :=
  fun s t hR => h s t hR s t hR

/-- Changes match that lead to matching states. -/
theorem modify {f g : σ → σ} (h : ∀ s t, R s t → R (f s) (g t)) :
    Matches R Eq (modify f : StateM σ PUnit) (modify g) :=
  fun s t hR => ⟨rfl, h s t hR⟩

end Matches

namespace Blind

/-- A result looks at nothing. -/
theorem pure (a : α) : Blind R (Pure.pure a) :=
  Matches.pure rfl

/-- Two parts are blind if both are. -/
theorem bind {x : StateM σ γ} {f : γ → StateM σ α} (hx : Blind R x) (hf : ∀ c, Blind R (f c)) :
    Blind R (x >>= f) :=
  Matches.bind_eq hx hf

/-- A list of actions is blind if each one is. -/
theorem forM {l : List γ} {f : γ → StateM σ PUnit} (h : ∀ c ∈ l, Blind R (f c)) :
    Blind R (l.forM f) := by
  induction l with
  | nil => exact pure _
  | cons c rest ih =>
    exact bind (h c List.mem_cons_self) fun _ => ih fun d hd => h d (List.mem_cons_of_mem _ hd)

end Blind

/-- An action that carries a state of its own along is blind to what `R` leaves open of the state
below. -/
def BlindBelow (R : σ → σ → Prop) (x : StateT τ (StateM σ) α) : Prop :=
  ∀ t, Blind R (x.run t)

namespace BlindBelow

/-- A result looks at nothing. -/
theorem pure (a : α) : BlindBelow R (Pure.pure a : StateT τ (StateM σ) α) :=
  fun _ => .pure _

/-- Two parts are blind if both are. -/
theorem bind {x : StateT τ (StateM σ) γ} {f : γ → StateT τ (StateM σ) α} (hx : BlindBelow R x)
    (hf : ∀ c, BlindBelow R (f c)) : BlindBelow R (x >>= f) :=
  fun t => Blind.bind (hx t) fun r => hf r.1 r.2

/-- Looking at the state of its own shows nothing of the other one. -/
theorem get : BlindBelow R (MonadState.get : StateT τ (StateM σ) τ) :=
  fun _ => .pure _

/-- Setting the state of its own shows nothing of the other one. -/
theorem set (t : τ) : BlindBelow R (MonadStateOf.set t : StateT τ (StateM σ) PUnit) :=
  fun _ => .pure _

/-- A blind action stays blind when it is lifted. -/
theorem lift {x : StateM σ α} (hx : Blind R x) :
    BlindBelow R (StateT.lift x : StateT τ (StateM σ) α) :=
  fun _ => hx.bind fun _ => .pure _

/-- A fold is blind if its steps are. -/
theorem foldlM {l : List γ} {f : α → γ → StateT τ (StateM σ) α}
    (h : ∀ a, ∀ c ∈ l, BlindBelow R (f a c)) (a : α) : BlindBelow R (l.foldlM f a) := by
  induction l generalizing a with
  | nil => exact pure a
  | cons c rest ih =>
    exact bind (h a c List.mem_cons_self) fun a' =>
      ih (fun a d hd => h a d (List.mem_cons_of_mem _ hd)) a'

end BlindBelow

end ScriptGraph
