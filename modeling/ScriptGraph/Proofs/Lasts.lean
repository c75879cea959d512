import ScriptGraph.Proofs.Ensures

/-!
# Answers that last

A state evolves when every later one keeps what is known in it. An answer that follows from what
is known lasts: the same action finds it again in every later state, and changes nothing there.
`Lasts` says so of an action on sound states, along with what its answer is like. The rules below
take an action apart along the way it is written.
-/

namespace ScriptGraph

/-- States of which some are later than others. -/
class Evolving (σ : Type) where
  Later : σ → σ → Prop
  refl : ∀ s, Later s s
  trans : ∀ {a b c}, Later a b → Later b c → Later a c

variable {σ α β : Type} [Evolving σ] {sound : σ → Prop} {again : Prop} {base : σ}
  {φ ψ : α → σ → Prop}

/-- From any sound state that is later than `base` an action goes to one that is later still and
finds an answer with `φ`. If `again` holds, the answer lasts. -/
def Lasts (sound : σ → Prop) (again : Prop) (base : σ) (x : StateM σ α) (φ : α → σ → Prop) :
    Prop :=
  ∀ s, Evolving.Later base s → sound s →
    Evolving.Later s (x.run s).2 ∧ sound (x.run s).2 ∧ φ (x.run s).1 (x.run s).2 ∧
      (again → ∀ next, Evolving.Later (x.run s).2 next → x.run next = ((x.run s).1, next))

namespace Lasts

/-- A result lasts. -/
theorem pure {a : α} (h : ∀ s, Evolving.Later base s → φ a s) :
    Lasts sound again base (Pure.pure a) φ :=
  fun s hs hsound => ⟨Evolving.refl s, hsound, h s hs, fun _ _ _ => rfl⟩

/-- Two parts last if both do. -/
theorem bind {x : StateM σ β} {f : β → StateM σ α} {χ : β → σ → Prop}
    (hx : Lasts sound again base x χ)
    (hf : ∀ b now, Evolving.Later base now → χ b now → Lasts sound again now (f b) φ) :
    Lasts sound again base (x >>= f) φ := by
  intro s hs hsound
  obtain ⟨hlater, hsound', hχ, hagain⟩ := hx s hs hsound
  obtain ⟨hlater', hsound'', hφ, hagain'⟩ :=
    hf _ _ (Evolving.trans hs hlater) hχ _ (Evolving.refl _) hsound'
  refine ⟨Evolving.trans hlater hlater', hsound'', hφ, fun h next hnext => ?_⟩
  -- The first part lasts until the end of the second one.
  have hfirst := hagain h next (Evolving.trans hlater' hnext)
  have hsecond := hagain' h next hnext
  show (f (x.run next).1).run (x.run next).2 = _
  rw [hfirst]
  exact hsecond

/-- A function of an answer that lasts does so too. -/
theorem map {x : StateM σ β} {f : β → α} (hx : Lasts sound again base x fun b => φ (f b)) :
    Lasts sound again base (do return f (← x)) φ := by
  intro s hs hsound
  obtain ⟨hlater, hsound', hφ, hagain⟩ := hx s hs hsound
  refine ⟨hlater, hsound', hφ, fun h next hnext => ?_⟩
  show (f (x.run next).1, (x.run next).2) = _
  rw [hagain h next hnext]
  rfl

/-- An action that goes by the state lasts if it goes the same way by every later one. -/
theorem get {f : σ → StateM σ α}
    (hsame : again → ∀ old new : σ, Evolving.Later base old → sound old →
      Evolving.Later old new → f new = f old)
    (hf : ∀ now, Evolving.Later base now → sound now → Lasts sound again now (f now) φ) :
    Lasts sound again base (MonadState.get >>= f) φ := by
  intro s hs hsound
  obtain ⟨hlater, hsound', hφ, hagain⟩ := hf s hs hsound s (Evolving.refl s) hsound
  refine ⟨hlater, hsound', hφ, fun h next hnext => ?_⟩
  show (f next).run next = _
  rw [hsame h s next hs hsound (Evolving.trans hlater hnext)]
  exact hagain h next hnext

/-- What follows from what lasts does so too. -/
theorem weaken {x : StateM σ α} (hx : Lasts sound again base x φ)
    (h : ∀ a s, Evolving.Later base s → φ a s → ψ a s) :
    Lasts sound again base x ψ := fun s hs hsound =>
  let ⟨hlater, hsound', hφ, hagain⟩ := hx s hs hsound
  ⟨hlater, hsound', h _ _ (Evolving.trans hs hlater) hφ, hagain⟩

/-- What lasts under a condition lasts under a stronger one. -/
theorem imp {again' : Prop} {x : StateM σ α} (hx : Lasts sound again base x φ)
    (h : again' → again) : Lasts sound again' base x φ := fun s hs hsound =>
  let ⟨hlater, hsound', hφ, hagain⟩ := hx s hs hsound
  ⟨hlater, hsound', hφ, fun ha => hagain (h ha)⟩

/-- What holds from one state on holds from every later one on. -/
theorem later {x : StateM σ α} {now : σ} (hx : Lasts sound again base x φ)
    (h : Evolving.Later base now) : Lasts sound again now x φ :=
  fun s hs => hx s (Evolving.trans h hs)

/-- An action that keeps what is known keeps states sound. -/
theorem ensures {x : StateM σ α} (h : ∀ base, Lasts sound False base x φ) :
    Ensures sound x fun a s => sound s ∧ φ a s := fun s hs =>
  let ⟨_, hsound, hφ, _⟩ := h s s (Evolving.refl s) hs
  ⟨hsound, hφ⟩

end Lasts

end ScriptGraph
