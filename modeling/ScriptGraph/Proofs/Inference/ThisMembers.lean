import ScriptGraph.Proofs.Binding.Constructs
import ScriptGraph.Proofs.Inference.Climbing
import ScriptGraph.Proofs.Inference.ThisTypes

/-!
# Classes that `this` goes by

What `this` stands for in a class goes by the declaration at the class. For a class at the top of a
file, or one that is exported where it is declared, this is the declaration of the class: nothing is
recorded there before. So `this` has the members of such a class, and those that the class inherits
from the classes above it, as far as look-ups climb.

- `exists_declaresClass`: classes at the top of the file under analysis
- `this_climbs`: members of the classes above the one around `this`
-/

namespace ScriptGraph.Inference

open Binding Syntax

variable {k next : Knowledge} {b : FileBinding} {c : Node} {s : SymbolId}

/-! ## The declaration at a class -/

/-- The symbol of a class is there. -/
theorem DeclaresClass.index_lt (h : DeclaresClass k.store b c s) (hsound : k.Sound anyFile) :
    s.index < k.store.symbols.size := by
  obtain ⟨d, -, -, hsymbol⟩ := h.declared
  exact hsound.workspace.store.declaration d s hsymbol

/-- Whatever is requested, the declaration at a class stays its own. -/
theorem DeclaresClass.later (h : DeclaresClass k.store b c s) (hnext : k.Later next) :
    DeclaresClass next.store b c s := by
  obtain ⟨d, hd, hkind, hsymbol⟩ := h.declared
  have hsame := (hnext.workspace.store.declaration_became d
    (Store.index_lt_of_symbol_eq hsymbol)).eq_of_isSome (by rw [hsymbol]; rfl)
  exact ⟨h.construct, d, hd, by rw [hsame, hkind], by rw [hsame, hsymbol]⟩

/-- A class at the top of the file under analysis is declared at its construct, whatever has been
requested before. -/
theorem exists_declaresClass (settings : Settings) (disk : Disk) (library : Source) {root : Source}
    (hroot : root.isBundled = false) (hlaid : root.tree.laidOut = true)
    (hk : (Knowledge.start settings disk library root).Reaches k) {statement : Node}
    (hstatement : statement ∈ root.root.children) (hc : DeclaredIn statement c)
    (hclass : isClassDeclaration c = true) (hwidth : c.start < c.stop) :
    ∃ b s, k.workspace.bound? root = some b ∧ DeclaresClass k.store b c s := by
  let base := (Library.ofSource library).store
  let start := Knowledge.start settings disk library root
  have hlater : start.Later k := (hk.keeps (Knowledge.start_sound settings disk library root)).1
  -- The file is the one under analysis, which is bound from the start.
  have hbound : start.workspace.bound? root = some (bind root base).1 :=
    (if_neg (by rw [hroot]; exact Bool.false_ne_true)).trans
      (Workspace.bindings_ofSource settings disk (.ofSource library) root)
  obtain ⟨s, d, hd, hkind, hsymbol⟩ :=
    bind_declaredAs_class hlaid base hstatement hc hwidth hclass
  have hdeclares : DeclaresClass start.store (bind root base).1 c s :=
    ⟨Bool.or_eq_true_iff.mpr (.inl hclass), d, hd, hkind, hsymbol⟩
  exact ⟨_, s, hlater.workspace.bound? hbound, hdeclares.later hlater⟩

/-! ## Members of the classes above -/

/-- In a member of a class, `this` has what the classes above declare, if they are near enough: of
the classes on the way up, the first one that declares a name is found from an instance at most
eight steps below it, and from the static side at most nine steps. -/
theorem this_climbs (settings : Settings) (disk : Disk) (library root : Source)
    (hk : (Knowledge.start settings disk library root).Reaches k) {n m : Node}
    (hb : k.workspace.bound? n.source = some b) (hthis : n.is .thisExpression = true)
    (hnew : k.answers.find? (.expression n.key) = none) (hclass : DeclaresClass k.store b c s)
    (hm : thisOwner? n = some m) (hmember : isClassMember m = true) (hc : thisOwner? m = some c)
    {last : Knowledge} {a : Entity} {steps : Nat} :
    let oracle := answer (depthBound k.workspace)
    let this := ((typeOf n).conduct.run k).1
    let e := entityIn k.store s
    last.ancestor? oracle steps e = some a →
    last.EachBelow oracle (steps + 1) e (IsClass last.store) → ∀ name,
    (m.hasToken "static" = false → steps ≤ 8 →
      last.IsFirst oracle steps e a (hasMember last.store name) →
      FindsBefore anyFile oracle k last (memberOf this name)
        (· = (last.store.symbol a.id).members.find? name)) ∧
    (m.hasToken "static" = true → steps ≤ 9 →
      last.IsFirst oracle steps e a (hasStatic last.store name) →
      FindsBefore anyFile oracle k last (memberOf this name)
        (· = (last.store.symbol a.id).statics.find? name)) := by
  intro oracle this e hup hclasses name
  obtain ⟨hbegun, hsound⟩ := hk.keeps (Knowledge.start_sound settings disk library root)
  have hempty : k.inProgress = [] := hbegun.inProgress_eq
  have htype := (typeOf_this hempty hb hthis hnew hclass).1 m hm hmember hc
  have he : e.id.index < k.store.symbols.size := hclass.index_lt hsound
  have horacle : oracle.Learns anyFile := answer_learns _
  have hnone : ∀ found : Option SymbolId, found.isSome = false → found = none := fun _ h =>
    Option.isNone_iff_eq_none.mp (Option.isSome_eq_false_iff.mp h)
  -- The type of `this` is an instance or the static side, and the look-ups from there are known.
  refine ⟨fun hstatic hsteps hfirst => ?_, fun hstatic hsteps hfirst => ?_⟩
  -- An instance: its members are looked up within eight steps.
  · obtain ⟨found, hfound⟩ := Option.isSome_iff_exists.mp hfirst.holds
    have hfinds := memberFrom_climbs horacle name steps memberSteps he hempty [] hup hfound
      (hclasses.mono (Nat.le_succ steps)) (hfirst.below.imp fun _ => hnone _)
    rw [if_pos (show steps < memberSteps from Nat.lt_succ_of_le hsteps), ← hfound] at hfinds
    have hinstance : this = .object e [] := htype.trans (if_neg (by simp [hstatic]))
    rw [hinstance]
    exact hfinds
  -- The static side: it reaches one class further.
  · obtain ⟨found, hfound⟩ := Option.isSome_iff_exists.mp hfirst.holds
    have hfinds := memberOf_static_climbs horacle name steps he hempty hup hfound hclasses
      (hfirst.below.imp fun _ => hnone _)
    simp only [if_pos (show steps ≤ memberSteps from hsteps), ← hfound] at hfinds
    have hside : this = .static e := htype.trans (if_pos hstatic)
    rw [hside]
    exact hfinds

end ScriptGraph.Inference
