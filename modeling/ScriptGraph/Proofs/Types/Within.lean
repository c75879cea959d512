import ScriptGraph.Proofs.Binding.Growth
import ScriptGraph.Types.Substitution

/-!
# What types mention

Types refer to symbols and declarations by number, and to constructs of files. `Ty.Within` says
that a store holds whatever a type mentions, however deep, and that the constructs come from files
of a certain kind.
-/

namespace ScriptGraph

open Binding Syntax

/-! ## Constructs -/

namespace Syntax.Node

/-- A construct comes from one of some files. -/
def From (files : Source → Prop) (n : Node) : Prop :=
  files n.source

namespace From

variable {files : Source → Prop} {n c : Node}

/-- The constructs in a node are of its file. -/
theorem constructs (h : n.From files) (hc : c ∈ n.constructs) : c.From files := by
  rw [From, source_of_mem_constructs hc]
  exact h

/-- The part in a role is of the file of the node. -/
theorem child? (h : n.From files) {f : Field} (hc : n.child? f = some c) : c.From files := by
  rw [From, source_of_child? hc]
  exact h

/-- A node is of the file of its parent. -/
theorem parent (h : n.From files) (hc : n.parent = some c) : c.From files := by
  unfold Node.parent at hc
  split at hc
  · exact nomatch hc
  · exact Option.some.inj hc ▸ h

end From

end Syntax.Node

/-! ## Types and signatures -/

mutual

/-- A store holds what a type mentions, and its constructs come from `files`. -/
inductive Ty.Within (files : Source → Prop) (st : Store) : Ty → Prop
  | intrinsic {i : Intrinsic} : Ty.Within files st (.intrinsic i)
  | object {e : Entity} {arguments : List Ty} (he : e.id.index < st.symbols.size)
      (harguments : ∀ t ∈ arguments, Ty.Within files st t) :
      Ty.Within files st (.object e arguments)
  | static {e : Entity} (he : e.id.index < st.symbols.size) : Ty.Within files st (.static e)
  | array {element : Ty} {entity : Option Entity} (helement : Ty.Within files st element)
      (hentity : ∀ e, entity = some e → e.id.index < st.symbols.size) :
      Ty.Within files st (.array element entity)
  | tuple {elements : List Ty} {entity : Option Entity}
      (helements : ∀ t ∈ elements, Ty.Within files st t)
      (hentity : ∀ e, entity = some e → e.id.index < st.symbols.size) :
      Ty.Within files st (.tuple elements entity)
  | union {members : List Ty} (hmembers : ∀ t ∈ members, Ty.Within files st t) :
      Ty.Within files st (.union members)
  | parameter {name : String} : Ty.Within files st (.parameter name)
  | text {spelling : String} : Ty.Within files st (.text spelling)
  | literal {members : List (String × SymbolId)} {types : List (String × Ty)}
      (hmembers : ∀ e ∈ members, e.2.index < st.symbols.size)
      (htypes : ∀ e ∈ types, Ty.Within files st e.2) : Ty.Within files st (.literal members types)
  | function {signatures : List Signature} {entity : Option Entity}
      (hsignatures : ∀ s ∈ signatures, Signature.Within files st s)
      (hentity : ∀ e, entity = some e → e.id.index < st.symbols.size) :
      Ty.Within files st (.function signatures entity)
  | unspecified : Ty.Within files st .unspecified

/-- A store holds what a signature mentions, and its constructs come from `files`. -/
inductive Signature.Within (files : Source → Prop) (st : Store) : Signature → Prop
  | mk {s : Signature}
      (hdeclaration : ∀ d, s.declaration = some d → d.index < st.declarations.size)
      (hparameters : ∀ p ∈ s.parameters, Ty.Within files st p.type)
      (hgiven : ∀ t, s.result = .given t → Ty.Within files st t)
      (hdeclared : ∀ d, s.result = .declared d → d.index < st.declarations.size)
      (hwritten : ∀ n, s.result = .written (some n) → n.From files)
      (hmapping : ∀ e ∈ s.mapping, Ty.Within files st e.2) : Signature.Within files st s

end

variable {files : Source → Prop} {old new st : Store}

mutual

/-- A type within a store is within larger ones. -/
theorem Ty.Within.mono (hle : old.NoSmaller new) :
    ∀ {t : Ty}, t.Within files old → t.Within files new
  -- Only entities and members are numbers; the store that has them has grown.
  | _, .intrinsic => .intrinsic
  | _, .object he harguments =>
    .object (hle.symbol_lt he) fun t ht => (harguments t ht).mono hle
  | _, .static he => .static (hle.symbol_lt he)
  | _, .array helement hentity =>
    .array (helement.mono hle) fun e he => hle.symbol_lt (hentity e he)
  | _, .tuple helements hentity =>
    .tuple (fun t ht => (helements t ht).mono hle)
      fun e he => hle.symbol_lt (hentity e he)
  | _, .union hmembers => .union fun t ht => (hmembers t ht).mono hle
  | _, .parameter => .parameter
  | _, .text => .text
  | _, .literal hmembers htypes =>
    .literal (fun e he => hle.symbol_lt (hmembers e he))
      fun e he => (htypes e he).mono hle
  | _, .function hsignatures hentity =>
    .function (fun s hs => (hsignatures s hs).mono hle)
      fun e he => hle.symbol_lt (hentity e he)
  | _, .unspecified => .unspecified

/-- A signature within a store is within larger ones. -/
theorem Signature.Within.mono (hle : old.NoSmaller new) :
    ∀ {s : Signature}, s.Within files old → s.Within files new
  | _, .mk hdeclaration hparameters hgiven hdeclared hwritten hmapping =>
    .mk (fun d hd => hle.declaration_lt (hdeclaration d hd))
      (fun p hp => (hparameters p hp).mono hle) (fun t ht => (hgiven t ht).mono hle)
      (fun d hd => hle.declaration_lt (hdeclared d hd)) hwritten
      fun e he => (hmapping e he).mono hle

end

namespace Signature.Within

variable {s : Signature}

/-- A signature belongs to a declaration that is there. -/
theorem declaration (h : s.Within files st) : ∀ d, s.declaration = some d →
    d.index < st.declarations.size := by
  cases h
  assumption

/-- The types of the parameters of a signature are within the store. -/
theorem parameters (h : s.Within files st) : ∀ p ∈ s.parameters, p.type.Within files st := by
  cases h
  assumption

/-- A result that is given is within the store. -/
theorem given (h : s.Within files st) : ∀ t, s.result = .given t → t.Within files st := by
  cases h
  assumption

/-- A result that is declared belongs to a declaration that is there. -/
theorem declared (h : s.Within files st) : ∀ d, s.result = .declared d →
    d.index < st.declarations.size := by
  cases h with
  | mk _ _ _ hdeclared _ _ => exact hdeclared

/-- A result that is written is syntax of one of the files. -/
theorem written (h : s.Within files st) : ∀ n, s.result = .written (some n) →
    n.From files := by
  cases h
  assumption

/-- The types that a signature puts for parameters are within the store. -/
theorem mapping (h : s.Within files st) : ∀ e ∈ s.mapping, e.2.Within files st := by
  cases h
  assumption

end Signature.Within

namespace Ty

/-- Any refers to nothing. -/
theorem any_within : any.Within files st :=
  .intrinsic

/-- The alternatives of a union are within whatever the union is. -/
theorem Within.unionParts {t : Ty} (h : t.Within files st) :
    ∀ part ∈ t.unionParts, part.Within files st := by
  unfold Ty.unionParts
  split
  · cases h
    assumption
  · intro part hpart
    exact List.mem_singleton.mp hpart ▸ h

/-- A union is within a store if its alternatives are. -/
theorem ofAlternatives_within {ts : List Ty} (h : ∀ t ∈ ts, t.Within files st) :
    (ofAlternatives ts).Within files st := by
  unfold ofAlternatives
  split
  · exact .intrinsic
  · exact h _ List.mem_cons_self
  · exact .union h

/-- What is put for a type parameter is what all values of a mapping are, if type parameters are
that too. -/
theorem forall_lookup {φ : Ty → Prop} {mapping : List (String × Ty)} (h : ∀ e ∈ mapping, φ e.2)
    (hparameter : ∀ name, φ (.parameter name)) (name : String) : φ (lookup mapping name) := by
  unfold lookup
  split
  · rename_i t hfound
    exact h _ (List.mem_of_find?_eq_some hfound)
  · exact hparameter name

/-- What a mapping puts for a name is within the store. -/
theorem lookup_within {mapping : List (String × Ty)} (h : ∀ e ∈ mapping, e.2.Within files st)
    (name : String) : (lookup mapping name).Within files st :=
  forall_lookup h (fun _ => .parameter) name

/-- The mapping of an instance puts its arguments. -/
theorem mappingOf_within {arguments : List Ty} (h : ∀ t ∈ arguments, t.Within files st)
    (e : Entity) :
    ∀ p ∈ mappingOf e arguments, p.2.Within files st :=
  fun p hp => h p.2 (List.of_mem_zip (show (p.1, p.2) ∈ _ from hp)).2

/-- The values of merged mappings are what those of both are. -/
theorem forall_mergeMappings {φ : Ty → Prop} {old new : List (String × Ty)}
    (hold : ∀ e ∈ old, φ e.2) (hnew : ∀ e ∈ new, φ e.2) : ∀ e ∈ mergeMappings old new, φ e.2 := by
  unfold mergeMappings Table.merge
  -- The overriding entries are put one after the other.
  induction new generalizing old with
  | nil => exact hold
  | cons a rest ih =>
    have hput : ∀ e ∈ (Table.put ⟨old⟩ a.1 a.2).entries, φ e.2 := fun e he => by
      rcases Table.mem_entries_put he with rfl | he
      · exact hnew a List.mem_cons_self
      · exact hold e he
    exact ih hput fun e he => hnew e (List.mem_cons_of_mem _ he)

/-- A merged mapping puts what the two mappings put. -/
theorem mergeMappings_within {old new : List (String × Ty)} (hold : ∀ e ∈ old, e.2.Within files st)
    (hnew : ∀ e ∈ new, e.2.Within files st) : ∀ e ∈ mergeMappings old new, e.2.Within files st :=
  forall_mergeMappings hold hnew

end Ty

end ScriptGraph
