import ScriptGraph.Proofs.Graph.Edges
import ScriptGraph.Proofs.Sites.Targets

/-!
# What the sites of a graph refer to

The nodes and edges of a graph are found by inquiries that keep what is known. A call refers to
the node at which its target is declared.

- `vertices_learns`, `referentOf_learns`: building a graph keeps what is known
- `vertex_referentOf`: the node that a call refers to
-/

namespace ScriptGraph.Graph

open Binding Syntax Inference Sites

variable {files : Source → Prop} {oracle : Oracle} {base : Knowledge} {s : Source}
  {b : FileBinding} {settings : Settings} {vertexAt : Location → Option String} {n : Node}

section Oracles

variable (horacle : oracle.Learns files)
include horacle

/-! ## Nodes -/

/-- The text of a signature is found within the files. -/
theorem signatureText_learns {id : DeclarationId}
    (hid : id.index < base.store.declarations.size) :
    Learns files False oracle base (signatureText id) fun _ _ => True := by
  -- Functions and methods are shown with their signatures.
  have hshown : ∀ now, base.Later now → Learns files False oracle now
      (do return some (← (← signatureOf id).display demand)) fun _ _ => True := fun now hnow =>
    .bind (signatureOf_learns horacle (hnow.declaration_lt hid))
      fun _ _ _ hs => .map (.weaken (signature_display_learns horacle hs) fun _ _ _ _ => trivial)
  refine .bind (declarationOf_learns hid) fun d now hnow _ => ?_
  split
  · exact hshown now hnow
  · exact hshown now hnow
  · exact .pure fun _ _ => trivial

/-- Adding a vertex keeps to the files. -/
theorem addVertex_learns (hb : b.Within base.store) (draft : Draft) (c : Candidate) :
    Learns files False oracle base (addVertex b draft c) fun _ _ => True := by
  unfold addVertex
  split
  · exact .pure fun _ _ => trivial
  -- A candidate that has been declared is drawn with its signature.
  · rename_i id hid
    have hlt := (hb.declarations _ (Table.mem_entries_of_find? hid)).1
    refine .bind (declarationOf_learns hlt) fun d now hnow _ => ?_
    dsimp only
    split
    · exact .pure fun _ _ => trivial
    · exact .bind (signatureText_learns horacle (hnow.declaration_lt hlt)) fun _ _ _ _ =>
          .pure fun _ _ => trivial

/-- Adding all vertices keeps to the files. -/
theorem vertices_learns (hb : b.Within base.store) :
    Learns files False oracle base (vertices s b) fun _ _ => True :=
  .foldlM (fun _ hnow c _ draft => addVertex_learns horacle (hnow.binding hb) draft c) _

/-! ## Sites -/

omit horacle in
/-- What stands for a constructed class is there. -/
theorem constructedDeclaration_learns {id : DeclarationId}
    (hid : id.index < base.store.declarations.size) :
    Learns files False oracle base (constructedDeclaration id)
      fun id st => id.index < st.declarations.size := by
  refine .bind (declarationOf_learns hid) fun d now hnow _ => ?_
  have hid := hnow.declaration_lt hid
  -- Only a constructor has a class standing for it.
  split
  · refine .store nofun fun next hnext hsound => .pure fun last hlast => ?_
    have hle := hlast.noSmaller.declarations_le
    rename_i symbol _ _
    cases hfirst : next.store.firstOf (· == .class) symbol with
    | none => exact (hnext.trans hlast).declaration_lt hid
    | some found => exact Nat.lt_of_lt_of_le (firstOf_lt hsound.workspace.store hfirst) hle
  · exact .pure fun _ hlast => hlast.declaration_lt hid

omit horacle in
/-- What stands in for a declaration is there. -/
theorem standIn_learns {id : DeclarationId} (hid : id.index < base.store.declarations.size) :
    Learns files False oracle base (standIn n id)
      fun id st => id.index < st.declarations.size := by
  unfold standIn
  split
  · exact .pure fun _ hnow => hnow.declaration_lt hid
  · exact constructedDeclaration_learns hid

/-- The type in a label keeps to the files. -/
theorem labelType_learns {t : Ty} (ht : t.Within files base.store) :
    Learns files False oracle base (labelType t) fun _ _ => True :=
  .map (.weaken (display_learns horacle ht) fun _ _ _ _ => trivial)

/-- The label of an argument keeps to the files. -/
theorem argumentLabel_learns {p : Parameter × Node} (hp : p.1.type.Within files base.store)
    (hn : p.2.From files) :
    Learns files False oracle base (argumentLabel settings p) fun _ _ => True := by
  have hlabel : Learns files False oracle base (dataflowLabel settings p.1 p.2)
      fun _ _ => True := by
    unfold dataflowLabel
    split
    · exact .bind (labelType_learns horacle hp) fun _ now hnow _ =>
        .bind (typeOf_learns horacle hn) fun _ next _ ht =>
          .bind (labelType_learns horacle ht) fun _ _ _ _ => .pure fun _ _ => trivial
    · exact .pure fun _ _ => trivial
  exact .map (.weaken hlabel fun _ _ _ _ => trivial)

omit horacle in
/-- What is handed to a parameter is a construct of the site's file. -/
theorem handed_within {signature : Option Signature} {st : Store}
    (hs : FoundWithin files signature st) (hn : n.From files) :
    ∀ p ∈ handed signature n, p.1.type.Within files st ∧ p.2.From files := by
  intro p hp
  unfold handed at hp
  -- The pairs come from a signature that has been found and from the arguments of the site.
  split at hp
  · rename_i found hfound
    have hmem := List.of_mem_zip (show (p.1, p.2) ∈ _ from hp)
    refine ⟨(hs found (Option.filter_eq_some_iff.mp hfound).1).parameters _ hmem.1, ?_⟩
    have hargument := hmem.2
    unfold callArguments at hargument
    split at hargument
    · rename_i hlist
      split at hargument
      · exact nomatch hargument
      · exact (hn.child? hlist).constructs hargument
    · exact nomatch hargument
  · exact nomatch hp

/-- What a name refers to keeps to the files. -/
theorem referentOf_learns (hn : n.From files) :
    Learns files False oracle base (referentOf settings vertexAt n) fun _ _ => True := by
  refine .bind (siteTarget_learns horacle hn) fun target now _ ⟨hdeclared, hsignature⟩ => ?_
  split
  · exact .pure fun _ _ => trivial
  · rename_i id hid
    refine .bind (standIn_learns (hdeclared id hid)) fun stand next hnext hstand =>
      .bind (declarationOf_learns hstand) fun d last hlast _ => ?_
    split
    · exact .pure fun _ _ => trivial
    · have hwithin := handed_within hsignature hn
      -- The labels are built one after another, and each keeps to what is known by then.
      have hlabels : Learns files False oracle last
          ((handed target.signature n).mapM (argumentLabel settings)) fun _ _ => True :=
        .weaken (.mapM (φ := fun _ _ => True) (fun _ _ _ _ ha => ha) fun final hfinal p hp =>
          argumentLabel_learns horacle ((hwithin p hp).1.mono
            ((hnext.trans hlast).trans hfinal).noSmaller) (hwithin p hp).2)
              fun _ _ _ _ => trivial
      exact .bind hlabels fun _ _ _ _ => .pure fun _ _ => trivial

end Oracles

/-- A call refers to the node at which its target is declared. -/
theorem vertex_referentOf (hcall : n.is .callExpression = true) (k : Knowledge) :
    (((referentOf settings vertexAt n).perform oracle).run k).1.map Referent.vertex =
      (((targetPlace n).perform oracle).run k).1.bind vertexAt := by
  unfold referentOf targetPlace
  rw [Inquiry.run_bind, Inquiry.run_bind]
  cases (((siteTarget n).perform oracle).run k).1.declaration with
  | none => rfl
  | some id =>
    -- A declaration stands for itself as the target of a call.
    have hstand : standIn n id = pure id := if_pos hcall
    simp only [hstand, pure_bind, placeOf]
    rw [Inquiry.run_bind, Inquiry.run_bind]
    generalize ((declarationOf id).perform oracle).run _ = found
    -- Whatever the labels are, the node is the one at the place of the declaration.
    show _ = vertexAt found.1.location
    cases vertexAt found.1.location with
    | none => rfl
    | some vertex =>
      dsimp only
      rw [Inquiry.run_bind]
      rfl

end ScriptGraph.Graph
