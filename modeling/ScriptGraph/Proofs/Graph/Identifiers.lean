import ScriptGraph.Graph.Basic

/-!
# Identifiers of nodes and edges

The offset can be read off the identifier of a node, whatever characters its name has: it is what
follows the last `@`. The identifier of a file differs from that of any declaration. An edge
without a label and a hint ends with its target, so that the offset of the target can be read off
the identifier of the edge as well, and the source from what comes before it.
-/

namespace ScriptGraph.Graph

/-- What follows the last occurrence of a character. -/
theorem eq_of_append_cons_eq {a b x y : List Char} {c : Char} (hx : c ∉ x) (hy : c ∉ y)
    (h : a ++ c :: x = b ++ c :: y) : x = y := by
  -- Read from the end, the tail is what comes before the first `c`.
  have hlast : ∀ l tail : List Char, c ∉ tail →
      (l ++ c :: tail).reverse.takeWhile (· ≠ c) = tail.reverse := by
    intro l tail htail
    have hrev : (l ++ c :: tail).reverse = tail.reverse ++ c :: l.reverse := by simp
    rw [hrev, List.takeWhile_append_of_pos]
    · simp
    · intro d hd
      have hne : d ≠ c := fun he => htail (he ▸ List.mem_reverse.mp hd)
      simpa using hne
  have hrev := (hlast a x hx).symm.trans ((congrArg _ (congrArg List.reverse h)).trans
    (hlast b y hy))
  exact List.reverse_inj.mp hrev

/-- There is no sign for places among digits. -/
theorem at_notMem_toDigits (n : Nat) : '@' ∉ Nat.toDigits 10 n := fun h =>
  absurd (Nat.isDigit_of_mem_toDigits (by decide) (by decide) h) (by decide)

/-- What ends with an offset after an `@` has one offset at its end. -/
theorem offset_eq_of_append_eq {a b : List Char} {offset offset' : Nat}
    (h : a ++ '@' :: Nat.toDigits 10 offset = b ++ '@' :: Nat.toDigits 10 offset') :
    offset = offset' := by
  -- No digit is an `@`, so both offsets follow the last one.
  have hdigits := eq_of_append_cons_eq (at_notMem_toDigits offset) (at_notMem_toDigits offset') h
  have hnumber := congrArg (fun l => Nat.ofDigitChars 10 l 0) hdigits
  simpa only [Nat.ofDigitChars_ten_toDigits] using hnumber

/-- The identifier of a vertex spells its kind, its name and its offset. -/
theorem toList_nodeId (kind name : String) (offset : Nat) :
    (nodeId kind name offset).toList =
      (kind.toList ++ ':' :: name.toList) ++ '@' :: Nat.toDigits 10 offset := by
  have hoffset : (offset : Int).repr.toList = Nat.toDigits 10 offset := Nat.toList_repr
  simp [nodeId, hoffset]

/-- Nodes with one identifier start at one offset. -/
theorem offset_eq_of_nodeId_eq {kind kind' name name' : String} {offset offset' : Nat}
    (h : nodeId kind name offset = nodeId kind' name' offset') : offset = offset' := by
  have hlist := congrArg String.toList h
  rw [toList_nodeId, toList_nodeId] at hlist
  exact offset_eq_of_append_eq hlist

/-- No declaration has the identifier of a file. -/
theorem nodeId_ne_file {kind : NodeKind} (hkind : kind ∈ [.function, .class, .method])
    {name fileName : String} {offset offset' : Nat} :
    nodeId kind.name name offset ≠ nodeId NodeKind.file.name fileName offset' := by
  intro h
  have hlist := congrArg (fun s => s.toList.take 2) h
  simp only [toList_nodeId] at hlist
  rcases kind with _ | _ | _ | _ | _ | _
  all_goals simp [NodeKind.name] at hkind hlist

/-! ## Edges -/

/-- The key of an edge spells its kind, its ends and empty labels. -/
theorem toList_edgeKey (kind source target : String) :
    (edgeKey kind source target none none).toList =
      (kind.toList ++ ':' :: source.toList) ++ ('-' :: '>' :: target.toList ++ "@@@@".toList) := by
  simp [edgeKey]

/-- Edges with one identifier lead to nodes that start at one offset. -/
theorem offset_eq_of_edgeKey_eq {kind kind' source source' : String} {k k' name name' : String}
    {offset offset' : Nat} (h : edgeKey kind source (nodeId k name offset) none none =
      edgeKey kind' source' (nodeId k' name' offset') none none) : offset = offset' := by
  have hlist := congrArg String.toList h
  rw [toList_edgeKey, toList_edgeKey, ← List.append_assoc, ← List.append_assoc] at hlist
  -- What is left is the name of the kind, the source and the target, which ends with its offset.
  have htarget : (kind.toList ++ ':' :: source.toList ++ '-' :: '>' :: (k.toList ++
      ':' :: name.toList)) ++ '@' :: Nat.toDigits 10 offset = (kind'.toList ++
        ':' :: source'.toList ++ '-' :: '>' :: (k'.toList ++ ':' :: name'.toList)) ++
          '@' :: Nat.toDigits 10 offset' := by
    simpa [toList_nodeId] using List.append_cancel_right hlist
  exact offset_eq_of_append_eq htarget

/-- Edges of one kind with one identifier and one target have one source. -/
theorem source_eq_of_edgeKey_eq {kind source source' target : String}
    (h : edgeKey kind source target none none = edgeKey kind source' target none none) :
    source = source' := by
  have hlist := congrArg String.toList h
  rw [toList_edgeKey, toList_edgeKey] at hlist
  have hsource := List.append_cancel_left (List.append_cancel_right hlist)
  exact String.toList_inj.mp (List.cons.inj hsource).2

/-- The identifier of an edge tells its kind. -/
theorem kind_eq_of_edgeKey_eq {kind kind' : EdgeKind} (hkind : kind ∈ EdgeKind.produced)
    (hkind' : kind' ∈ EdgeKind.produced) {source source' target target' : String}
    {label hint label' hint' : Option String}
    (h : edgeKey kind.name source target label hint =
      edgeKey kind'.name source' target' label' hint') :
    kind = kind' := by
  -- The names of the kinds differ in their first two letters.
  have hlist := congrArg (fun s => s.toList.take 2) h
  rcases kind with _ | _ | _ | _ <;> rcases kind' with _ | _ | _ | _
  all_goals simp [edgeKey, EdgeKind.name, EdgeKind.produced] at hkind hkind' hlist ⊢

end ScriptGraph.Graph
