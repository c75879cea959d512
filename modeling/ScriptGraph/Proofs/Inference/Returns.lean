import ScriptGraph.Inference.Declarations
import ScriptGraph.Proofs.Graph.Sites
import ScriptGraph.Proofs.Inference.Cycles
import ScriptGraph.Proofs.Syntax.Kinds
import ScriptGraph.Proofs.Syntax.Standing

/-!
# What a function returns first

The result of a function without an annotation is read off its body, by a search that does not
enter nested functions, methods and classes. Which return statements belong to a function can also
be told from their places alone, and the search finds the first of these in preorder.

- `returnsFrom`: the return statements of a function, told by the way up to its body
- `firstReturn_eq`: the search finds the first one of them
- `results_returned`: the result of a function whose body is a block
-/

namespace ScriptGraph.Inference

open Binding Syntax

/-- Whether what stands in a construct belongs to the function around it: no function, method or
class starts here. -/
def leavesReturns (t : Tree) : Bool :=
  match t.label with
  | .construct k => !hasOwnReturns k
  | .token _ => false

/-- Whether the way up leads to a depth through nothing that has return statements of its own. -/
def openAbove (depth : Nat) (trail : List Crumb) : Bool :=
  (trail.take (trail.length - depth)).all fun c => leavesReturns c.parent

/-- Whether a node is a return statement of the function that has the given body: nothing between
the two is a function, a method or a class. -/
def returnsFrom (body n : Node) : Bool :=
  n.is .returnStatement && openAbove (body.trail.length + 1) n.trail

variable {source : Source} {depth : Nat} {trail : List Crumb}

/-! ## Ways up -/

/-- No construct that is near enough encloses returns. -/
theorem openAbove_of_length_le (h : trail.length ≤ depth) : openAbove depth trail = true := by
  have hzero : trail.length - depth = 0 := by omega
  rw [openAbove, hzero]
  rfl

/-- One step further up the way has to be open too. -/
theorem openAbove_cons (h : depth ≤ trail.length) (c : Crumb) :
    openAbove depth (c :: trail) = (leavesReturns c.parent && openAbove depth trail) := by
  have hlength : (c :: trail).length - depth = trail.length - depth + 1 := by
    simp only [List.length_cons]
    omega
  rw [openAbove, hlength, List.take_succ_cons, List.all_cons]
  rfl

/-- A way up that is closed further out is closed. -/
theorem openAbove_append_eq_false (hclosed : openAbove depth trail = false) (inner : List Crumb) :
    openAbove depth (inner ++ trail) = false := by
  have hle : depth ≤ trail.length := by
    by_contra hlt
    rw [openAbove_of_length_le (by omega)] at hclosed
    exact nomatch hclosed
  induction inner with
  | nil => exact hclosed
  | cons c rest ih =>
    have hrest : depth ≤ (rest ++ trail).length := by
      rw [List.length_append]
      omega
    rw [List.cons_append, openAbove_cons hrest, ih, Bool.and_false]

/-! ## The search -/

/-- A return statement below a depth that is no part of a nested function. -/
def returnsBelow (depth : Nat) (n : Node) : Bool :=
  n.is .returnStatement && openAbove depth n.trail

/-- Inside of something that has return statements of its own there are none of the function. -/
theorem filter_preorderAll_of_closed {parent : Tree} (hdepth : depth ≤ trail.length)
    (hparent : leavesReturns parent = false) (index : Nat) (ts : List Tree) :
    (preorderAll source parent trail index ts).filter (returnsBelow depth) = [] := by
  apply List.filter_eq_nil_iff.mpr
  intro n hn
  obtain ⟨inner, j, -, htrail⟩ := Graph.trail_of_mem_preorderAll hn
  have hclosed : openAbove depth (⟨parent, j⟩ :: trail) = false := by
    rw [openAbove_cons hdepth, hparent, Bool.false_and]
  rw [returnsBelow, htrail, openAbove_append_eq_false hclosed]
  simp

/-- A construct leaves returns to the one around it if it has none of its own. -/
theorem leavesReturns_construct {k : Kind} {r : Option Field} {s e : Nat} {cs : List Tree} :
    leavesReturns (.node (.construct k) r s e cs) = !hasOwnReturns k :=
  rfl

/-- A node of a construct is of the kind of its label. -/
theorem is_node (k k' : Kind) (r : Option Field) (s e : Nat) (cs : List Tree) :
    (Node.mk source (.node (.construct k) r s e cs) trail).is k' = (k == k') := by
  show (Label.construct k == Label.construct k') = (k == k')
  rw [Bool.beq_eq_decide_eq, Bool.beq_eq_decide_eq]
  simp

mutual

/-- The search in a tree finds the first return statement of the function in preorder. -/
theorem firstReturnIn_eq {trail : List Crumb} (hdepth : depth ≤ trail.length)
    (hopen : openAbove depth trail = true) (t : Tree) :
    firstReturnIn source trail t =
      ((preorderFrom source trail t).filter (returnsBelow depth)).head? := by
  match t with
  | .node (.token w) r s e cs =>
    -- A token neither returns nor leads to something that does.
    have hself : returnsBelow depth ⟨source, .node (.token w) r s e cs, trail⟩ = false := rfl
    rw [firstReturnIn, preorderFrom, List.filter_cons_of_neg (by simp [hself]),
      filter_preorderAll_of_closed hdepth rfl]
    rfl
  | .node (.construct k) r s e cs =>
    have hself : returnsBelow depth ⟨source, .node (.construct k) r s e cs, trail⟩ =
        (k == .returnStatement) := by
      rw [returnsBelow, hopen, Bool.and_true, is_node]
    rw [firstReturnIn, preorderFrom]
    by_cases hown : hasOwnReturns k = true
    · -- What has return statements of its own is none itself.
      have hkind : k ≠ .returnStatement := fun hk => by
        rw [hk] at hown
        exact nomatch hown
      have hclosed : leavesReturns (.node (.construct k) r s e cs) = false := by
        rw [leavesReturns_construct, hown]
        rfl
      rw [if_pos hown, List.filter_cons_of_neg (by simp [hself, hkind]),
        filter_preorderAll_of_closed hdepth hclosed]
      rfl
    · rw [if_neg hown]
      -- A return statement is found before anything inside it.
      by_cases hk : k = .returnStatement
      · rw [if_pos (beq_iff_eq.mpr hk), List.filter_cons_of_pos (hself.trans (beq_iff_eq.mpr hk))]
        rfl
      · have hleaves : leavesReturns (.node (.construct k) r s e cs) = true := by
          rw [leavesReturns_construct]
          simpa using hown
        rw [if_neg (by simp [hk]), List.filter_cons_of_neg (by simp [hself, hk])]
        have hinside :
            ∀ j, openAbove depth (⟨.node (.construct k) r s e cs, j⟩ :: trail) = true := by
          intro j
          rw [openAbove_cons hdepth, hleaves, hopen]
          rfl
        exact firstReturnAmong_eq (Nat.le_succ_of_le hdepth) hinside 0 cs

/-- The first return among trees is the first open one in preorder. -/
theorem firstReturnAmong_eq {parent : Tree} {trail : List Crumb} (hdepth : depth ≤ trail.length + 1)
    (hopen : ∀ j, openAbove depth (⟨parent, j⟩ :: trail) = true) (index : Nat) (ts : List Tree) :
    firstReturnAmong source parent trail index ts =
      ((preorderAll source parent trail index ts).filter (returnsBelow depth)).head? := by
  match ts with
  | [] => rfl
  | t :: ts =>
    have hlength : depth ≤ (⟨parent, index⟩ :: trail : List Crumb).length := hdepth
    rw [firstReturnAmong, preorderAll, List.filter_append, List.head?_append,
      firstReturnIn_eq hlength (hopen index) t, firstReturnAmong_eq hdepth hopen (index + 1) ts]

end

/-- The search in the body of a function finds the first of its return statements in preorder. -/
theorem firstReturn_eq {body : Node} (hbody : body.is .returnStatement = false) :
    firstReturn body = (body.preorder.filter (returnsFrom body)).head? := by
  obtain ⟨source, ⟨l, r, s, e, cs⟩, trail⟩ := body
  have hopen : ∀ j, openAbove (trail.length + 1) (⟨.node l r s e cs, j⟩ :: trail) = true :=
    fun j => openAbove_of_length_le (by simp)
  have hself : returnsFrom ⟨source, .node l r s e cs, trail⟩ ⟨source, .node l r s e cs, trail⟩ =
      false := by
    rw [returnsFrom, hbody, Bool.false_and]
  rw [Node.preorder, preorderFrom, List.filter_cons_of_neg (by simp [hself])]
  exact firstReturnAmong_eq (Nat.le_refl _) hopen 0 cs

/-! ## Results -/

/-- The type of the value that the first return statement of a function has, or `void`. -/
def returnedType (body : Node) : Inquiry Ty :=
  match (body.preorder.filter (returnsFrom body)).head? with
  | some statement =>
    match firstConstruct statement with
    | some value => typeOf value
    | none => return .intrinsic .void
  | none => return .intrinsic .void

/-- A block has the type that it returns. -/
theorem bodyType_block {body : Node} (h : body.is .statementBlock = true) :
    bodyType body = returnedType body := by
  rw [bodyType, if_pos h, firstReturn_eq (Node.is_eq_false h nofun), returnedType]
  cases (body.preorder.filter (returnsFrom body)).head? with
  | none => rfl
  | some statement =>
    cases hvalue : firstConstruct statement with
    | none => simp only [Option.bind_some, hvalue]
    | some value => simp only [Option.bind_some, hvalue]

/-- The result of a function whose body is a block, unless it is annotated or the function is a
constructor: what the first of its own return statements returns, in a promise if the function is
asynchronous. What a generator returns is left open. In a file the return statements of a function
are told in the order of the text. -/
theorem results_returned {k : Knowledge} {id : DeclarationId} {body : Node}
    (hkind : (k.store.declaration id).kind ≠ .constructor)
    (hplain : resultAscription (k.store.declaration id) = none)
    (hbody : (k.store.declaration id).node.child? .body = some body)
    (hblock : body.is .statementBlock = true) (oracle : Oracle) :
    let returned := ((returnedType body).perform oracle).run k
    (((resultType id).perform oracle).run k =
      if (k.store.declaration id).node.hasToken "*" then (.any, k)
      else if (k.store.declaration id).node.hasToken "async" then
        ((globalObject "Promise" [returned.1]).perform oracle).run returned.2
      else returned) ∧
    ∀ file, (k.store.declaration id).node.StandsIn file →
      (body.preorder.filter (returnsFrom body)).Pairwise fun a b => a.start ≤ b.start := by
  intro returned
  constructor
  · have hfound : ((declarationOf id).perform oracle).run k = (k.store.declaration id, k) := rfl
    rw [resultType, Inquiry.run_bind, hfound]
    dsimp only
    -- The rule for a function that is no constructor, has no annotation and has a body.
    rw [if_neg (by simpa using hkind), hplain, hbody]
    dsimp only
    -- A generator or not, and asynchronous or not.
    split
    · rfl
    · rw [Inquiry.run_bind, bodyType_block hblock]
      split <;> rfl
  · intro file hfile
    -- The body stands in the file as the declaration does, and preorder is the order of its text.
    have hstands : body.StandsIn file := (Node.StandsIn.passesDown file).of_child? hfile hbody
    exact hstands.preorder_ordered.filter _

/-- At first nothing but the library and the file has been bound. -/
theorem standsIn_start {settings : Settings} {disk : Disk} {library root : Source}
    {fileName text : String} {dialect : Dialect} {i : Nat}
    (hroot : root = .ofText fileName text dialect)
    (hlibrary : (Library.ofSource library).store.declarations.size ≤ i)
    (hi : i < (Knowledge.start settings disk library root).store.declarations.size) :
    ((Knowledge.start settings disk library root).store.declaration ⟨i⟩).node.StandsIn root := by
  subst hroot
  exact standsIn_of_declaredBy (Source.ofText_placed _ _ _) _ (mem_declaredBy hlibrary hi)

/-- A function with a return statement in a nested function, one in a nested block and one behind
them. -/
def nestedReturnsSource : Source :=
  .ofText "/a.ts"
    "function f()\x7bfunction g()\x7breturn 1\x7d\x7bif(0)return 'a'\x7dreturn true\x7d" .ts

/-- The one in the nested block decides. -/
theorem results_returned_nested :
    let start := Knowledge.start {} {} default nestedReturnsSource
    let oracle := answer (depthBound start.workspace)
    ∃ i ∈ List.range start.store.declarations.size,
      (start.store.declaration ⟨i⟩).name = "f" ∧
        (start.store.declaration ⟨i⟩).kind ≠ .constructor ∧
        resultAscription (start.store.declaration ⟨i⟩) = none ∧
          ∃ body, (start.store.declaration ⟨i⟩).node.child? .body = some body ∧
            body.is .statementBlock = true ∧
              ((resultType ⟨i⟩).perform oracle).run start =
                ((returnedType body).perform oracle).run start ∧
              (((returnedType body).perform oracle).run start).1.isIntrinsic .string = true ∧
              (body.preorder.filter (returnsFrom body)).length = 2 ∧
              (body.preorder.filter (returnsFrom body)).Pairwise fun a b => a.start ≤ b.start := by
  intro start oracle
  have hfound : ∃ i ∈ List.range start.store.declarations.size,
      (start.store.declaration ⟨i⟩).name = "f" ∧
        (start.store.declaration ⟨i⟩).kind ≠ .constructor ∧
        resultAscription (start.store.declaration ⟨i⟩) = none ∧
        ∃ body ∈ (start.store.declaration ⟨i⟩).node.child? .body,
          body.is .statementBlock = true ∧
            (start.store.declaration ⟨i⟩).node.hasToken "*" = false ∧
            (start.store.declaration ⟨i⟩).node.hasToken "async" = false ∧
            (((returnedType body).perform oracle).run start).1.isIntrinsic .string = true ∧
            (body.preorder.filter (returnsFrom body)).length = 2 := by
    decide +kernel
  obtain ⟨i, hi, hname, hkind, hplain, body, hbody, hblock, hstar, hasync, hstring, htwo⟩ := hfound
  -- The library is empty, so the declaration is one of the file, and stands in it.
  have hlibrary : (Library.ofSource default).store.declarations.size ≤ i := by
    have hnone : (Library.ofSource default).store.declarations.size = 0 := by decide +kernel
    rw [hnone]
    exact Nat.zero_le i
  have hstands : (start.store.declaration ⟨i⟩).node.StandsIn nestedReturnsSource := by
    -- The start is kept folded, since the lemma speaks of it as a whole.
    have hstart : start = Knowledge.start {} {} default nestedReturnsSource := rfl
    clear_value start
    subst hstart
    exact standsIn_start rfl hlibrary (List.mem_range.mp hi)
  obtain ⟨hresult, hordered⟩ := results_returned hkind hplain hbody hblock oracle
  rw [hstar, hasync] at hresult
  exact ⟨i, hi, hname, hkind, hplain, body, hbody, hblock, hresult, hstring, htwo,
    hordered _ hstands⟩

/-- What a generator returns does not decide: its result is not that of its return statement. -/
theorem exists_generator_result :
    let source : Source := .ofText "/a.ts" "function*g()\x7breturn 1\x7d" .ts
    let start := Knowledge.start {} {} default source
    ∃ i ∈ List.range start.store.declarations.size,
      let d := start.store.declaration ⟨i⟩
      d.kind = .function ∧ resultAscription d = none ∧ d.node.hasToken "async" = false ∧
        ∃ body ∈ d.node.child? .body, body.is .statementBlock = true ∧
          ((returnedType body).conduct.run start).1.isIntrinsic .number = true ∧
            ((resultType ⟨i⟩).conduct.run start).1.isIntrinsic .number = false := by
  decide +kernel

end ScriptGraph.Inference
