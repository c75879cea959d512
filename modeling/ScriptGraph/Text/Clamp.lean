import ScriptGraph.Text.Blank

/-!
# Bounded labels

A label shows at most a given number of characters; one that is longer is cut and ends in an
ellipsis. The cut counts from the front for a limit that is not negative, and from the back
otherwise, by the rule of `takeSigned`.
-/

namespace ScriptGraph

/-- The first `n` elements; for a negative `n`, all but the last `-n`. -/
def takeSigned (n : Int) (xs : List α) : List α :=
  match n with
  | .ofNat k => xs.take k
  | .negSucc k => xs.take (xs.length - (k + 1))

/-- A number that is not negative takes as many items from the front. -/
@[simp] theorem takeSigned_ofNat (n : Nat) (xs : List α) :
    takeSigned (n : Int) xs = xs.take n := rfl

namespace Text

/-- Ends every text that was cut. -/
def ellipsis : Char := '…'

/-- Cuts a text of more than `limit` characters to `limit - 1` of them and an ellipsis. -/
def cut (limit : Int) (text : List Char) : List Char :=
  if (text.length : Int) ≤ limit then text else takeSigned (limit - 1) text ++ [ellipsis]

/-- Collapses white space, then cuts to `limit` characters. -/
def clamp (limit : Int) (text : String) : String :=
  String.ofList (cut limit (collapseFrom false text.toList))

end Text

end ScriptGraph
