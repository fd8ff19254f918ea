import ShiftReduce.Proofs.Grammar.Derivation
/-!
# Walks over a tree

The leaves and the text of a tree are found by walks that keep a stack of pending work instead of
calling themselves. What a walk still puts out depends on the pending work only: for the leaves
these are trees, for the text also closing brackets, and there it matters whether a tree has been
written before, since a space goes in front of every other one.

Main statement: `Tree.walks_follow_shape`.
-/

namespace ShiftReduce

namespace Tree

variable {symbols : SymbolTable}

/-! ## Leaves -/

lemma yieldAll_eq_flatMap (row : List Tree) : yieldAll row = row.flatMap leaves := by
  induction row with
  | nil => rfl
  | cons tree row ih => rw [yieldAll, List.flatMap_cons, ih, leaves_eq_yield]

/-! ## Text -/

/-- The text that pending work stands for, where `first` says that no tree has been written yet. -/
def pendingText (symbols : SymbolTable) : List Pending → Bool → String
  | [], _ => ""
  | .close :: pending, first => ")" ++ pendingText symbols pending first
  | .write tree :: pending, first =>
    (if first then "" else " ") ++ tree.bracketed symbols ++ pendingText symbols pending false

/-- Behind an opening bracket every child has its space. -/
lemma pendingText_writeAll (children : List Tree) (pending : List Pending) :
    pendingText symbols (writeAll children pending) false =
      bracketedAll symbols children ++ pendingText symbols pending false := by
  induction children with
  | nil => simp [writeAll, bracketedAll]
  | cons child children ih =>
    have hcons : writeAll (child :: children) pending =
        .write child :: writeAll children pending := rfl
    rw [hcons, pendingText, ih, bracketedAll, if_neg Bool.false_ne_true, String.append_assoc,
      String.append_assoc, String.append_assoc]

/-- Whatever is pending, the walk adds its text to what is written already. -/
lemma renderFrom_eq (pending : List Pending) (first : Bool) (out : String) :
    renderFrom symbols pending first out = out ++ pendingText symbols pending first := by
  fun_induction renderFrom symbols pending first out with
  | case1 first out => rw [pendingText, String.append_empty]
  | case2 pending first out ih => rw [ih, pendingText, String.append_assoc]
  | case3 token pending first out ih =>
    rw [dite_eq_ite] at ih
    rw [ih, pendingText, bracketed]
    simp only [String.append_assoc]
  | case4 rule symbol children pending first out ih =>
    -- the bracket opened here is closed by the piece put below the children
    rw [dite_eq_ite] at ih
    rw [ih, pendingText_writeAll, pendingText, pendingText, bracketed]
    simp only [String.append_assoc]

/-- The text written with a stack is the one written by recursion. -/
lemma render_eq_bracketed (symbols : SymbolTable) (tree : Tree) :
    tree.render symbols = tree.bracketed symbols := by
  rw [render, renderFrom_eq, pendingText, pendingText, if_pos rfl, String.empty_append,
    String.empty_append, String.append_empty]

lemma bracketedAll_eq_join (row : List Tree) : bracketedAll symbols row =
    String.join (row.map fun child => " " ++ child.render symbols) := by
  induction row with
  | nil => rfl
  | cons tree row ih =>
    rw [bracketedAll, List.map_cons, String.join_cons, ih, render_eq_bracketed]

/-- The walks find what recursion finds: the leaves of an inner node are those of its children, one
child after another, and its text is the symbol's name and the texts of its children, each after a
space, in brackets. -/
theorem walks_follow_shape (symbols : SymbolTable) (tree : Tree) :
    (tree.leaves = match tree with
      | leaf token => [token]
      | node _ _ children => children.flatMap leaves) ∧
    (tree.render symbols = match tree with
      | leaf token => token.text
      | node _ symbol children => "(" ++ symbols.name symbol ++
        String.join (children.map fun child => " " ++ child.render symbols) ++ ")") ∧
    tree.leaves = tree.yield ∧ tree.render symbols = tree.bracketed symbols := by
  refine ⟨?leaves, ?text, leaves_eq_yield tree, render_eq_bracketed symbols tree⟩
  case leaves =>
    rw [leaves_eq_yield]
    cases tree with
    | leaf token => rw [yield]
    | node rule symbol children => rw [yield, yieldAll_eq_flatMap]
  case text =>
    rw [render_eq_bracketed]
    cases tree with
    | leaf token => rw [bracketed]
    | node rule symbol children => rw [bracketed, bracketedAll_eq_join]

end Tree

end ShiftReduce
