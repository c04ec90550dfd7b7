import Licensing.Expr.Fault

/-!
The text of an expression. A joined operand stands in parentheses exactly when its operator binds
less tightly than the one around it, so chains of one operator are written flat however they are
nested.

`text` follows the tree. `render` keeps what is still to be written on a stack of its own, so that
the depth of a tree costs no recursion; `render_eq_text` says that it writes the same.
-/

namespace Licensing.Expr

/-- Whether an expression is written in parentheses as an operand of an operator. -/
def needsParens (parent : Operator) : Expr → Bool
  | leaf _ => false
  | join _ op _ => op.strength < parent.strength

theorem needsParens_eq_true_iff {parent : Operator} {e : Expr} :
    e.needsParens parent = true ↔
      ∃ left op right, e = join left op right ∧ op.strength < parent.strength := by
  cases e with
  | leaf l => simp [needsParens]
  | join left op right =>
      simp only [needsParens, decide_eq_true_eq, join.injEq]
      constructor
      · intro h
        exact ⟨left, op, right, ⟨rfl, rfl, rfl⟩, h⟩
      · rintro ⟨_, _, _, ⟨-, rfl, -⟩, h⟩
        exact h

def enclose (parens : Bool) (s : String) : String :=
  if parens then "(" ++ s ++ ")" else s

def text : Expr → String
  | leaf l => l.text
  | join left op right =>
    enclose (left.needsParens op) left.text ++ (" " ++ op.word ++ " ") ++
      enclose (right.needsParens op) right.text

/-- Something that is still to be written. -/
inductive Piece where
  | words (s : String)
  | node (e : Expr)

namespace Piece

/-- The steps that writing takes at most. -/
def weight : Piece → Nat
  | words _ => 1
  | node e => 6 * e.size

def text : Piece → String
  | words s => s
  | node e => e.text

end Piece

/-- An operand before what else is to be written. -/
def pushOperand (parent : Operator) (e : Expr) (stack : List Piece) : List Piece :=
  if e.needsParens parent then .words "(" :: .node e :: .words ")" :: stack else .node e :: stack

/-- The steps that writing a stack takes at most. -/
def stackWeight : List Piece → Nat
  | [] => 0
  | piece :: rest => piece.weight + stackWeight rest

theorem stackWeight_pushOperand_le (parent : Operator) (e : Expr) (stack : List Piece) :
    stackWeight (pushOperand parent e stack) ≤ 6 * e.size + 2 + stackWeight stack := by
  unfold pushOperand
  split
  · simp only [stackWeight, Piece.weight]
    omega
  · simp only [stackWeight, Piece.weight]
    omega

/-- The text so far, followed by the pieces on the stack. -/
def write (out : String) (stack : List Piece) : String :=
  match stack with
  | [] => out
  | .words s :: rest => write (out ++ s) rest
  | .node (leaf l) :: rest => write (out ++ l.text) rest
  | .node (join left op right) :: rest =>
    write out (pushOperand op left (.words (" " ++ op.word ++ " ") :: pushOperand op right rest))
termination_by stackWeight stack
decreasing_by
  · simp only [stackWeight, Piece.weight]
    omega
  · simp only [stackWeight, Piece.weight, size]
    omega
  · have hLeft := stackWeight_pushOperand_le op left
      (.words (" " ++ op.word ++ " ") :: pushOperand op right rest)
    have hRight := stackWeight_pushOperand_le op right rest
    simp only [stackWeight, Piece.weight, size] at hLeft hRight ⊢
    omega

def render (e : Expr) : String :=
  write "" [.node e]

/-- The text of an expression, if the texts of all its leaves can be made. -/
def shown (e : Expr) : Except Fault String :=
  if e.leaves.all Leaf.showable then .ok e.render else .error .unshowable

def stackText (stack : List Piece) : String :=
  stack.foldr (fun piece after => piece.text ++ after) ""

theorem stackText_pushOperand (parent : Operator) (e : Expr) (stack : List Piece) :
    stackText (pushOperand parent e stack) =
      enclose (e.needsParens parent) e.text ++ stackText stack := by
  unfold pushOperand
  split
  · rename_i h
    simp [stackText, Piece.text, enclose, h, String.append_assoc]
  · rename_i h
    simp [stackText, Piece.text, enclose, h]

/-- Writing from a stack adds what its pieces say, one after another. -/
theorem write_eq (out : String) (stack : List Piece) :
    write out stack = out ++ stackText stack := by
  fun_induction write out stack with
  | case1 out => simp [stackText]
  | case2 out s rest ih => simp [ih, stackText, Piece.text, String.append_assoc]
  | case3 out l rest ih => simp [ih, stackText, Piece.text, Expr.text, String.append_assoc]
  | case4 out left op right rest ih =>
      have hSep (after : List Piece) : stackText (.words (" " ++ op.word ++ " ") :: after) =
          (" " ++ op.word ++ " ") ++ stackText after := rfl
      have hNode : stackText (.node (join left op right) :: rest) =
          (join left op right).text ++ stackText rest := rfl
      rw [ih, stackText_pushOperand, hSep, stackText_pushOperand, hNode]
      simp only [Expr.text, String.append_assoc]

/-- Writing an expression from the top of any stack adds its text, and leaves the rest to be
written. -/
theorem write_node (e : Expr) (out : String) (rest : List Piece) :
    write out (.node e :: rest) = write (out ++ e.text) rest := by
  rw [write_eq, write_eq, String.append_assoc]
  rfl

/-- The text that is written with a stack is the one that follows the tree. -/
theorem render_eq_text (e : Expr) : e.render = e.text := by
  simp [render, write_eq, stackText, Piece.text]

end Licensing.Expr
