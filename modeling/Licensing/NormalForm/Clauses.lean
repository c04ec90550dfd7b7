import Licensing.Expr.Fault
import Licensing.NormalForm.Clause

/-!
The clauses of an expression: the alternatives that it leaves, worked out by distributing `AND` over
`OR` and by attaching the exception of a `WITH` to every license below it.

`clauses` follows the tree. `walkedClauses` visits it with a stack of its own, so that long chains
cost no recursion: the operands of a joined pair are visited before the pair, and every finished
expression leaves its clauses on a second stack. `walkedClauses_eq` says that both agree on every
tree, its faults included.
-/

namespace Licensing.Expr

/-- What an operator makes of the clauses of its operands; the right operand of `WITH` has none. -/
def joinClauses (op : Operator) (left right : List Clause) : List Clause :=
  match op with
  | .or => Clauses.union left right
  | _ => Clauses.product left right

/-- What `WITH` makes of the clauses of its left operand. -/
def grantClauses (right : Expr) (granted : List Clause) : Except Fault (List Clause) :=
  match right with
  | exception x => .ok (Clauses.grant x granted)
  | other => .error (.notAnException other.kindName)

def leafClauses : Leaf → Except Fault (List Clause)
  | .license l => .ok [[⟨l, none⟩]]
  | .exception x => .error (.meaninglessException x.id)
  | .foreign v => .error v.refusal

def clauses : Expr → Except Fault (List Clause)
  | leaf l => leafClauses l
  | join left .attach right => left.clauses.bind (grantClauses right)
  | join left op right =>
    left.clauses.bind fun ofLeft => right.clauses.map fun ofRight => joinClauses op ofLeft ofRight

/-- A visit to an expression, before its operands are visited or after it. -/
structure Visit where
  node : Expr
  operandsDone : Bool

def Visit.weight (v : Visit) : Nat :=
  if v.operandsDone then 1 else 2 * v.node.size

/-- The steps that the visits on a stack take at most. -/
def visitsWeight : List Visit → Nat
  | [] => 0
  | visit :: rest => visit.weight + visitsWeight rest

/-- The visits still to be made, and the clauses that finished expressions left, the last one
first. -/
def walk (stack : List Visit) (done : List (List Clause)) : Except Fault (List (List Clause)) :=
  match stack with
  | [] => .ok done
  | ⟨leaf l, _⟩ :: rest =>
    match leafClauses l with
    | .error fault => .error fault
    | .ok found => walk rest (found :: done)
  | ⟨join left .attach right, false⟩ :: rest =>
    walk (⟨left, false⟩ :: ⟨join left .attach right, true⟩ :: rest) done
  | ⟨join _ .attach right, true⟩ :: rest =>
    match done with
    | granted :: others =>
      match grantClauses right granted with
      | .error fault => .error fault
      | .ok found => walk rest (found :: others)
    | [] => .error .unfinishedOperands
  | ⟨join left op right, false⟩ :: rest =>
    walk (⟨left, false⟩ :: ⟨right, false⟩ :: ⟨join left op right, true⟩ :: rest) done
  | ⟨join _ op _, true⟩ :: rest =>
    match done with
    | ofRight :: ofLeft :: others => walk rest (joinClauses op ofLeft ofRight :: others)
    | _ => .error .unfinishedOperands
termination_by visitsWeight stack
decreasing_by
  all_goals simp only [visitsWeight, Visit.weight, size, if_true, Bool.false_eq_true, if_false]
  all_goals try split
  all_goals omega

def walkedClauses (e : Expr) : Except Fault (List Clause) :=
  match walk [⟨e, false⟩] [] with
  | .error fault => .error fault
  | .ok (found :: _) => .ok found
  | .ok [] => .error .unfinishedOperands

/-- Visiting an expression on top of any stack leaves its clauses on top of what was done, and the
rest of the stack to be visited. -/
theorem walk_cons (e : Expr) (rest : List Visit) (done : List (List Clause)) :
    walk (⟨e, false⟩ :: rest) done = e.clauses.bind fun found => walk rest (found :: done) := by
  induction e generalizing rest done with
  | leaf l =>
      rw [walk, clauses]
      cases leafClauses l <;> rfl
  | join left op right ihLeft ihRight =>
      by_cases hOp : op = .attach
      · subst hOp
        rw [walk, ihLeft, clauses]
        cases left.clauses with
        | error fault => rfl
        | ok granted =>
            simp only [Except.bind]
            rw [walk]
            cases grantClauses right granted <;> rfl
      · rw [walk, ihLeft, clauses]
        · cases left.clauses with
          | error fault => rfl
          | ok ofLeft =>
              simp only [Except.bind]
              rw [ihRight]
              cases right.clauses with
              | error fault => rfl
              | ok ofRight =>
                  simp only [Except.bind, Except.map]
                  rw [walk]
                  exact hOp
        · exact hOp
        · exact hOp

/-- The walk with two stacks gives the clauses that follow the tree, or its error. -/
theorem walkedClauses_eq (e : Expr) : e.walkedClauses = e.clauses := by
  rw [walkedClauses, walk_cons]
  cases e.clauses with
  | error fault => rfl
  | ok found => simp [Except.bind, walk]

end Licensing.Expr
