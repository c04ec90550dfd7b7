import Licensing.Distinct
import Licensing.Expr.Fault

/-!
Questions about an expression: the identifiers in it, and the parts that `AND` joins at the top.
The first two refuse a tree with a foreign leaf and name the leftmost one.

`collect` and `takeApart` keep the trees that are still to be visited on a stack of their own, so
that long chains cost no recursion; `collect_eq` and `takeApart_eq` say, for every stack, what they
find in terms of `leaves` and `conjuncts`, which follow the tree.
-/

namespace Licensing

namespace Leaf

def licenseId? : Leaf → Option String
  | license l => some l.id
  | _ => none

def exceptionId? : Leaf → Option String
  | exception x => some x.id
  | _ => none

def foreign? : Leaf → Option Foreign
  | foreign v => some v
  | _ => none

end Leaf

namespace Expr

/-- The leftmost foreign leaf. -/
def firstForeign? (e : Expr) : Option Foreign :=
  e.leaves.findSome? Leaf.foreign?

/-- What is asked of an expression, unless it has a foreign leaf. -/
def unlessForeign {α : Type} (e : Expr) (answer : α) : Except Fault α :=
  match e.firstForeign? with
  | some v => .error v.refusal
  | none => .ok answer

/-- The steps that a walk over the trees on a stack takes at most. -/
def treesWeight : List Expr → Nat
  | [] => 0
  | e :: rest => e.size + treesWeight rest

/-- What the leaves of the trees on a stack answer, each answer once, behind those that were met
before. The tree on top comes first; a foreign leaf ends the walk. -/
def collect (ask : Leaf → Option String) (stack : List Expr) (met : List String) :
    Except Fault (List String) :=
  match stack with
  | [] => .ok met
  | foreign v :: _ => .error v.refusal
  | leaf l :: rest => collect ask rest ((ask l).elim met (addNew (· == ·) met))
  | join left _ right :: rest => collect ask (left :: right :: rest) met
termination_by treesWeight stack
decreasing_by
  all_goals simp only [treesWeight, size]
  all_goals omega

def licenseIds (e : Expr) : Except Fault (List String) :=
  collect Leaf.licenseId? [e] []

def exceptionIds (e : Expr) : Except Fault (List String) :=
  collect Leaf.exceptionId? [e] []

/-- A walk with a stack asks the leaves of the stack from left to right, and stops at the first
foreign one. -/
theorem collect_eq (ask : Leaf → Option String) (stack : List Expr) (met : List String) :
    collect ask stack met =
      match (stack.flatMap leaves).findSome? Leaf.foreign? with
      | some v => .error v.refusal
      | none => .ok (unionOn (· == ·) met ((stack.flatMap leaves).filterMap ask)) := by
  fun_induction collect ask stack met with
  | case1 met => rfl
  | case2 met v rest => rfl
  | case3 met l rest hNative ih =>
      have hFirst : Leaf.foreign? l = none := by
        cases l with
        | foreign v => exact absurd rfl (hNative v)
        | license l => rfl
        | exception x => rfl
      rw [ih]
      cases hAnswer : ask l with
      | none => simp [leaves, hFirst, hAnswer]
      | some id => simp [leaves, hFirst, hAnswer, unionOn_cons]
  | case4 met left op right rest ih =>
      rw [ih]
      simp only [List.flatMap_cons, leaves, List.append_assoc]

/-- Walking over one tree asks its leaves from left to right. -/
theorem collect_single (ask : Leaf → Option String) (e : Expr) :
    collect ask [e] [] = e.unlessForeign (distinctOn (· == ·) (e.leaves.filterMap ask)) := by
  rw [collect_eq, List.flatMap_singleton]
  rfl

/-- The operands of the chain of `AND` at the top, from right to left. -/
def conjuncts : Expr → List Expr
  | join left .and right => right.conjuncts ++ left.conjuncts
  | e => [e]

/-- The operands of the chains of `AND` at the top of the trees on a stack, behind those that were
met before. Of several that are the same the one that was met first stays. -/
def takeApart (stack met : List Expr) : List Expr :=
  match stack with
  | [] => met
  | join left .and right :: rest => takeApart (right :: left :: rest) met
  | e :: rest => takeApart rest (addNew same met e)
termination_by treesWeight stack
decreasing_by
  · simp only [treesWeight, size]
    omega
  · cases e <;> simp only [treesWeight, size] <;> omega

/-- The different operands of the chain of `AND` at the top. Of several that are the same the
rightmost one stays. -/
def decompose (e : Expr) : List Expr :=
  takeApart [e] []

theorem takeApart_eq (stack met : List Expr) :
    takeApart stack met = unionOn same met (stack.flatMap conjuncts) := by
  fun_induction takeApart stack met with
  | case1 met => rfl
  | case2 met left right rest ih =>
      rw [ih]
      simp only [List.flatMap_cons, conjuncts, List.append_assoc]
  | case3 met e rest hSingle ih =>
      rw [ih, List.flatMap_cons, conjuncts, List.singleton_append, unionOn_cons]
      exact hSingle

/-- The walk with a stack finds the operands of the chain, each kind once. -/
theorem decompose_eq (e : Expr) : e.decompose = distinctOn same e.conjuncts := by
  rw [decompose, takeApart_eq, List.flatMap_singleton]
  rfl

end Expr

end Licensing
