import Licensing.NormalForm.Clauses
import Licensing.Log.Event

/-!
The normal form of an expression: a set of clauses of which one has to be met as a whole. Whether a
list of allowed licenses meets one is a question about the texts of its terms. Written out, its
clauses and their terms are sorted by text, so that the written form depends on the sets alone.
-/

namespace Licensing

/-- Alternatives, each of them a set of terms that hold together. -/
structure NormalForm where
  clauses : List Clause
  deriving DecidableEq, Repr

namespace Clause

/-- The terms in the order of their texts. -/
def sorted (c : Clause) : List Term :=
  c.mergeSort fun t u => t.text ≤ u.text

def texts (c : Clause) : List String :=
  c.map Term.text

/-- Whether a list of texts comes before another one or is the same. The first texts that differ
decide. -/
def textsBefore : List String → List String → Bool
  | [], _ => true
  | _ :: _, [] => false
  | s :: ss, t :: ts => if s = t then textsBefore ss ts else decide (s ≤ t)

end Clause

/-- Expressions joined from the left by one operator. -/
def joinAll (op : Operator) : List Expr → Except Fault Expr
  | [] => .error .nothingToJoin
  | e :: rest => .ok (rest.foldl (fun joined next => .join joined op next) e)

/-- The terms of a clause joined by `AND`. -/
def Clause.toExpr (c : List Term) : Except Fault Expr :=
  joinAll .and (c.map Term.toExpr)

namespace NormalForm

def size (nf : NormalForm) : Nat :=
  nf.clauses.length

/-- Whether two normal forms have the same clauses. -/
def same (a b : NormalForm) : Bool :=
  Clauses.subset a.clauses b.clauses && Clauses.subset b.clauses a.clauses

/-- The clauses with their terms sorted, in the order of the texts of their terms. -/
def sortedClauses (nf : NormalForm) : List (List Term) :=
  (nf.clauses.map Clause.sorted).mergeSort fun c d =>
    Clause.textsBefore (Clause.texts c) (Clause.texts d)

/-- Each clause as an expression, in order. -/
def choices (nf : NormalForm) : Except Fault (List Expr) :=
  nf.sortedClauses.mapM Clause.toExpr

/-- The normal form as an expression: an `OR` of `AND`s. -/
def toExpr (nf : NormalForm) : Except Fault Expr := do
  joinAll .or (← nf.choices)

def text (nf : NormalForm) : Except Fault String :=
  nf.toExpr.map Expr.render

/-- Whether all terms of some clause are among the allowed texts. -/
def isSatisfiedBy (nf : NormalForm) (allowed : List String) : Bool :=
  nf.clauses.any fun c => c.all fun t => allowed.contains t.text

def defaultThreshold : Int := 64

end NormalForm

namespace Expr

open Log (Event Logged)

/-- The normal form of an expression. -/
def normalForm (e : Expr) : Except Fault NormalForm :=
  e.walkedClauses.map NormalForm.mk

def sizeEvent? (e : Expr) (threshold : Int) (nf : NormalForm) : Option Event :=
  if threshold < nf.size then some (.largeNormalForm nf.size threshold e.render) else none

/-- The normal form of an expression; one that is larger than the threshold is reported. -/
def normalize (e : Expr) (threshold : Int := NormalForm.defaultThreshold) :
    ExceptT Fault Logged NormalForm :=
  match e.normalForm with
  | .error fault => ⟨.error fault, []⟩
  | .ok nf => ⟨.ok nf, (e.sizeEvent? threshold nf).toList⟩

def isEquivalent (a b : Expr) : ExceptT Fault Logged Bool := do
  let ofLeft ← a.normalize
  let ofRight ← b.normalize
  return ofLeft.same ofRight

/-- Whether an expression leaves more than one alternative. -/
def offersChoice (e : Expr) : ExceptT Fault Logged Bool := do
  return 1 < (← e.normalize).size

/-- The alternatives that an expression leaves, each without any `OR`. -/
def validChoices (e : Expr) : ExceptT Fault Logged (List Expr) := do
  let nf ← e.normalize
  ExceptT.mk (pure nf.choices)

/-- Whether every alternative that one expression leaves is one of another's. -/
def isValidChoice (choice e : Expr) : ExceptT Fault Logged Bool := do
  let ofChoice ← choice.normalize
  let ofWhole ← e.normalize
  return Clauses.subset ofChoice.clauses ofWhole.clauses

end Expr

end Licensing
