import Licensing.Expr.Query
import Licensing.Grammar.Basic
import Licensing.Parse

/-!
Reading by descent through the levels of the grammar, with a place in the list of the tokens. It
takes nothing for granted that `Reader` knows from its state: tokens are looked up by their place,
operands are joined only if they fit, and the exceptions of an expression are asked for. Each of
these could fail, so a failure need not be an objection to the text.

An identifier is reported at the moment at which it is resolved, whatever comes of the text.
-/

namespace Licensing.Descent

open Grammar (Level)
open Log (Event Logged)
open ParseError (Cause Objection)
open Token (Kind)

/-- Why nothing was read. -/
inductive Failure where
  | objection (o : Objection)
  /-- An expression did not fit where it was put, or could not be asked. -/
  | misfit (fault : Fault)
  /-- A token behind the mark of the end was looked up. -/
  | pastEnd
  /-- The descent was not allowed as many calls as it takes. -/
  | unfinished
  deriving DecidableEq, Repr

/-- What comes of reading, with the events that were reported on the way. -/
abbrev Reading (α : Type) : Type := ExceptT Failure Logged α

def objecting {α : Type} : Except Objection α → Except Failure α
  | .ok a => .ok a
  | .error o => .error (.objection o)

def fitting {α : Type} : Except Fault α → Except Failure α
  | .ok a => .ok a
  | .error fault => .error (.misfit fault)

/-- What an identifier was resolved to, with its event. -/
def resolving {α : Type} : Except Objection (α × Option Event) → Reading α
  | .ok (found, event) => ExceptT.mk ⟨.ok found, event.toList⟩
  | .error o => throw (.objection o)

/-- The tokens of a text of a length. -/
structure Input where
  tokens : List Token
  length : Nat

namespace Input

/-- The tokens with the mark of their end. -/
def marked (input : Input) : List (Option Token) :=
  input.tokens.map some ++ [none]

/-- What stands at a place: a token, or the mark of the end. -/
def look (input : Input) (i : Nat) : Except Failure (Option Token) :=
  match input.marked[i]? with
  | some found => .ok found
  | none => .error .pastEnd

def objection {α : Type} (input : Input) (found : Option Token) (cause : Cause) :
    Except Failure α :=
  .error (.objection ⟨found.elim input.length (·.position), cause⟩)

/-- The place behind an operator, if an operand can begin there. -/
def takeOperator (input : Input) (op : Operator) (i : Nat) : Except Failure Nat := do
  let found ← input.look (i + 1)
  let kind := found.map (·.kind)
  if kind.any (·.beginsOperand) then return i + 1
  else input.objection found (.missingRightOperand op kind)

end Input

/-- What was read, and the place behind it. -/
structure Part where
  expr : Expr
  next : Nat
  deriving DecidableEq, Repr

/-- The level of the operands in a chain of an operator. -/
def operandLevel : Operator → Level
  | .or => .conjunction
  | .and => .granted
  | .attach => .primary

/-- An expression with the exception that stands at a place. -/
def attach (k : Lookup) (input : Input) (granted : Expr) (i : Nat) : Reading Part := do
  match ← input.look i with
  | some ⟨.identifier value orLater, position⟩ =>
    let x ← resolving (k.resolveException value orLater position)
    let e ← fitting (granted.join? .attach (.exception x))
    let after ← input.look (i + 1)
    if after.map (·.kind) = some (.operator .attach) then input.objection after .secondException
    else return ⟨e, i + 1⟩
  | found => input.objection found (.exceptionExpected (found.map (·.kind)))

/-- A part with its exception, if `WITH` follows. -/
def grant (k : Lookup) (input : Input) (part : Part) : Reading Part := do
  let word ← input.look part.next
  if word.map (·.kind) = some (.operator .attach) then
    let i ← input.takeOperator .attach part.next
    let attached ← fitting part.expr.exceptionIds
    if attached ≠ [] then input.objection word .exceptionInGranted
    else attach k input part.expr i
  else return part

/-- The group that was opened at a place of the text, if its end follows what is in it. -/
def close (input : Input) (opened : Nat) (inner : Part) : Reading Part := do
  let last ← input.look inner.next
  if last.map (·.kind) = some .closing then return ⟨inner.expr, inner.next + 1⟩
  else input.objection last (.missingClosing opened (last.map (·.kind)))

mutual

/-- The expression of a level at a place, with so many nested calls at most. -/
def read (k : Lookup) (input : Input) : Nat → Level → Nat → Reading Part
  | 0, _, _ => throw .unfinished
  | calls + 1, .disjunction, i => do more k input .or calls (← read k input calls .conjunction i)
  | calls + 1, .conjunction, i => do more k input .and calls (← read k input calls .granted i)
  | calls + 1, .granted, i => do grant k input (← read k input calls .primary i)
  | calls + 1, .primary, i => do
    match ← input.look i with
    | some ⟨.opening, opened⟩ =>
      let second ← input.look (i + 1)
      if second.map (·.kind) = some .closing then input.objection second .emptyParentheses
      else close input opened (← read k input calls .disjunction (i + 1))
    | some ⟨.identifier value orLater, position⟩ =>
      let license ← resolving (k.resolveLicense value orLater position)
      return ⟨.license license, i + 1⟩
    | some ⟨.operator op, position⟩ =>
      input.objection (some ⟨.operator op, position⟩) (.missingLeftOperand op)
    | some ⟨.closing, position⟩ => input.objection (some ⟨.closing, position⟩) .unexpectedClosing
    | none => input.objection none .unexpectedEnd

/-- The rest of a chain of an operator, with what was read of it as its left operand. -/
def more (k : Lookup) (input : Input) (op : Operator) : Nat → Part → Reading Part
  | 0, _ => throw .unfinished
  | calls + 1, left => do
    let word ← input.look left.next
    if word.map (·.kind) = some (.operator op) then
      let i ← input.takeOperator op left.next
      let right ← read k input calls (operandLevel op) i
      let e ← fitting (left.expr.join? op right.expr)
      more k input op calls ⟨e, right.next⟩
    else return left

end

/-- The expression that all the tokens make. Each of them is worth four calls, one for each level.
-/
def readAll (k : Lookup) (input : Input) : Reading Expr := do
  let part ← read k input (4 * (input.tokens.length + 1)) .disjunction 0
  match ← input.look part.next with
  | none => return part.expr
  | some ⟨.closing, position⟩ => input.objection (some ⟨.closing, position⟩) .unexpectedClosing
  | some t => input.objection (some t) (.operatorExpected (some t.kind))

/-- The expression that a text writes. -/
def parse (k : Lookup) (text : String) : Reading Expr :=
  if Text.allBlank text then throw (.objection ⟨0, .emptyExpression⟩)
  else do readAll k ⟨← objecting (tokenize text), text.length⟩

end Licensing.Descent
