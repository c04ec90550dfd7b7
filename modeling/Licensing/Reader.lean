import Licensing.Resolution

/-!
Reading an expression from its tokens, one after the other. `AND` binds tighter than `OR`, both lean
to the left, and `WITH` binds tightest. The state of the reader holds what stands to the left of the
operand that is awaited: within the innermost open parenthesis the left operands of a pending `OR`
and a pending `AND`, and the same for each group around it.

A step looks at one token and never back. It either objects to the token or goes on, so the tokens
before an objection are exactly the ones that were accepted.
-/

namespace Licensing.Reader

open Log (Event Logged)
open ParseError (Cause Objection)
open Token (Kind)

/-- The left operands that wait for a right one, within one pair of parentheses. -/
structure Pending where
  /-- All before the last `OR`. -/
  alternatives : Option Expr
  /-- All between that and the last `AND`. -/
  factors : Option Expr
  deriving DecidableEq, Repr

namespace Pending

def none : Pending := ⟨.none, .none⟩

/-- The conjunction that ends in an operand. -/
def conjunction (p : Pending) (operand : Expr) : Expr :=
  p.factors.elim operand fun factors => .join factors .and operand

/-- The whole group that ends in an operand. -/
def whole (p : Pending) (operand : Expr) : Expr :=
  p.alternatives.elim (p.conjunction operand) fun alternatives =>
    .join alternatives .or (p.conjunction operand)

end Pending

/-- A group around the innermost one: where the inner one was opened, and what waits for it. -/
structure Group where
  opened : Nat
  pending : Pending
  deriving DecidableEq, Repr

/-- What stands right before an operand. -/
inductive Lead where
  | start
  | opening
  | operator (op : Operator)
  deriving DecidableEq, Repr

/-- What the reader looks for. -/
inductive Awaiting where
  | operand (lead : Lead)
  /-- The exception for an expression, after the `WITH` at a place. -/
  | exception (granted : Expr) (position : Nat)
  /-- An operator or the end of the group after an operand, which may just have been granted an
  exception. -/
  | continuation (operand : Expr) (granted : Bool)
  deriving DecidableEq, Repr

/-- A reader between two tokens. -/
structure State where
  groups : List Group
  pending : Pending
  awaiting : Awaiting
  deriving DecidableEq, Repr

def State.initial : State := ⟨[], .none, .operand .start⟩

def hasException (e : Expr) : Bool :=
  e.leaves.any fun l => match l with
    | .exception _ => true
    | _ => false

/-- The objection to a token, or to the end, where an operand is awaited. -/
def operandMissing (lead : Lead) (found : Option Kind) : Cause :=
  match lead, found with
  | .operator op, found => .missingRightOperand op found
  | .opening, some .closing => .emptyParentheses
  | _, some (.operator op) => .missingLeftOperand op
  | _, some _ => .unexpectedClosing
  | _, none => .unexpectedEnd

/-- The objection to a token, or to the end, that does not continue an operand. -/
def notContinued (groups : List Group) (found : Option Kind) : Cause :=
  match groups with
  | group :: _ => .missingClosing group.opened found
  | [] =>
    match found with
    | some .closing => .unexpectedClosing
    | found => .operatorExpected found

/-- The reader after a token where an operand is awaited. -/
def stepOperand (k : Lookup) (s : State) (lead : Lead) (t : Token) :
    Except Objection (State × Option Event) :=
  match t.kind with
  | .identifier value orLater => do
    let (license, event) ← k.resolveLicense value orLater t.position
    return ({ s with awaiting := .continuation (.license license) false }, event)
  | .opening => .ok (⟨⟨t.position, s.pending⟩ :: s.groups, .none, .operand .opening⟩, none)
  | kind => .error ⟨t.position, operandMissing lead (some kind)⟩

/-- The reader after a token where an exception is awaited. What is granted is looked at only when
something that could be an exception follows. -/
def stepException (k : Lookup) (s : State) (granted : Expr) (position : Nat) (t : Token) :
    Except Objection (State × Option Event) :=
  if !t.kind.beginsOperand then
    .error ⟨t.position, .missingRightOperand .attach (some t.kind)⟩
  else if hasException granted then .error ⟨position, .exceptionInGranted⟩
  else
    match t.kind with
    | .identifier value orLater => do
      let (exception, event) ← k.resolveException value orLater t.position
      let operand := Expr.join granted .attach (.exception exception)
      return ({ s with awaiting := .continuation operand true }, event)
    | kind => .error ⟨t.position, .exceptionExpected (some kind)⟩

/-- The reader after a token that should continue an operand. -/
def stepContinuation (s : State) (operand : Expr) (granted : Bool) (t : Token) :
    Except Objection State :=
  match t.kind with
  | .operator .attach =>
    if granted then .error ⟨t.position, .secondException⟩
    else .ok { s with awaiting := .exception operand t.position }
  | .operator .and =>
    .ok { s with
      pending := { s.pending with factors := some (s.pending.conjunction operand) }
      awaiting := .operand (.operator .and) }
  | .operator .or =>
    .ok { s with
      pending := ⟨some (s.pending.whole operand), none⟩
      awaiting := .operand (.operator .or) }
  | .closing =>
    match s.groups with
    | group :: outer =>
      .ok ⟨outer, group.pending, .continuation (s.pending.whole operand) false⟩
    | [] => .error ⟨t.position, notContinued [] (some .closing)⟩
  | kind => .error ⟨t.position, notContinued s.groups (some kind)⟩

/-- The reader after one more token, with the event of the token. -/
def step (k : Lookup) (s : State) (t : Token) : Except Objection (State × Option Event) :=
  match s.awaiting with
  | .operand lead => stepOperand k s lead t
  | .exception granted position => stepException k s granted position t
  | .continuation operand granted => do
    return (← stepContinuation s operand granted t, none)

/-- The expression that was read, at the end of a text of the given length. -/
def finish (length : Nat) (s : State) : Except Objection Expr :=
  match s.awaiting with
  | .operand lead => .error ⟨length, operandMissing lead none⟩
  | .exception .. => .error ⟨length, .missingRightOperand .attach none⟩
  | .continuation operand _ =>
    match s.groups with
    | [] => .ok (s.pending.whole operand)
    | groups => .error ⟨length, notContinued groups none⟩

/-- The expression that the tokens make from a state on, with the events of the tokens that were
accepted. -/
def run (k : Lookup) (length : Nat) (s : State) : List Token → Logged (Except Objection Expr)
  | [] => ⟨finish length s, []⟩
  | t :: rest =>
    match step k s t with
    | .error objection => ⟨.error objection, []⟩
    | .ok (next, event) =>
      let after := run k length next rest
      ⟨after.value, event.toList ++ after.events⟩

end Licensing.Reader
