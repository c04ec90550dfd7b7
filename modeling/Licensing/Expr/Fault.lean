import Licensing.Expr.Basic

/-!
Why an expression cannot be built or cannot be read. Each fault is a cause of its own;
`Fault.message` words it.
-/

namespace Licensing

/-- A fault of an expression, or of what was to become one. -/
inductive Fault where
  /-- An exception stands where `WITH` needs a license. -/
  | exceptionGrantedException (id : String)
  /-- The left operand of `WITH` has an exception already. -/
  | nestedAttachment
  /-- The right operand of `WITH` is no exception. -/
  | notAnException (kind : String)
  /-- An exception is joined by an operator other than `WITH`. -/
  | looseException (id : String) (op : Operator)
  /-- A value to be joined is neither a license of the catalog nor an expression. -/
  | notAnOperand (kind : String)
  /-- A value to be granted an exception is no single license. -/
  | notASingleLicense (text : String)
  /-- A value to be attached is no exception. -/
  | notAttachable (kind : String)
  /-- An exception stands alone where the meaning of a license is asked for. -/
  | meaninglessException (id : String)
  /-- A foreign value stands where the meaning of an expression is asked for. -/
  | notAnExpression (quoted : String)
  /-- A text was to be made of an integer with too many digits. -/
  | unshowable
  /-- No expressions at all were to be joined. -/
  | nothingToJoin
  /-- An operator was reached before its operands were worked out. -/
  | unfinishedOperands
  deriving DecidableEq, Repr

namespace Fault

def message : Fault → String
  | exceptionGrantedException id =>
    "WITH requires a license on the left, got exception " ++ Text.quoted id
  | nestedAttachment => "WITH cannot be nested inside the left operand of another WITH"
  | notAnException kind => "WITH requires an exception on the right, got " ++ kind
  | looseException id op =>
    "exception " ++ Text.quoted id ++ " can only be attached with WITH, not " ++ op.word
  | notAnOperand kind => "expected a license or an expression, got " ++ kind
  | notASingleLicense text =>
    "an exception can only be attached to a single license, got " ++ text
  | notAttachable kind => "expected a license exception, got " ++ kind
  | meaninglessException id => "exception " ++ Text.quoted id ++ " has no meaning outside of WITH"
  | notAnExpression quoted => "not an expression node: " ++ quoted
  | unshowable => Decimal.overLimitMessage none
  | nothingToJoin => "reduce() of empty iterable with no initial value"
  | unfinishedOperands => "an operator has no operands yet"

end Fault

/-- Why a value is refused where the meaning of an expression is asked for. The refusal shows the
value, and fails over that when the value cannot be shown. -/
def Foreign.refusal (v : Foreign) : Fault :=
  if v.showable then .notAnExpression v.quoted else .unshowable

end Licensing
