import Licensing.Token.Basic

/-!
Why a text is no license expression: a cause, and the place in the text at which it was noticed.
`Cause.detail` words the cause, and `ParseError.message` shows it under the text.
-/

namespace Licensing

namespace ParseError

open Token (Kind describe)

/-- What is wrong with a text. A token that was met instead of another one is kept as `found`, which
is `none` at the end of the text. -/
inductive Cause where
  /-- There is nothing but blanks. -/
  | emptyExpression
  | unexpectedCharacter (c : Char)
  | missingRightOperand (op : Operator) (found : Option Kind)
  | missingLeftOperand (op : Operator)
  | emptyParentheses
  | unexpectedClosing
  | unexpectedEnd
  /-- The parenthesis at a place is not closed. -/
  | missingClosing (opened : Nat) (found : Option Kind)
  | operatorExpected (found : Option Kind)
  /-- The left operand of `WITH` has an exception already. -/
  | exceptionInGranted
  /-- A second `WITH` follows the exception of the first. -/
  | secondException
  | exceptionExpected (found : Option Kind)
  | exceptionAsLicense (value : String)
  | licenseAsException (value : String)
  | plusNotAllowed (value : String)
  | plusOnException (value : String)
  | deprecatedNotAllowed (value : String)
  | unknownNotAllowed (value : String)
  deriving DecidableEq, Repr

def Cause.detail : Cause → String
  | emptyExpression => "empty expression"
  | unexpectedCharacter c => "unexpected character " ++ Text.quoted (String.singleton c)
  | missingRightOperand op found =>
    "missing right operand for " ++ op.word ++ ", got " ++ describe found
  | missingLeftOperand op => "operator " ++ op.word ++ " in invalid position: missing left operand"
  | emptyParentheses => "empty parentheses"
  | unexpectedClosing => "unbalanced parentheses: unexpected \")\""
  | unexpectedEnd => "unexpected end of expression: expected a license identifier or \"(\""
  | missingClosing opened found =>
    "unbalanced parentheses: missing \")\" for \"(\" at position " ++ toString opened ++ ", got " ++
      describe found
  | operatorExpected found => "expected an operator, got " ++ describe found
  | exceptionInGranted =>
    "WITH cannot be chained; the clause on its left already has an exception"
  | secondException => "WITH cannot be chained; only one exception may be attached"
  | exceptionExpected found =>
    "WITH requires a single exception identifier on its right, got " ++ describe found
  | exceptionAsLicense value =>
    "exception " ++ Text.quoted value ++ " used as a license; attach it with WITH"
  | licenseAsException value =>
    "WITH requires an exception, but " ++ Text.quoted value ++ " is a license"
  | plusNotAllowed value =>
    "\"+\" is only allowed on deprecated license identifiers, not on " ++ Text.quoted value
  | plusOnException value => "exception " ++ Text.quoted value ++ " cannot carry \"+\""
  | deprecatedNotAllowed value =>
    "deprecated identifier " ++ Text.quoted value ++ " is not allowed"
  | unknownNotAllowed value =>
    "unknown identifier " ++ Text.quoted value ++
      "; use a \"LicenseRef-\" prefix for custom licenses"

/-- A cause and the place at which it was noticed. -/
structure Objection where
  position : Nat
  cause : Cause
  deriving DecidableEq, Repr

end ParseError

structure ParseError where
  text : String
  position : Nat
  cause : ParseError.Cause
  deriving DecidableEq, Repr

namespace ParseError

def ofObjection (text : String) (objection : Objection) : ParseError where
  text := text
  position := objection.position
  cause := objection.cause

def detail (e : ParseError) : String :=
  e.cause.detail

/-- The error in words, with the text and a mark under the place. -/
def message (e : ParseError) : String :=
  "license expression parse error at position " ++ toString e.position ++ ": " ++ e.detail ++
    "\n  " ++ e.text ++ "\n  " ++ String.ofList (List.replicate e.position ' ') ++ "^"

end ParseError

end Licensing
