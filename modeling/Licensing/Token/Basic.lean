import Licensing.Expr.Basic

/-!
Tokens of an expression. An identifier is a run of letters, digits, points and hyphens, and may
begin with a `DocumentRef-` part that ends in a colon; a `+` right after it belongs to its token.
The words of the operators are written in capitals or in small letters throughout.
-/

namespace Licensing.Token

inductive Kind where
  | operator (op : Operator)
  | opening
  | closing
  | identifier (value : String) (orLater : Bool)
  deriving DecidableEq, Repr

namespace Kind

def width : Kind → Nat
  | operator op => op.word.length
  | opening => 1
  | closing => 1
  | identifier value orLater => value.length + orLater.toNat

/-- Whether an operand can begin with the token. -/
def beginsOperand : Kind → Bool
  | opening | identifier .. => true
  | operator _ | closing => false

end Kind

/-- What stands at a place of an expression in messages: a token, or nothing at its end. -/
def describe : Option Kind → String
  | none => "end of expression"
  | some (.identifier value _) => "identifier " ++ Text.quoted value
  | some (.operator op) => Text.quoted op.word
  | some .opening => Text.quoted "("
  | some .closing => Text.quoted ")"

end Licensing.Token

namespace Licensing

/-- A token and the place of its first character. -/
structure Token where
  kind : Token.Kind
  position : Nat
  deriving DecidableEq, Repr

end Licensing
