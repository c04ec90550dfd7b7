import Licensing.Reader
import Licensing.Token.Lexer

/-!
Parsing: the text of an expression is split into tokens, and the tokens are read. A text that is not
an expression gives an error with the place at which that was noticed, never an expression.
-/

namespace Licensing

open Log (Logged)
open ParseError (Objection)

/-- The tokens of a text; the first stray character is an objection. -/
def tokenize (text : String) : Except Objection (List Token) :=
  match Token.scan 0 text.toList with
  | .ok tokens => .ok tokens
  | .error stray => .error ⟨stray.position, .unexpectedCharacter stray.character⟩

/-- The expression that a text writes. Nothing is reported about a text that does not split into
tokens. -/
def parse (k : Lookup) (text : String) : Logged (Except ParseError Expr) :=
  if Text.allBlank text then ⟨.error ⟨text, 0, .emptyExpression⟩, []⟩
  else
    match tokenize text with
    | .error objection => ⟨.error (.ofObjection text objection), []⟩
    | .ok tokens =>
      let read := Reader.run k text.length .initial tokens
      ⟨read.value.mapError (.ofObjection text), read.events⟩

end Licensing
