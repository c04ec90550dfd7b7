import Licensing.Toml.Draft
import Licensing.Toml.Quotation

/-!
Reading a whole document. Values nest, so their readers take fuel; `read` gives them more of it
than a document of that length can use. A document that breaks a rule has no value at all, and the
first flaw on the way through it is the one that counts.
-/

namespace Licensing.Toml

/-- Line ends written as two characters become one. -/
def unifyLineEnds : List Char → List Char
  | '\r' :: '\n' :: rest => '\n' :: unifyLineEnds rest
  | c :: rest => c :: unifyLineEnds rest
  | [] => []

def skipSpaces (cs : List Char) : List Char :=
  cs.dropWhile isSpace

/-- The characters from the end of the line on, when the line has only a comment left. -/
def skipComment : List Char → Option (List Char)
  | '#' :: rest =>
    if (rest.takeWhile (· ≠ '\n')).any (isForbidden false) then none
    else some (rest.dropWhile (· ≠ '\n'))
  | cs => some cs

/-- The characters after spaces, line ends and comments, as they may stand in an array. -/
def skipLines (inComment : Bool) : List Char → Option (List Char)
  | [] => some []
  | c :: rest =>
    if inComment then
      if c = '\n' then skipLines false rest
      else if isForbidden false c then none
      else skipLines true rest
    else if isSpaceOrLineEnd c then skipLines false rest
    else if c = '#' then skipLines true rest
    else some (c :: rest)

/-- Whether a character may stand in a name without quotes. -/
def isBare (c : Char) : Bool :=
  c.isAlphanum || c == '-' || c == '_'

/-- One part of a dotted name. -/
def namePart (cs : List Char) : Option (String × List Char) :=
  match cs with
  | '"' :: rest => (escapedText false rest).map fun read => (String.ofList read.1, read.2)
  | '\'' :: rest => (literalText rest).map fun read => (String.ofList read.1, read.2)
  | _ =>
    let bare := cs.takeWhile isBare
    if bare.isEmpty then none else some (String.ofList bare, cs.dropWhile isBare)

/-- A dotted name, with the spaces after it. -/
def dottedName : Nat → List Char → Option (Path × List Char)
  | 0, _ => none
  | fuel + 1, cs => do
    let (part, rest) ← namePart cs
    match skipSpaces rest with
    | '.' :: more => do
      let (parts, rest) ← dottedName fuel (skipSpaces more)
      return (part :: parts, rest)
    | rest => return ([part], rest)

mutual

/-- A value of any kind. -/
def value : Nat → List Char → Except Flaw (Value × List Char)
  | 0, _ => .error .malformed
  | fuel + 1, cs =>
    match cs with
    | '[' :: rest => do
      let (items, rest) ← arrayItems fuel (← orMalformed (skipLines false rest))
      return (.array items, rest)
    | '\x7b' :: rest =>
      match skipSpaces rest with
      | '\x7d' :: rest => .ok (.table [], rest)
      | rest => do
        let (entries, rest) ← inlineEntries fuel ⟨[], []⟩ rest
        return (.table entries, rest)
    | '"' :: _ | '\'' :: _ =>
      orMalformed ((quotedText cs).map fun read => (.text read.1, read.2))
    | _ => plainValue cs

/-- The items of an array up to its closing bracket, which is read too. A comma may stand after the
last item. -/
def arrayItems : Nat → List Char → Except Flaw (List Value × List Char)
  | 0, _ => .error .malformed
  | fuel + 1, cs =>
    match cs with
    | ']' :: rest => .ok ([], rest)
    | _ => do
      let (item, rest) ← value fuel cs
      match ← orMalformed (skipLines false rest) with
      | ']' :: rest => return ([item], rest)
      | ',' :: rest => do
        let (items, rest) ← arrayItems fuel (← orMalformed (skipLines false rest))
        return (item :: items, rest)
      | _ => .error .malformed

/-- The entries of an inline table up to its closing brace, which is read too. -/
def inlineEntries : Nat → InlineDraft → List Char → Except Flaw (Table × List Char)
  | 0, _, _ => .error .malformed
  | fuel + 1, draft, cs => do
    let (path, entry, rest) ← keyValue fuel cs
    let draft ← orMalformed (draft.define path entry)
    match skipSpaces rest with
    | '\x7d' :: rest => return (draft.entries, rest)
    | ',' :: rest => inlineEntries fuel draft (skipSpaces rest)
    | _ => .error .malformed

/-- A name, an equals sign and a value. -/
def keyValue : Nat → List Char → Except Flaw (Path × Value × List Char)
  | 0, _ => .error .malformed
  | fuel + 1, cs => do
    let (path, rest) ← orMalformed (dottedName fuel cs)
    let rest ← orMalformed (expect '=' rest)
    let (entry, rest) ← value fuel (skipSpaces rest)
    return (path, entry, rest)

end

/-- The header of a table, after its opening bracket. -/
def tableHeader (fuel : Nat) (d : Draft) (cs : List Char) : Option (Path × Draft × List Char) := do
  let (path, rest) ← dottedName fuel (skipSpaces cs)
  let draft ← d.settle.declareTable path
  return (path, draft, ← expect ']' rest)

/-- The header of an item of an array of tables, after its opening brackets. -/
def itemHeader (fuel : Nat) (d : Draft) (cs : List Char) : Option (Path × Draft × List Char) := do
  let (path, rest) ← dottedName fuel (skipSpaces cs)
  let draft ← d.settle.appendItem path
  return (path, draft, ← expect ']' (← expect ']' rest))

/-- A header or a definition: the document after it, and the header that now holds. -/
def statement (fuel : Nat) (header : Path) (d : Draft) (cs : List Char) :
    Except Flaw (Path × Draft × List Char) :=
  match cs with
  | '[' :: '[' :: rest => orMalformed (itemHeader fuel d rest)
  | '[' :: rest => orMalformed (tableHeader fuel d rest)
  | _ => do
    let (path, entry, rest) ← keyValue fuel cs
    return (header, ← orMalformed (d.define header path entry), rest)

/-- The lines of a document, each with one statement at most. -/
def lines : Nat → Path → Draft → List Char → Except Flaw Table
  | 0, _, _, _ => .error .malformed
  | fuel + 1, header, d, cs =>
    match skipSpaces cs with
    | [] => .ok d.root
    | '\n' :: rest => lines fuel header d rest
    | '#' :: rest => do
      match ← orMalformed (skipComment ('#' :: rest)) with
      | '\n' :: rest => lines fuel header d rest
      | _ => return d.root
    | cs => do
      let (header, d, rest) ← statement fuel header d cs
      match ← orMalformed (skipComment (skipSpaces rest)) with
      | [] => return d.root
      | '\n' :: rest => lines fuel header d rest
      | _ => .error .malformed

def read (text : String) : Except Flaw Table :=
  let cs := unifyLineEnds text.toList
  lines (4 * cs.length + 8) [] .empty cs

/-- What the bytes of a file hold. -/
inductive Content where
  | undecodable
  | flawed (flaw : Flaw)
  | document (t : Table)

/-- The document in the bytes of a file, which have to be UTF-8. -/
def readBytes (bytes : ByteArray) : Content :=
  match String.fromUTF8? bytes with
  | none => .undecodable
  | some text =>
    match read text with
    | .error flaw => .flawed flaw
    | .ok t => .document t

end Licensing.Toml
