import Licensing.Toml.Number

/-!
Quoted text in a document. Between double quotes a backslash begins an escape; between single quotes
every character stands for itself. Three quotes instead of one let the text run over several lines.
-/

namespace Licensing.Toml

/-- Whether a control character makes the document invalid; the tab and, where a text may have
several lines, the line end are allowed. -/
def isForbidden (multiline : Bool) (c : Char) : Bool :=
  (c.toNat < 0x20 || c.toNat == 0x7F) && c != '\t' && !(multiline && c == '\n')

def isSpace (c : Char) : Bool :=
  c == ' ' || c == '\t'

def isSpaceOrLineEnd (c : Char) : Bool :=
  isSpace c || c == '\n'

/-- The character that a fixed number of hexadecimal digits names. -/
def codePoint (count : Nat) (cs : List Char) : Option (List Char × List Char) :=
  let digits := cs.take count
  let n := ofDigits 16 digits
  if digits.length = count ∧ digits.all isHexDigit ∧ n.isValidChar then
    some ([Char.ofNat n], cs.drop count)
  else none

/-- A backslash at the end of a line: the line end is left out, with all spaces and line ends after
it. Spaces may stand before it. -/
def foldedLine (cs : List Char) : Option (List Char × List Char) :=
  match cs.dropWhile isSpace with
  | [] => some ([], [])
  | '\n' :: rest => some ([], rest.dropWhile isSpaceOrLineEnd)
  | _ => none

/-- The text that an escape stands for; the backslash has been read. -/
def escapeSequence (multiline : Bool) : List Char → Option (List Char × List Char)
  | 'b' :: rest => some (['\x08'], rest)
  | 't' :: rest => some (['\t'], rest)
  | 'n' :: rest => some (['\n'], rest)
  | 'f' :: rest => some (['\x0c'], rest)
  | 'r' :: rest => some (['\r'], rest)
  | '"' :: rest => some (['"'], rest)
  | '\\' :: rest => some (['\\'], rest)
  | 'u' :: rest => codePoint 4 rest
  | 'U' :: rest => codePoint 8 rest
  | c :: rest => if multiline && isSpaceOrLineEnd c then foldedLine (c :: rest) else none
  | [] => none

theorem codePoint_length {count : Nat} {cs text rest : List Char}
    (h : codePoint count cs = some (text, rest)) : rest.length ≤ cs.length := by
  simp only [codePoint] at h
  split at h
  · simp only [Option.some.injEq, Prod.mk.injEq] at h
    rw [← h.2]
    simp
  · simp at h

theorem foldedLine_length {cs text rest : List Char} (h : foldedLine cs = some (text, rest)) :
    rest.length ≤ cs.length := by
  have hDrop : (cs.dropWhile isSpace).length ≤ cs.length := (List.dropWhile_sublist _).length_le
  unfold foldedLine at h
  split at h
  · simp_all
  · rename_i after hAfter
    simp only [Option.some.injEq, Prod.mk.injEq] at h
    have hRest : (after.dropWhile isSpaceOrLineEnd).length ≤ after.length :=
      (List.dropWhile_sublist _).length_le
    rw [← h.2]
    rw [hAfter] at hDrop
    simp only [List.length_cons] at hDrop
    omega
  · simp at h

theorem escapeSequence_length {multiline : Bool} {cs text rest : List Char}
    (h : escapeSequence multiline cs = some (text, rest)) : rest.length ≤ cs.length := by
  unfold escapeSequence at h
  split at h
  all_goals try (simp only [Option.some.injEq, Prod.mk.injEq] at h; simp [← h.2])
  · exact Nat.le_succ_of_le (codePoint_length h)
  · exact Nat.le_succ_of_le (codePoint_length h)
  · split at h
    · exact foldedLine_length h
    · simp at h
  · simp at h

/-- The text up to the closing double quotes, which are read too. -/
def escapedText (multiline : Bool) (cs : List Char) : Option (List Char × List Char) :=
  match cs with
  | [] => none
  | '"' :: rest =>
    match multiline, rest with
    | false, rest => some ([], rest)
    | true, '"' :: '"' :: after => some ([], after)
    | true, rest => (escapedText multiline rest).map fun read => ('"' :: read.1, read.2)
  | '\\' :: rest =>
    match h : escapeSequence multiline rest with
    | none => none
    | some (text, after) =>
      have : after.length ≤ rest.length := escapeSequence_length h
      (escapedText multiline after).map fun read => (text ++ read.1, read.2)
  | c :: rest =>
    if isForbidden multiline c then none
    else (escapedText multiline rest).map fun read => (c :: read.1, read.2)
termination_by cs.length

/-- The text up to the closing single quote, which is read too. -/
def literalText : List Char → Option (List Char × List Char)
  | [] => none
  | '\'' :: rest => some ([], rest)
  | c :: rest =>
    if isForbidden false c then none
    else (literalText rest).map fun read => (c :: read.1, read.2)

/-- The text up to three single quotes, which are read too. -/
def literalLines : List Char → Option (List Char × List Char)
  | [] => none
  | '\'' :: '\'' :: '\'' :: rest => some ([], rest)
  | c :: rest =>
    if isForbidden true c then none
    else (literalLines rest).map fun read => (c :: read.1, read.2)

/-- Quotes that stand right after three closing ones belong to the text, two of them at most. -/
def trailingQuotes (quote : Char) (read : List Char × List Char) : List Char × List Char :=
  let extra := (read.2.take 2).takeWhile (· = quote)
  (read.1 ++ extra, read.2.drop extra.length)

/-- A line end right after three opening quotes is no part of the text. -/
def dropFirstLineEnd : List Char → List Char
  | '\n' :: rest => rest
  | cs => cs

/-- Text in quotes of either kind, on one line or several. -/
def quotedText : List Char → Option (String × List Char)
  | '"' :: '"' :: '"' :: rest =>
    (escapedText true (dropFirstLineEnd rest)).map (finish ∘ trailingQuotes '"')
  | '"' :: rest => (escapedText false rest).map finish
  | '\'' :: '\'' :: '\'' :: rest =>
    (literalLines (dropFirstLineEnd rest)).map (finish ∘ trailingQuotes '\'')
  | '\'' :: rest => (literalText rest).map finish
  | _ => none
where
  finish (read : List Char × List Char) : String × List Char := (String.ofList read.1, read.2)

end Licensing.Toml
