import Licensing.Text.Blank
import Licensing.Token.Basic

/-!
Splitting a text into tokens. Blanks separate tokens and are no part of them; the first character
that is neither a blank nor the beginning of a token is an error.
-/

namespace Licensing.Token

/-- The characters of identifiers: hyphen and point, digits, capital letters, small letters. -/
def idChars : Text.Charset :=
  [(0x2D, 0x2E), (0x30, 0x39), (0x41, 0x5A), (0x61, 0x7A)]

def isIdChar (c : Char) : Bool :=
  idChars.has c

/-- The beginning of a part that names another document. -/
def documentMark : List Char := ['D', 'o', 'c', 'u', 'm', 'e', 'n', 't', 'R', 'e', 'f', '-']

/-- Whether a run of identifier characters names another document, when a colon follows. -/
def namesDocument (run : List Char) : Bool :=
  documentMark.isPrefixOf run && documentMark.length < run.length

/-- The identifier at the beginning of a text, and what follows it. It is empty where no identifier
begins. -/
def identifierAt (cs : List Char) : List Char × List Char :=
  let run := cs.takeWhile isIdChar
  let rest := cs.dropWhile isIdChar
  match rest with
  | ':' :: more =>
    let second := more.takeWhile isIdChar
    if namesDocument run && !second.isEmpty then
      (run ++ ':' :: second, more.dropWhile isIdChar)
    else (run, rest)
  | _ => (run, rest)

/-- The two spellings of an operator. -/
def spellings : Operator → List (List Char)
  | .or => [['O', 'R'], ['o', 'r']]
  | .and => [['A', 'N', 'D'], ['a', 'n', 'd']]
  | .attach => [['W', 'I', 'T', 'H'], ['w', 'i', 't', 'h']]

def operatorOf? (word : List Char) : Option Operator :=
  [Operator.or, .and, .attach].find? fun op => (spellings op).contains word

/-- The operator at the beginning of a text. A `+` or a colon after the word makes it an
identifier. -/
def operatorAt? (cs : List Char) : Option (Operator × List Char) :=
  let rest := cs.dropWhile isIdChar
  match rest with
  | '+' :: _ | ':' :: _ => none
  | _ => (operatorOf? (cs.takeWhile isIdChar)).map fun op => (op, rest)

def takePlus : List Char → Bool × List Char
  | '+' :: rest => (true, rest)
  | cs => (false, cs)

/-- The operator or identifier at the beginning of a text. -/
def wordAt? (cs : List Char) : Option (Kind × List Char) :=
  match operatorAt? cs with
  | some (op, rest) => some (.operator op, rest)
  | none =>
    match identifierAt cs with
    | ([], _) => none
    | (value, rest) =>
      some (.identifier (String.ofList value) (takePlus rest).1, (takePlus rest).2)

/-- The token at the beginning of a text that does not begin with a blank. -/
def tokenAt? : List Char → Option (Kind × List Char)
  | '(' :: rest => some (.opening, rest)
  | ')' :: rest => some (.closing, rest)
  | cs => wordAt? cs

/-- Looking for an identifier loses no character. -/
theorem identifierAt_append (cs : List Char) :
    (identifierAt cs).1 ++ (identifierAt cs).2 = cs := by
  unfold identifierAt
  simp only
  split
  · rename_i more hRest
    split
    · simp only [List.append_assoc, List.cons_append, List.takeWhile_append_dropWhile]
      rw [← hRest, List.takeWhile_append_dropWhile]
    · exact List.takeWhile_append_dropWhile
  · exact List.takeWhile_append_dropWhile

theorem length_of_mem_spellings {op : Operator} {word : List Char} (h : word ∈ spellings op) :
    word.length = op.word.length := by
  cases op <;> simp only [spellings, List.mem_cons, List.not_mem_nil, or_false] at h <;>
    rcases h with rfl | rfl <;> decide

theorem mem_spellings_of_operatorOf? {op : Operator} {word : List Char}
    (h : operatorOf? word = some op) : word ∈ spellings op := by
  have := List.find?_some h
  simpa using this

theorem takePlus_length (cs : List Char) :
    (takePlus cs).1.toNat + (takePlus cs).2.length = cs.length := by
  unfold takePlus
  split <;> simp
  omega

/-- A word takes as many characters as its token is wide, which is why scanning ends. -/
theorem width_add_of_wordAt? {cs rest : List Char} {kind : Kind}
    (h : wordAt? cs = some (kind, rest)) : kind.width + rest.length = cs.length := by
  unfold wordAt? at h
  split at h
  · rename_i op after hOperator
    simp only [Option.some.injEq, Prod.mk.injEq] at h
    obtain ⟨rfl, rfl⟩ := h
    unfold operatorAt? at hOperator
    simp only at hOperator
    split at hOperator
    · simp at hOperator
    · simp at hOperator
    · simp only [Option.map_eq_some_iff, Prod.mk.injEq] at hOperator
      obtain ⟨op', hWord, rfl, rfl⟩ := hOperator
      have hLength := length_of_mem_spellings (mem_spellings_of_operatorOf? hWord)
      simp only [Kind.width, ← hLength]
      rw [← List.length_append, List.takeWhile_append_dropWhile]
  · split at h
    · simp at h
    · rename_i value after _ hIdentifier
      simp only [Option.some.injEq, Prod.mk.injEq] at h
      obtain ⟨rfl, rfl⟩ := h
      have hWhole := identifierAt_append cs
      rw [hIdentifier] at hWhole
      have hPlus := takePlus_length after
      simp only [Kind.width, String.length_ofList, ← hWhole, List.length_append]
      omega

theorem width_pos_of_wordAt? {cs rest : List Char} {kind : Kind}
    (h : wordAt? cs = some (kind, rest)) : 0 < kind.width := by
  unfold wordAt? at h
  split at h
  · rename_i op _ _
    simp only [Option.some.injEq, Prod.mk.injEq] at h
    obtain ⟨rfl, -⟩ := h
    cases op <;> decide
  · split at h
    · simp at h
    · rename_i value after hNonempty _
      simp only [Option.some.injEq, Prod.mk.injEq] at h
      obtain ⟨rfl, -⟩ := h
      have hPos : 0 < value.length := List.length_pos_iff.2 fun e => hNonempty e
      simp only [Kind.width, String.length_ofList]
      omega

/-- A token takes as many characters as it is wide. -/
theorem width_add_of_tokenAt? {cs rest : List Char} {kind : Kind}
    (h : tokenAt? cs = some (kind, rest)) : kind.width + rest.length = cs.length := by
  unfold tokenAt? at h
  split at h
  · simp only [Option.some.injEq, Prod.mk.injEq] at h
    simp [← h.1, ← h.2, Kind.width]; omega
  · simp only [Option.some.injEq, Prod.mk.injEq] at h
    simp [← h.1, ← h.2, Kind.width]; omega
  · exact width_add_of_wordAt? h

theorem width_pos_of_tokenAt? {cs rest : List Char} {kind : Kind}
    (h : tokenAt? cs = some (kind, rest)) : 0 < kind.width := by
  unfold tokenAt? at h
  split at h
  · simp only [Option.some.injEq, Prod.mk.injEq] at h
    simp [← h.1, Kind.width]
  · simp only [Option.some.injEq, Prod.mk.injEq] at h
    simp [← h.1, Kind.width]
  · exact width_pos_of_wordAt? h

/-- A character that begins no token, and its place. -/
structure Stray where
  character : Char
  position : Nat
  deriving DecidableEq, Repr

/-- The tokens of a text whose first character has the given place. -/
def scan (position : Nat) (cs : List Char) : Except Stray (List Token) :=
  match cs with
  | [] => .ok []
  | c :: rest =>
    if Text.isBlank c then scan (position + 1) rest
    else
      match h : tokenAt? (c :: rest) with
      | none => .error ⟨c, position⟩
      | some (kind, after) =>
        have : kind.width + after.length = (c :: rest).length := width_add_of_tokenAt? h
        have : 0 < kind.width := width_pos_of_tokenAt? h
        (scan (position + kind.width) after).map (⟨kind, position⟩ :: ·)
termination_by cs.length
decreasing_by
  · simp
  · omega

end Licensing.Token
