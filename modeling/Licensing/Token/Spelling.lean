import Licensing.Containers
import Licensing.Token.Lexer

/-!
What it means that a text splits into tokens, said without the scanner: every token is spelled by
the characters at its place, no character after it belongs to it, and all else is blank.
-/

namespace Licensing.Token

/-- A nonempty run of identifier characters. -/
def IsRun (cs : List Char) : Prop :=
  cs ≠ [] ∧ ∀ c ∈ cs, isIdChar c

/-- The characters of an identifier: a run, or one run that names another document and one behind
the colon. -/
inductive IsIdentifier : List Char → Prop where
  | run {cs : List Char} (whole : IsRun cs) : IsIdentifier cs
  | ofDocument {document cs : List Char} (mark : IsRun document) (whole : IsRun cs) :
      IsIdentifier (documentMark ++ document ++ ':' :: cs)

/-- The characters spell a token. A word that is an operator is no identifier unless a `+`
follows. -/
inductive Spells : Kind → List Char → Prop where
  | operator {op : Operator} {word : List Char} (spelled : word ∈ spellings op) :
      Spells (.operator op) word
  | opening : Spells .opening ['(']
  | closing : Spells .closing [')']
  | plain {cs : List Char} (identifier : IsIdentifier cs) (free : ∀ op, cs ∉ spellings op) :
      Spells (.identifier (String.ofList cs) false) cs
  | marked {cs : List Char} (identifier : IsIdentifier cs) :
      Spells (.identifier (String.ofList cs) true) (cs ++ ['+'])

/-- Whether a character cannot stand right after a word that is complete. -/
def joinsWord (c : Char) : Bool :=
  isIdChar c || c == '+' || c == ':'

/-- A token is complete before the rest of a text. Parentheses and a `+` always complete their
token. -/
def Complete : Kind → List Char → Prop
  | .operator _, rest | .identifier _ false, rest => ∀ c ∈ rest.head?, !joinsWord c
  | _, _ => True

/-- A text whose first character has the given place splits into tokens. -/
inductive Splits : Nat → List Char → List Token → Prop where
  | done (position : Nat) : Splits position [] []
  | blank {position : Nat} {c : Char} {rest : List Char} {tokens : List Token}
      (isBlank : Text.isBlank c) (after : Splits (position + 1) rest tokens) :
      Splits position (c :: rest) tokens
  | token {position : Nat} {kind : Kind} {word rest : List Char} {tokens : List Token}
      (spelled : Spells kind word) (complete : Complete kind rest)
      (after : Splits (position + word.length) rest tokens) :
      Splits position (word ++ rest) (⟨kind, position⟩ :: tokens)

/-- The characters of identifiers are not blank. -/
theorem isBlank_eq_false_of_isIdChar {c : Char} (h : isIdChar c = true) :
    Text.isBlank c = false := by
  simp [isIdChar, Text.Charset.has, idChars] at h
  simp [Text.isBlank, Text.Charset.has, Text.blanks]
  omega

theorem isRun_of_mem_spellings {op : Operator} {word : List Char} (h : word ∈ spellings op) :
    IsRun word := by
  cases op <;> simp only [spellings, List.mem_cons, List.not_mem_nil, or_false] at h <;>
    rcases h with rfl | rfl <;> exact ⟨by simp, List.all_eq_true.1 (by decide)⟩

/-- No word spells two operators. -/
theorem operatorOf?_eq_some_iff {op : Operator} {word : List Char} :
    operatorOf? word = some op ↔ word ∈ spellings op := by
  refine ⟨mem_spellings_of_operatorOf?, fun h => ?_⟩
  cases op <;> simp only [spellings, List.mem_cons, List.not_mem_nil, or_false] at h <;>
    rcases h with rfl | rfl <;> decide

theorem operatorOf?_eq_none_iff {word : List Char} :
    operatorOf? word = none ↔ ∀ op, word ∉ spellings op := by
  rw [Option.eq_none_iff_forall_ne_some]
  simp only [ne_eq, operatorOf?_eq_some_iff]

/-- The word at the beginning of a text in which it is complete. -/
theorem operatorAt?_append {run rest : List Char} (hRun : IsRun run)
    (hRest : ∀ c ∈ rest.head?, joinsWord c = false) :
    operatorAt? (run ++ rest) = (operatorOf? run).map fun op => (op, rest) := by
  have hStop : ∀ c ∈ rest.head?, isIdChar c = false := by
    intro c hc
    have := hRest c hc
    simp only [joinsWord, Bool.or_eq_false_iff] at this
    exact this.1.1
  unfold operatorAt?
  simp only [takeWhile_append_of_stop hRun.2 hStop, dropWhile_append_of_stop hRun.2 hStop]
  split
  · exact absurd (hRest '+' (by simp)) (by decide)
  · exact absurd (hRest ':' (by simp)) (by decide)
  · rfl

/-- A word before a `+` or a colon is no operator. -/
theorem operatorAt?_eq_none_of_joined {run rest : List Char} {c : Char} (hRun : IsRun run)
    (hJoined : c = '+' ∨ c = ':') : operatorAt? (run ++ c :: rest) = none := by
  have hStop : ∀ d ∈ (c :: rest).head?, isIdChar d = false := by
    intro d hd
    obtain rfl : c = d := by simpa using hd
    rcases hJoined with rfl | rfl <;> decide
  unfold operatorAt?
  simp only [dropWhile_append_of_stop hRun.2 hStop]
  rcases hJoined with rfl | rfl <;> rfl

theorem identifierAt_append_of_isRun {run rest : List Char} (hRun : IsRun run)
    (hRest : ∀ c ∈ rest.head?, isIdChar c = false ∧ c ≠ ':') :
    identifierAt (run ++ rest) = (run, rest) := by
  have hStop : ∀ c ∈ rest.head?, isIdChar c = false := fun c hc => (hRest c hc).1
  unfold identifierAt
  simp only [takeWhile_append_of_stop hRun.2 hStop, dropWhile_append_of_stop hRun.2 hStop]
  split
  · exact absurd rfl (hRest ':' (by simp)).2
  · rfl

theorem isRun_documentMark_append {document : List Char} (h : IsRun document) :
    IsRun (documentMark ++ document) := by
  refine ⟨by simp [documentMark], ?_⟩
  intro c hc
  rcases List.mem_append.1 hc with hMark | hDocument
  · exact List.all_eq_true.1 (by decide : documentMark.all isIdChar = true) c hMark
  · exact h.2 c hDocument

/-- A run names a document when something stands behind the mark. -/
theorem namesDocument_iff {run : List Char} (hRun : ∀ c ∈ run, isIdChar c = true) :
    namesDocument run = true ↔ ∃ document, IsRun document ∧ run = documentMark ++ document := by
  simp only [namesDocument, Bool.and_eq_true, List.isPrefixOf_iff_prefix, decide_eq_true_eq]
  constructor
  · rintro ⟨⟨document, rfl⟩, hLength⟩
    refine ⟨document, ⟨?_, fun c hc => hRun c (List.mem_append_right _ hc)⟩, rfl⟩
    rintro rfl
    simp at hLength
  · rintro ⟨document, hDocument, rfl⟩
    refine ⟨List.prefix_append _ _, ?_⟩
    have := List.length_pos_iff.2 hDocument.1
    simp only [List.length_append]
    omega

/-- An identifier is found whole in front of anything that does not go on with it. -/
theorem identifierAt_append_of_isIdentifier {word rest : List Char} (hWord : IsIdentifier word)
    (hRest : ∀ c ∈ rest.head?, isIdChar c = false ∧ c ≠ ':') :
    identifierAt (word ++ rest) = (word, rest) := by
  cases hWord with
  | run whole => exact identifierAt_append_of_isRun whole hRest
  | @ofDocument document cs mark whole =>
      have hMark := isRun_documentMark_append mark
      have hColon : ∀ c ∈ (':' :: (cs ++ rest)).head?, isIdChar c = false := by
        intro c hc
        obtain rfl : ':' = c := by simpa using hc
        decide
      have hStop : ∀ c ∈ rest.head?, isIdChar c = false := fun c hc => (hRest c hc).1
      have hNames := (namesDocument_iff hMark.2).2 ⟨document, mark, rfl⟩
      have hNonempty : cs.isEmpty = false := by simpa using whole.1
      unfold identifierAt
      simp only [List.append_assoc, List.cons_append]
      rw [← List.append_assoc, takeWhile_append_of_stop hMark.2 hColon,
        dropWhile_append_of_stop hMark.2 hColon]
      simp only [takeWhile_append_of_stop whole.2 hStop, dropWhile_append_of_stop whole.2 hStop,
        hNames, hNonempty]
      simp

theorem tokenAt?_eq_wordAt? {c : Char} {rest : List Char} (h : isIdChar c = true) :
    tokenAt? (c :: rest) = wordAt? (c :: rest) := by
  unfold tokenAt?
  split
  · rename_i hOpening
    obtain ⟨rfl, -⟩ := List.cons.inj hOpening
    exact absurd h (by decide)
  · rename_i hClosing
    obtain ⟨rfl, -⟩ := List.cons.inj hClosing
    exact absurd h (by decide)
  · rfl

theorem exists_cons_of_isIdentifier {word : List Char} (h : IsIdentifier word) :
    ∃ c rest, word = c :: rest ∧ isIdChar c = true := by
  cases h with
  | run whole =>
      obtain ⟨c, rest, rfl⟩ := List.exists_cons_of_ne_nil whole.1
      exact ⟨c, rest, rfl, whole.2 c (by simp)⟩
  | ofDocument mark whole => exact ⟨'D', _, rfl, by decide⟩

/-- An identifier before a character that it cannot have is no operator, unless it is spelled as
one and complete. -/
theorem operatorAt?_eq_none_of_isIdentifier {word rest : List Char} (hWord : IsIdentifier word)
    (hRest : (∀ op, word ∉ spellings op) ∧ (∀ c ∈ rest.head?, joinsWord c = false) ∨
      ∃ more, rest = '+' :: more) :
    operatorAt? (word ++ rest) = none := by
  cases hWord with
  | run whole =>
      rcases hRest with ⟨hFree, hComplete⟩ | ⟨more, rfl⟩
      · rw [operatorAt?_append whole hComplete, operatorOf?_eq_none_iff.2 hFree]
        rfl
      · exact operatorAt?_eq_none_of_joined whole (Or.inl rfl)
  | ofDocument mark whole =>
      rw [List.append_assoc, List.cons_append]
      exact operatorAt?_eq_none_of_joined (isRun_documentMark_append mark) (Or.inr rfl)

theorem wordAt?_of_operatorAt? {cs rest : List Char} {op : Operator}
    (h : operatorAt? cs = some (op, rest)) : wordAt? cs = some (.operator op, rest) := by
  simp [wordAt?, h]

theorem wordAt?_of_identifierAt {cs value rest : List Char} (hNone : operatorAt? cs = none)
    (hWhole : identifierAt cs = (value, rest)) (hNonempty : value ≠ []) :
    wordAt? cs =
      some (.identifier (String.ofList value) (takePlus rest).1, (takePlus rest).2) := by
  obtain ⟨c, tail, rfl⟩ := List.exists_cons_of_ne_nil hNonempty
  simp [wordAt?, hNone, hWhole]

/-- What spells a token and is complete is read as that token. -/
theorem tokenAt?_append_of_spells {kind : Kind} {word rest : List Char} (hSpells : Spells kind word)
    (hComplete : Complete kind rest) : tokenAt? (word ++ rest) = some (kind, rest) := by
  cases hSpells with
  | @operator op word spelled =>
      have hRun := isRun_of_mem_spellings spelled
      have hRest : ∀ d ∈ rest.head?, joinsWord d = false := by simpa [Complete] using hComplete
      have hOperator : operatorAt? (word ++ rest) = some (op, rest) := by
        rw [operatorAt?_append hRun hRest, operatorOf?_eq_some_iff.2 spelled]
        rfl
      obtain ⟨c, tail, rfl⟩ := List.exists_cons_of_ne_nil hRun.1
      rw [List.cons_append, tokenAt?_eq_wordAt? (hRun.2 c (by simp))]
      exact wordAt?_of_operatorAt? hOperator
  | opening => rfl
  | closing => rfl
  | @plain word identifier free =>
      have hRest : ∀ d ∈ rest.head?, joinsWord d = false := by simpa [Complete] using hComplete
      have hStop : ∀ d ∈ rest.head?, isIdChar d = false ∧ d ≠ ':' := by
        intro d hd
        have := hRest d hd
        simp_all [joinsWord]
      have hPlus : takePlus rest = (false, rest) := by
        unfold takePlus
        split
        · exact absurd (hRest '+' (by simp)) (by decide)
        · rfl
      have hNone := operatorAt?_eq_none_of_isIdentifier identifier (Or.inl ⟨free, hRest⟩)
      have hWhole := identifierAt_append_of_isIdentifier identifier hStop
      obtain ⟨c, tail, rfl, hFirst⟩ := exists_cons_of_isIdentifier identifier
      rw [List.cons_append, tokenAt?_eq_wordAt? hFirst]
      simpa [hPlus] using wordAt?_of_identifierAt hNone hWhole (by simp)
  | @marked word identifier =>
      have hStop : ∀ d ∈ ('+' :: rest).head?, isIdChar d = false ∧ d ≠ ':' := by
        intro d hd
        obtain rfl : '+' = d := by simpa using hd
        decide
      have hNone := operatorAt?_eq_none_of_isIdentifier identifier (Or.inr ⟨rest, rfl⟩)
      have hWhole := identifierAt_append_of_isIdentifier identifier hStop
      obtain ⟨c, tail, rfl, hFirst⟩ := exists_cons_of_isIdentifier identifier
      rw [List.append_assoc, List.singleton_append, List.cons_append, tokenAt?_eq_wordAt? hFirst]
      exact wordAt?_of_identifierAt hNone hWhole (by simp)

theorem isIdChar_of_mem_takeWhile {cs : List Char} :
    ∀ c ∈ cs.takeWhile isIdChar, isIdChar c = true :=
  List.all_eq_true.1 List.all_takeWhile

theorem isRun_takeWhile {cs : List Char} (h : cs.takeWhile isIdChar ≠ []) :
    IsRun (cs.takeWhile isIdChar) :=
  ⟨h, isIdChar_of_mem_takeWhile⟩

/-- What is found at the beginning of a text is an identifier that ends there. -/
theorem isIdentifier_of_identifierAt {cs value rest : List Char}
    (h : identifierAt cs = (value, rest)) (hNonempty : value ≠ []) :
    IsIdentifier value ∧ ∀ c ∈ rest.head?, isIdChar c = false := by
  unfold identifierAt at h
  simp only at h
  split at h
  · rename_i more hRest
    split at h
    · rename_i hNames
      obtain ⟨rfl, rfl⟩ := Prod.mk.inj h
      simp only [Bool.and_eq_true, Bool.not_eq_true', List.isEmpty_eq_false_iff] at hNames
      obtain ⟨document, hDocument, hMark⟩ :=
        (namesDocument_iff isIdChar_of_mem_takeWhile).1 hNames.1
      rw [hMark]
      exact ⟨.ofDocument hDocument (isRun_takeWhile hNames.2),
        fun _ hc => not_of_mem_head?_dropWhile hc⟩
    · obtain ⟨rfl, rfl⟩ := Prod.mk.inj h
      exact ⟨.run (isRun_takeWhile hNonempty), fun _ hc => not_of_mem_head?_dropWhile hc⟩
  · obtain ⟨rfl, rfl⟩ := Prod.mk.inj h
    exact ⟨.run (isRun_takeWhile hNonempty), fun _ hc => not_of_mem_head?_dropWhile hc⟩

/-- What is read as an operator spells it and is complete. -/
theorem spells_of_operatorAt? {cs rest : List Char} {op : Operator}
    (h : operatorAt? cs = some (op, rest)) :
    ∃ word, cs = word ++ rest ∧ Spells (.operator op) word ∧ Complete (.operator op) rest := by
  unfold operatorAt? at h
  simp only at h
  split at h
  · simp at h
  · simp at h
  · rename_i hPlus hColon
    simp only [Option.map_eq_some_iff, Prod.mk.injEq] at h
    obtain ⟨op, hWord, rfl, rfl⟩ := h
    refine ⟨cs.takeWhile isIdChar, List.takeWhile_append_dropWhile.symm,
      .operator (mem_spellings_of_operatorOf? hWord), ?_⟩
    intro c hc
    have hId := not_of_mem_head?_dropWhile hc
    obtain ⟨more, hMore⟩ := List.head?_eq_some_iff.1 hc
    have : c ≠ '+' := by rintro rfl; exact hPlus more hMore
    have : c ≠ ':' := by rintro rfl; exact hColon more hMore
    simp_all [joinsWord]

/-- What is read as a word spells it, and is complete unless a colon follows. -/
theorem spells_of_wordAt? {cs rest : List Char} {kind : Kind}
    (h : wordAt? cs = some (kind, rest)) (hRest : rest.head? ≠ some ':') :
    ∃ word, cs = word ++ rest ∧ Spells kind word ∧ Complete kind rest := by
  unfold wordAt? at h
  split at h
  · rename_i hOperator
    obtain ⟨rfl, rfl⟩ := Prod.mk.inj (Option.some.inj h)
    exact spells_of_operatorAt? hOperator
  · rename_i hNone
    split at h
    · simp at h
    · rename_i value after hNonempty hIdentifier
      obtain ⟨rfl, rfl⟩ := Prod.mk.inj (Option.some.inj h)
      obtain ⟨hValue, hStop⟩ := isIdentifier_of_identifierAt hIdentifier (by simpa using hNonempty)
      have hWhole : cs = value ++ after := by
        simpa [hIdentifier] using (identifierAt_append cs).symm
      by_cases hPlus : ∃ more, after = '+' :: more
      · obtain ⟨more, rfl⟩ := hPlus
        exact ⟨value ++ ['+'], by simp [hWhole, takePlus], .marked hValue, trivial⟩
      · have hTake : takePlus after = (false, after) := by
          unfold takePlus
          split
          · exact absurd ⟨_, rfl⟩ hPlus
          · rfl
        rw [hTake] at hRest ⊢
        have hComplete : ∀ c ∈ after.head?, joinsWord c = false := by
          intro c hc
          have hId := hStop c hc
          obtain ⟨more, rfl⟩ := List.head?_eq_some_iff.1 hc
          have : c ≠ '+' := by rintro rfl; exact hPlus ⟨more, rfl⟩
          have : c ≠ ':' := by rintro rfl; simp at hRest
          simp_all [joinsWord]
        refine ⟨value, hWhole, .plain hValue ?_, by simpa [Complete] using hComplete⟩
        intro op hSpelled
        rw [hWhole, operatorAt?_append (isRun_of_mem_spellings hSpelled) hComplete,
          operatorOf?_eq_some_iff.2 hSpelled] at hNone
        simp at hNone

/-- What is read as a token spells it, and is complete unless a colon follows. -/
theorem spells_of_tokenAt? {cs rest : List Char} {kind : Kind}
    (h : tokenAt? cs = some (kind, rest)) (hRest : rest.head? ≠ some ':') :
    ∃ word, cs = word ++ rest ∧ Spells kind word ∧ Complete kind rest := by
  unfold tokenAt? at h
  split at h
  · obtain ⟨rfl, rfl⟩ := Prod.mk.inj (Option.some.inj h)
    exact ⟨['('], rfl, .opening, trivial⟩
  · obtain ⟨rfl, rfl⟩ := Prod.mk.inj (Option.some.inj h)
    exact ⟨[')'], rfl, .closing, trivial⟩
  · exact spells_of_wordAt? h hRest

/-- The characters that spell a token are as many as it is wide. -/
theorem length_of_spells {kind : Kind} {word : List Char} (h : Spells kind word) :
    word.length = kind.width := by
  cases h with
  | operator spelled => exact length_of_mem_spellings spelled
  | opening => rfl
  | closing => rfl
  | plain identifier free => simp [Kind.width]
  | marked identifier => simp [Kind.width]

/-- A token begins with a character that is not blank. -/
theorem exists_cons_of_spells {kind : Kind} {word : List Char} (h : Spells kind word) :
    ∃ c tail, word = c :: tail ∧ Text.isBlank c = false := by
  cases h with
  | operator spelled =>
      have hRun := isRun_of_mem_spellings spelled
      obtain ⟨c, tail, rfl⟩ := List.exists_cons_of_ne_nil hRun.1
      exact ⟨c, tail, rfl, isBlank_eq_false_of_isIdChar (hRun.2 c (by simp))⟩
  | opening => exact ⟨'(', [], rfl, by decide⟩
  | closing => exact ⟨')', [], rfl, by decide⟩
  | plain identifier free =>
      obtain ⟨c, tail, rfl, hFirst⟩ := exists_cons_of_isIdentifier identifier
      exact ⟨c, tail, rfl, isBlank_eq_false_of_isIdChar hFirst⟩
  | marked identifier =>
      obtain ⟨c, tail, rfl, hFirst⟩ := exists_cons_of_isIdentifier identifier
      exact ⟨c, tail ++ ['+'], rfl, isBlank_eq_false_of_isIdChar hFirst⟩

/-- A colon begins no token. -/
theorem scan_colon (position : Nat) (rest : List Char) :
    scan position (':' :: rest) = .error ⟨':', position⟩ := by
  have hNone : tokenAt? (':' :: rest) = none := by
    unfold tokenAt?
    split
    · simp_all
    · simp_all
    · simp [wordAt?, operatorAt?, identifierAt, show isIdChar ':' = false by decide,
        show namesDocument [] = false by decide]
  rw [scan]
  simp [show Text.isBlank ':' = false by decide]
  split <;> simp_all

/-- Scanning finds the tokens into which a text splits, and there is no other way to split it. -/
theorem scan_eq_ok_iff {position : Nat} {cs : List Char} {tokens : List Token} :
    scan position cs = .ok tokens ↔ Splits position cs tokens := by
  constructor
  · intro h
    fun_induction scan position cs generalizing tokens with
    | case1 position =>
        obtain rfl := Except.ok.inj h
        exact .done position
    | case2 position c rest hBlank ih => exact .blank hBlank (ih h)
    | case3 position c rest hBlank hNone => simp at h
    | case4 position c rest hBlank kind after hToken hWidth hPos ih =>
        obtain ⟨others, hAfter, rfl⟩ : ∃ others,
            scan (position + kind.width) after = .ok others ∧
              tokens = ⟨kind, position⟩ :: others := by
          cases hScan : scan (position + kind.width) after with
          | error stray => simp [hScan, Except.map] at h
          | ok others => exact ⟨others, rfl, by simpa [hScan, Except.map] using h.symm⟩
        have hColon : after.head? ≠ some ':' := by
          intro hHead
          obtain ⟨more, rfl⟩ := List.head?_eq_some_iff.1 hHead
          simp [scan_colon] at hAfter
        obtain ⟨word, hWord, hSpells, hComplete⟩ := spells_of_tokenAt? hToken hColon
        rw [hWord]
        refine .token hSpells hComplete ?_
        rw [length_of_spells hSpells]
        exact ih hAfter
  · intro h
    induction h with
    | done position => rw [scan]
    | blank isBlank after ih => rw [scan, if_pos isBlank, ih]
    | @token position kind word rest tokens spelled complete after ih =>
        have hToken := tokenAt?_append_of_spells spelled complete
        obtain ⟨c, tail, rfl, hBlank⟩ := exists_cons_of_spells spelled
        rw [List.cons_append] at hToken ⊢
        rw [length_of_spells spelled] at ih
        rw [scan]
        simp only [hBlank, Bool.false_eq_true, if_false]
        split
        · simp_all
        · rename_i hOther
          obtain ⟨rfl, rfl⟩ := Prod.mk.inj (Option.some.inj (hToken.symm.trans hOther))
          rw [ih]
          rfl

end Licensing.Token
