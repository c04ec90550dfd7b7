import Licensing.Token.Spelling

/-!
Splitting a text that is put together from others. A text that splits into tokens keeps them in
front of everything that does not go on with its last word; parentheses around it and operators
between blanks are such continuations. The place of a token, or of the character at which scanning
stops, is the place of what stands there.
-/

namespace Licensing.Token

/-- A token that is complete stays so when more is put behind. -/
theorem Complete.append {kind : Kind} {rest more : List Char} (h : Complete kind rest)
    (hMore : ∀ c ∈ more.head?, joinsWord c = false) : Complete kind (rest ++ more) := by
  have hHead (hRest : ∀ c ∈ rest.head?, !joinsWord c) :
      ∀ c ∈ (rest ++ more).head?, !joinsWord c := by
    intro c hc
    cases rest with
    | nil => simpa using hMore c hc
    | cons d tail => exact hRest c hc
  cases kind with
  | operator op => exact hHead h
  | opening => trivial
  | closing => trivial
  | identifier value orLater =>
      cases orLater with
      | false => exact hHead h
      | true => trivial

/-- Texts that meet where no word goes on split into the tokens of both. -/
theorem Splits.append {position : Nat} {cs rest : List Char} {tokens others : List Token}
    (h : Splits position cs tokens) (hRest : ∀ c ∈ rest.head?, joinsWord c = false)
    (hOthers : Splits (position + cs.length) rest others) :
    Splits position (cs ++ rest) (tokens ++ others) := by
  induction h with
  | done position => exact hOthers
  | @blank position c tail tokens isBlank after ih =>
      refine .blank isBlank (ih ?_)
      rw [List.length_cons] at hOthers
      rwa [Nat.add_assoc, Nat.add_comm 1]
  | @token position kind word tail tokens spelled complete after ih =>
      rw [List.append_assoc]
      refine .token spelled (complete.append hRest) (ih ?_)
      rw [List.length_append] at hOthers
      rwa [Nat.add_assoc]

theorem splits_of_spells {kind : Kind} {word : List Char} (position : Nat)
    (h : Spells kind word) : Splits position word [⟨kind, position⟩] := by
  have hEnd : Complete kind [] := by
    cases kind with
    | identifier value orLater => cases orLater <;> simp [Complete]
    | operator op => simp [Complete]
    | opening => trivial
    | closing => trivial
  have hWord := Splits.token h hEnd (.done (position + word.length))
  rwa [List.append_nil] at hWord

theorem word_mem_spellings (op : Operator) : op.word.toList ∈ spellings op := by
  cases op <;> decide

/-- Parentheses complete the tokens next to them. -/
theorem Splits.parenthesized {position : Nat} {cs : List Char} {tokens : List Token}
    (h : Splits (position + 1) cs tokens) :
    Splits position ('(' :: cs ++ [')'])
      (⟨.opening, position⟩ :: tokens ++ [⟨.closing, position + 1 + cs.length⟩]) := by
  have hClosing := splits_of_spells (position + 1 + cs.length) Spells.closing
  have hEnd : ∀ c ∈ [')'].head?, joinsWord c = false := by
    intro c hc
    obtain rfl := Option.some.inj hc
    decide
  have hInner := h.append hEnd hClosing
  have hComplete : Complete .opening (cs ++ [')']) := trivial
  have hWhole := Splits.token Spells.opening hComplete hInner
  exact hWhole

/-- Two texts with an operator between them, set off by one blank on each side. -/
theorem Splits.joined {position : Nat} {left right : List Char} {tokens others : List Token}
    {op : Operator} (hLeft : Splits position left tokens)
    (hRight : Splits (position + left.length + op.word.length + 2) right others) :
    Splits position (left ++ ' ' :: (op.word.toList ++ ' ' :: right))
      (tokens ++ ⟨.operator op, position + left.length + 1⟩ :: others) := by
  have hBlank : Text.isBlank ' ' = true := by decide
  have hSpace : joinsWord ' ' = false := by decide
  refine hLeft.append (by simpa using hSpace) (.blank hBlank ?_)
  refine .token (.operator (word_mem_spellings op)) (by simpa [Complete] using hSpace) ?_
  refine .blank hBlank ?_
  have hPlace : position + left.length + 1 + op.word.toList.length + 1 =
      position + left.length + op.word.length + 2 := by
    rw [String.length_toList]
    omega
  rwa [hPlace]

/-! ### Places -/

/-- A token has the place at which it is spelled. -/
theorem Splits.exists_word {position : Nat} {cs : List Char} {tokens : List Token}
    (h : Splits position cs tokens) {t : Token} (ht : t ∈ tokens) :
    ∃ before word after, cs = before ++ word ++ after ∧ t.position = position + before.length ∧
      Spells t.kind word := by
  induction h with
  | done position => exact absurd ht List.not_mem_nil
  | @blank position c rest tokens isBlank after ih =>
      obtain ⟨before, word, behind, rfl, hPlace, hSpells⟩ := ih ht
      refine ⟨c :: before, word, behind, rfl, ?_, hSpells⟩
      rw [hPlace, List.length_cons]
      omega
  | @token position kind word rest tokens spelled complete after ih =>
      rcases List.mem_cons.1 ht with rfl | hRest
      · exact ⟨[], word, rest, rfl, rfl, spelled⟩
      · obtain ⟨before, word', behind, rfl, hPlace, hSpells⟩ := ih hRest
        refine ⟨word ++ before, word', behind, by simp, ?_, hSpells⟩
        rw [hPlace, List.length_append]
        omega

theorem suffix_of_wordAt? {cs rest : List Char} {kind : Kind} (h : wordAt? cs = some (kind, rest)) :
    rest <:+ cs := by
  unfold wordAt? at h
  split at h
  · rename_i op after hOperator
    obtain ⟨-, rfl⟩ := Prod.mk.inj (Option.some.inj h)
    obtain ⟨word, rfl, -⟩ := spells_of_operatorAt? hOperator
    exact List.suffix_append word after
  · split at h
    · cases h
    · rename_i value after _ hIdentifier
      obtain ⟨-, rfl⟩ := Prod.mk.inj (Option.some.inj h)
      have hWhole := identifierAt_append cs
      rw [hIdentifier] at hWhole
      have hPlus : (takePlus after).2 <:+ after := by
        unfold takePlus
        split
        · exact List.suffix_cons ..
        · exact List.suffix_rfl
      rw [← hWhole]
      exact hPlus.trans (List.suffix_append value after)

theorem suffix_of_tokenAt? {cs rest : List Char} {kind : Kind}
    (h : tokenAt? cs = some (kind, rest)) : rest <:+ cs := by
  unfold tokenAt? at h
  split at h
  · obtain ⟨-, rfl⟩ := Prod.mk.inj (Option.some.inj h)
    exact List.suffix_cons ..
  · obtain ⟨-, rfl⟩ := Prod.mk.inj (Option.some.inj h)
    exact List.suffix_cons ..
  · exact suffix_of_wordAt? h

/-- Scanning stops at a character that is not blank, and says where it stands. -/
theorem exists_of_scan_eq_error {position : Nat} {cs : List Char} {stray : Stray}
    (h : scan position cs = .error stray) :
    ∃ before after, cs = before ++ stray.character :: after ∧
      stray.position = position + before.length ∧ Text.isBlank stray.character = false := by
  fun_induction scan position cs with
  | case1 position => cases h
  | case2 position c rest hBlank ih =>
      obtain ⟨before, after, rfl, hPlace, hStray⟩ := ih h
      refine ⟨c :: before, after, rfl, ?_, hStray⟩
      rw [hPlace, List.length_cons]
      omega
  | case3 position c rest hBlank hNone =>
      obtain rfl := Except.error.inj h
      exact ⟨[], rest, rfl, rfl, Bool.not_eq_true _ ▸ hBlank⟩
  | case4 position c rest hBlank kind after hToken hWidth hPos ih =>
      cases hScan : scan (position + kind.width) after with
      | ok tokens => simp [hScan, Except.map] at h
      | error other =>
          obtain rfl : other = stray := by simpa [hScan, Except.map] using h
          obtain ⟨before, behind, rfl, hPlace, hStray⟩ := ih hScan
          obtain ⟨word, hWord⟩ := suffix_of_tokenAt? hToken
          refine ⟨word ++ before, behind, by rw [← hWord, List.append_assoc], ?_, hStray⟩
          have hLength := congrArg List.length hWord
          rw [List.length_append] at hLength
          rw [hPlace, List.length_append]
          omega

end Licensing.Token
