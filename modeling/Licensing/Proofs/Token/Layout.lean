import Mathlib.Data.List.Forall2
import Licensing.Proofs.Token.Splitting

/-!
The tokens of a text and the blanks between them. Nothing of a text is lost (`Spans`): the tokens
stand one behind the other, each is spelled where it stands, and all else is blank. The blanks
themselves do not count: another `Layout` of the same words splits into the same tokens, as long as
words that were apart or are moved apart stay so.
-/

namespace Licensing

open Token (Spells Kind)

def Token.stop (t : Token) : Nat :=
  t.position + t.kind.width

/-- How tokens stand in a text. -/
structure Spans (text : String) (tokens : List Token) : Prop where
  ordered : tokens.Pairwise fun t u => t.stop ≤ u.position
  nonempty : ∀ t ∈ tokens, t.position < t.stop
  within : ∀ t ∈ tokens, t.stop ≤ text.length
  spelled : ∀ t ∈ tokens, Spells t.kind (text.toList.extract t.position t.stop)
  /-- A character is blank if no token covers it. -/
  blank : ∀ i c, text.toList[i]? = some c → (∀ t ∈ tokens, i < t.position ∨ t.stop ≤ i) →
    Text.isBlank c = true
  /-- An identifier without a `+` is no operator. -/
  free : ∀ t ∈ tokens, ∀ value, t.kind = .identifier value false →
    ∀ op, value.toList ∉ Token.spellings op

namespace Token

/-! ### Spans -/

theorem width_pos_of_spells {kind : Kind} {word : List Char} (h : Spells kind word) :
    0 < kind.width := by
  obtain ⟨c, tail, rfl, -⟩ := exists_cons_of_spells h
  rw [← length_of_spells h]
  exact Nat.succ_pos _

variable {position : Nat} {cs : List Char} {tokens : List Token}

/-- A text splits in one way at most. -/
theorem Splits.unique {others : List Token} (h : Splits position cs tokens)
    (hOthers : Splits position cs others) : others = tokens := by
  rw [← scan_eq_ok_iff] at h hOthers
  exact Except.ok.inj (hOthers.symm.trans h)

theorem Splits.position_le (h : Splits position cs tokens) {t : Token} (ht : t ∈ tokens) :
    position ≤ t.position := by
  obtain ⟨before, word, after, -, hPlace, -⟩ := h.exists_word ht
  omega

/-- Tokens stand one behind another and do not overlap. -/
theorem Splits.ordered (h : Splits position cs tokens) :
    tokens.Pairwise fun t u => t.stop ≤ u.position := by
  induction h with
  | done position => exact .nil
  | blank isBlank after ih => exact ih
  | token spelled complete after ih =>
      refine .cons (fun u hu => ?_) ih
      have hBehind := after.position_le hu
      rwa [length_of_spells spelled] at hBehind

/-- What no token covers is blank. -/
theorem Splits.isBlank_of_uncovered (h : Splits position cs tokens) {i : Nat} {c : Char}
    (hAt : cs[i]? = some c)
    (hUncovered : ∀ t ∈ tokens, position + i < t.position ∨ t.stop ≤ position + i) :
    Text.isBlank c = true := by
  induction h generalizing i with
  | done position => cases hAt
  | @blank position first rest tokens isBlank after ih =>
      cases i with
      | zero =>
          obtain rfl := Option.some.inj hAt
          exact isBlank
      | succ i =>
          refine ih hAt fun t ht => ?_
          have := hUncovered t ht
          omega
  | @token position kind word rest tokens spelled complete after ih =>
      have hWord : word.length ≤ i := by
        have hCovers := hUncovered ⟨kind, position⟩ List.mem_cons_self
        simp only [stop, ← length_of_spells spelled] at hCovers
        omega
      rw [List.getElem?_append_right hWord] at hAt
      refine ih hAt fun t ht => ?_
      have := hUncovered t (List.mem_cons_of_mem _ ht)
      omega

theorem Splits.extract (h : Splits 0 cs tokens) {t : Token} (ht : t ∈ tokens) :
    Spells t.kind (cs.extract t.position t.stop) ∧ t.stop ≤ cs.length := by
  obtain ⟨before, word, after, rfl, hPlace, hSpells⟩ := h.exists_word ht
  have hPosition : t.position = before.length := by omega
  have hStop : t.stop = before.length + word.length := by
    rw [stop, hPosition, length_of_spells hSpells]
  constructor
  · rw [hPosition, hStop, List.append_assoc, List.extract_eq_take_drop]
    simpa using hSpells
  · rw [hStop, List.length_append, List.length_append]
    omega

/-- How the tokens of a text stand in it, all told. -/
theorem spans_of_splits {text : String} (h : Splits 0 text.toList tokens) : Spans text tokens where
  ordered := h.ordered
  nonempty t ht := Nat.lt_add_of_pos_right (width_pos_of_spells (h.extract ht).1)
  within t ht := String.length_toList ▸ (h.extract ht).2
  spelled t ht := (h.extract ht).1
  blank i c hAt hUncovered := h.isBlank_of_uncovered hAt (by simpa using hUncovered)
  free t ht value hKind op := by
    have hSpelled := (h.extract ht).1
    rw [hKind] at hSpelled
    cases hSpelled with
    | plain identifier free =>
        rw [String.toList_ofList]
        exact free op

/-! ### Gaps and words -/

theorem joinsWord_of_isBlank {c : Char} (h : Text.isBlank c = true) : joinsWord c = false := by
  have hId : isIdChar c = false := by
    rw [← Bool.not_eq_true]
    intro hId
    rw [isBlank_eq_false_of_isIdChar hId] at h
    cases h
  have hPlus : c ≠ '+' := by
    rintro rfl
    exact absurd h (by decide)
  have hColon : c ≠ ':' := by
    rintro rfl
    exact absurd h (by decide)
  simp [joinsWord, hId, hPlus, hColon]

theorem splits_of_blank (position : Nat) {gap : List Char}
    (hGap : ∀ c ∈ gap, Text.isBlank c = true) : Splits position gap [] := by
  induction gap generalizing position with
  | nil => exact .done position
  | cons c rest ih =>
      exact .blank (hGap c List.mem_cons_self) (ih _ fun d hd => hGap d (List.mem_cons_of_mem c hd))

/-- A token does not begin in a gap, so the gap can be left out. -/
theorem splits_gap_iff {gap : List Char} (hGap : ∀ c ∈ gap, Text.isBlank c = true) :
    Splits position (gap ++ cs) tokens ↔ Splits (position + gap.length) cs tokens := by
  induction gap generalizing position with
  | nil => rfl
  | cons c rest ih =>
      have hBlank := hGap c List.mem_cons_self
      have hRest : Splits (position + 1) (rest ++ cs) tokens ↔
          Splits (position + 1 + rest.length) cs tokens :=
        ih fun d hd => hGap d (List.mem_cons_of_mem c hd)
      rw [List.length_cons, Nat.add_comm rest.length, ← Nat.add_assoc, ← hRest, List.cons_append]
      constructor
      · intro h
        generalize hText : c :: (rest ++ cs) = text at h
        cases h with
        | done position => cases hText
        | blank isBlank after =>
            obtain ⟨-, rfl⟩ := List.cons.inj hText
            exact after
        | token spelled complete after =>
            obtain ⟨d, tail, rfl, hVisible⟩ := exists_cons_of_spells spelled
            obtain ⟨rfl, -⟩ := List.cons.inj hText
            rw [hBlank] at hVisible
            cases hVisible
      · exact .blank hBlank

/-- A text that begins with the word of its first token goes on behind that word. -/
theorem Splits.behind_word {kind : Kind} {place : Nat} {word rest : List Char}
    (h : Splits position (word ++ rest) (⟨kind, place⟩ :: tokens)) (hWord : Spells kind word) :
    Complete kind rest ∧ Splits (position + word.length) rest tokens := by
  generalize hText : word ++ rest = text at h
  cases h with
  | blank isBlank after =>
      obtain ⟨c, tail, rfl, hVisible⟩ := exists_cons_of_spells hWord
      obtain ⟨rfl, -⟩ := List.cons.inj hText
      rw [isBlank] at hVisible
      cases hVisible
  | token spelled complete after =>
      have hLength := (length_of_spells hWord).trans (length_of_spells spelled).symm
      obtain ⟨rfl, rfl⟩ := List.append_inj hText hLength
      exact ⟨complete, after⟩

/-- A token stays complete where no word begins that did not begin there before. -/
theorem Complete.of_head {kind : Kind} {rest other : List Char} (h : Complete kind rest)
    (hHead : ∀ c ∈ other.head?, joinsWord c = true → ∃ d ∈ rest.head?, joinsWord d = true) :
    Complete kind other := by
  have hStop (hRest : ∀ c ∈ rest.head?, !joinsWord c) : ∀ c ∈ other.head?, !joinsWord c := by
    intro c hc
    rw [Bool.not_eq_true', ← Bool.not_eq_true]
    intro hJoins
    obtain ⟨d, hd, hOther⟩ := hHead c hc hJoins
    have hNone := hRest d hd
    rw [hOther] at hNone
    cases hNone
  cases kind with
  | operator op => exact hStop h
  | opening => trivial
  | closing => trivial
  | identifier value orLater =>
      cases orLater with
      | false => exact hStop h
      | true => trivial

theorem complete_of_blank (kind : Kind) {rest : List Char}
    (h : ∀ c ∈ rest.head?, Text.isBlank c = true) : Complete kind rest := by
  have hNothing : Complete kind [] := by
    cases kind with
    | operator op => simp [Complete]
    | opening => trivial
    | closing => trivial
    | identifier value orLater => cases orLater <;> simp [Complete]
  refine hNothing.of_head fun c hc hJoins => ?_
  rw [joinsWord_of_isBlank (h c hc)] at hJoins
  cases hJoins

/-- The word of an identifier. -/
theorem eq_of_spells_identifier {value : String} {orLater : Bool} {word : List Char}
    (h : Spells (.identifier value orLater) word) :
    word = value.toList ++ if orLater then ['+'] else [] := by
  cases h with
  | plain identifier free => simp
  | marked identifier => simp

/-- Only an operator has more than one spelling. -/
theorem eq_or_of_spells {kind : Kind} {word other : List Char} (hWord : Spells kind word)
    (hOther : Spells kind other) : other = word ∨ ∃ op, kind = .operator op := by
  cases kind with
  | operator op => exact .inr ⟨op, rfl⟩
  | opening =>
      cases hWord
      cases hOther
      exact .inl rfl
  | closing =>
      cases hWord
      cases hOther
      exact .inl rfl
  | identifier value orLater =>
      exact .inl ((eq_of_spells_identifier hOther).trans (eq_of_spells_identifier hWord).symm)

/-- Of two spellings of a token the one begins like a word if the other does. -/
theorem joinsWord_head_of_spells {kind : Kind} {word other : List Char} (hWord : Spells kind word)
    (hOther : Spells kind other) (rest more : List Char) :
    ∀ c ∈ (other ++ more).head?, joinsWord c = true →
      ∃ d ∈ (word ++ rest).head?, joinsWord d = true := by
  intro c hc hJoins
  obtain ⟨d, tail, rfl, -⟩ := exists_cons_of_spells hWord
  refine ⟨d, rfl, ?_⟩
  rcases eq_or_of_spells hWord hOther with rfl | ⟨op, rfl⟩
  · obtain rfl := Option.some.inj hc
    exact hJoins
  · cases hWord with
    | operator spelled =>
        have hRun := isRun_of_mem_spellings spelled
        simp [joinsWord, hRun.2 d List.mem_cons_self]

end Token

/-! ### Layouts -/

structure Piece where
  gap : List Char
  word : List Char

/-- A text taken apart into words. -/
structure Layout where
  pieces : List Piece
  /-- What stands behind the last word. -/
  ending : List Char

namespace Layout

def chars (l : Layout) : List Char :=
  l.pieces.flatMap (fun p => p.gap ++ p.word) ++ l.ending

def text (l : Layout) : String :=
  String.ofList l.chars

/-- The words of the layout spell the tokens, and nothing but blanks stands between them. -/
structure Shows (l : Layout) (tokens : List Token) : Prop where
  words : List.Forall₂ (fun t p => Spells t.kind p.word) tokens l.pieces
  gaps : ∀ p ∈ l.pieces, ∀ c ∈ p.gap, Text.isBlank c = true
  ending : ∀ c ∈ l.ending, Text.isBlank c = true

def Respelled (word other : List Char) : Prop :=
  other = word ∨ ∃ op, word ∈ Token.spellings op ∧ other ∈ Token.spellings op

/-- The layouts have the same words, apart from the two spellings of an operator, and the second one
has other blanks. Two words can be moved apart, and those that are apart stay so. -/
structure Relaid (l other : Layout) : Prop where
  words : List.Forall₂ (fun p q => Respelled p.word q.word) l.pieces other.pieces
  gaps : ∀ q ∈ other.pieces, ∀ c ∈ q.gap, Text.isBlank c = true
  ending : ∀ c ∈ other.ending, Text.isBlank c = true
  apart : List.Forall₂ (fun p q => q.gap ≠ [] ∨ q.gap = p.gap) l.pieces.tail other.pieces.tail

@[simp] theorem chars_cons (p : Piece) (pieces : List Piece) (ending : List Char) :
    chars ⟨p :: pieces, ending⟩ = p.gap ++ (p.word ++ chars ⟨pieces, ending⟩) := by
  simp [chars]

/-- Every text that splits into tokens has a layout that shows them. -/
theorem exists_shows {position : Nat} {cs : List Char} {tokens : List Token}
    (h : Token.Splits position cs tokens) : ∃ l : Layout, l.chars = cs ∧ l.Shows tokens := by
  induction h with
  | done position => exact ⟨⟨[], []⟩, rfl, .nil, nofun, nofun⟩
  | @blank position c rest tokens isBlank after ih =>
      obtain ⟨⟨pieces, ending⟩, rfl, hWords, hGaps, hEnding⟩ := ih
      cases pieces with
      | nil =>
          refine ⟨⟨[], c :: ending⟩, rfl, hWords, nofun, ?_⟩
          exact List.forall_mem_cons.2 ⟨isBlank, hEnding⟩
      | cons p pieces =>
          refine ⟨⟨⟨c :: p.gap, p.word⟩ :: pieces, ending⟩, by simp, ?_, ?_, hEnding⟩
          · cases hWords with
            | cons first others => exact .cons first others
          · rw [List.forall_mem_cons] at hGaps ⊢
            exact ⟨List.forall_mem_cons.2 ⟨isBlank, hGaps.1⟩, hGaps.2⟩
  | @token position kind word rest tokens spelled complete after ih =>
      obtain ⟨⟨pieces, ending⟩, rfl, hWords, hGaps, hEnding⟩ := ih
      refine ⟨⟨⟨[], word⟩ :: pieces, ending⟩, by simp, .cons spelled hWords, ?_, hEnding⟩
      exact List.forall_mem_cons.2 ⟨nofun, hGaps⟩

/-- The other spelling of an operator spells it as well. -/
theorem spells_of_respelled {kind : Kind} {word other : List Char} (hWord : Spells kind word)
    (h : Respelled word other) : Spells kind other := by
  rcases h with rfl | ⟨op, hFirst, hSecond⟩
  · exact hWord
  · have hId := (Token.isRun_of_mem_spellings hFirst).2
    cases hWord with
    | @operator given word spelled =>
        rw [← Token.operatorOf?_eq_some_iff] at hFirst spelled
        obtain rfl := Option.some.inj (hFirst.symm.trans spelled)
        exact .operator hSecond
    | opening => exact absurd (hId '(' (by simp)) (by decide)
    | closing => exact absurd (hId ')' (by simp)) (by decide)
    | plain identifier free => exact absurd hFirst (free op)
    | marked identifier => exact absurd (hId '+' (by simp)) (by decide)

/-- A token stays complete in front of other blanks, and where no blanks were put. -/
theorem complete_of_relaid {kind : Kind} {l other : Layout} {tokens : List Token}
    (h : Token.Complete kind l.chars)
    (hWords : List.Forall₂ (fun t p => Spells t.kind p.word) tokens l.pieces)
    (hRespelled : List.Forall₂ (fun p q => Respelled p.word q.word) l.pieces other.pieces)
    (hApart : List.Forall₂ (fun p q => q.gap ≠ [] ∨ q.gap = p.gap) l.pieces other.pieces)
    (hGaps : ∀ q ∈ other.pieces, ∀ c ∈ q.gap, Text.isBlank c = true)
    (hEnding : ∀ c ∈ other.ending, Text.isBlank c = true) : Token.Complete kind other.chars := by
  obtain ⟨pieces, ending⟩ := l
  obtain ⟨otherPieces, otherEnding⟩ := other
  cases hApart with
  | nil => exact Token.complete_of_blank kind fun c hc => hEnding c (List.mem_of_mem_head? hc)
  | @cons p q pieces others apart rest =>
      have hBlank := hGaps q List.mem_cons_self
      rw [chars_cons] at h ⊢
      cases hGap : q.gap with
      | cons c gap =>
          refine Token.complete_of_blank kind fun d hd => hBlank d ?_
          rw [hGap]
          exact List.mem_of_mem_head? hd
      | nil =>
          -- No blank was put between the words, so there was none before.
          rw [hGap] at apart
          rw [← apart.resolve_left (fun hNe => hNe rfl)] at h
          cases hWords with
          | cons spelled words =>
              cases hRespelled with
              | cons respelled _ =>
                  have hOther := spells_of_respelled spelled respelled
                  exact h.of_head (Token.joinsWord_head_of_spells spelled hOther _ _)

/-- A text that is laid out anew splits into tokens of the same kinds, wherever it begins. -/
theorem splits_of_relaid {l other : Layout} {position : Nat} {tokens : List Token}
    (h : Token.Splits position l.chars tokens) (hShows : l.Shows tokens) (hRelaid : l.Relaid other)
    (start : Nat) : ∃ others, Token.Splits start other.chars others ∧
      others.map Token.kind = tokens.map Token.kind := by
  obtain ⟨pieces, ending⟩ := l
  obtain ⟨otherPieces, otherEnding⟩ := other
  obtain ⟨hWords, hGaps, hEnding⟩ := hShows
  obtain ⟨hRespelled, hOtherGaps, hOtherEnding, hApart⟩ := hRelaid
  dsimp only at hWords hGaps hEnding hRespelled hOtherGaps hOtherEnding hApart
  induction hRespelled generalizing position start tokens with
  | nil =>
      cases hWords
      exact ⟨[], Token.splits_of_blank start hOtherEnding, rfl⟩
  | @cons p q pieces others respelled rest ih =>
      rw [List.forall_mem_cons] at hGaps hOtherGaps
      rw [List.tail_cons, List.tail_cons] at hApart
      cases hWords with
      | @cons t _ tokens _ spelled words =>
          rw [chars_cons, Token.splits_gap_iff hGaps.1] at h
          obtain ⟨hComplete, hBehind⟩ := h.behind_word spelled
          have hLater : List.Forall₂ (fun p q => q.gap ≠ [] ∨ q.gap = p.gap) pieces.tail
              others.tail := by
            cases hApart with
            | nil => exact .nil
            | cons _ later => exact later
          obtain ⟨us, hUs, hKinds⟩ :=
            ih (start + q.gap.length + q.word.length) hBehind words hGaps.2 hOtherGaps.2 hLater
          have hWord := spells_of_respelled spelled respelled
          have hOther : Token.Complete t.kind (chars ⟨others, otherEnding⟩) :=
            complete_of_relaid hComplete words rest hApart hOtherGaps.2 hOtherEnding
          refine ⟨⟨t.kind, start + q.gap.length⟩ :: us, ?_, by simp [hKinds]⟩
          rw [chars_cons, Token.splits_gap_iff hOtherGaps.1]
          exact .token hWord hOther hUs

theorem Relaid.refl {l : Layout} {tokens : List Token} (h : l.Shows tokens) : l.Relaid l where
  words := List.forall₂_same.2 fun _ _ => .inl rfl
  gaps := h.gaps
  ending := h.ending
  apart := List.forall₂_same.2 fun _ _ => .inr rfl

end Layout

/-- A text splits into tokens of the same kinds wherever it begins. -/
theorem Token.Splits.moved {position : Nat} {cs : List Char} {tokens : List Token}
    (h : Token.Splits position cs tokens) (start : Nat) :
    ∃ others, Token.Splits start cs others ∧ others.map Token.kind = tokens.map Token.kind := by
  obtain ⟨l, rfl, hShows⟩ := Layout.exists_shows h
  exact Layout.splits_of_relaid h hShows (.refl hShows) start

end Licensing
