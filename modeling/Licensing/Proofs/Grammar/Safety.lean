import Licensing.Proofs.Grammar.Acceptance
import Licensing.Proofs.Grammar.Descent
import Licensing.Proofs.Grammar.Mentions
import Licensing.Proofs.Grammar.Steps
import Licensing.Proofs.Token.Splitting

/-!
Parsing is safe. It gives a tree or a parse error and fails in no other way, also where tokens are
looked up by place and operands are checked before they are joined; a tree is a license expression
of the identifiers in the text; and the place of an error is in the text, at something that can be
seen.
-/

namespace Licensing

open Log (Event)
open ParseError (Cause Objection)
open Token (Kind Spells Splits)

namespace ParseError

def Cause.aboutPlus : Cause → Bool
  | plusNotAllowed _ | plusOnException _ => true
  | _ => false

/-- The place of an objection is the end of the text or the place of a token, or, for an objection
to a `+`, the place right behind an identifier that has one. -/
inductive Objection.Points (tokens : List Token) (length : Nat) : Objection → Prop where
  | atEnd {cause : Cause} (plain : cause.aboutPlus = false) : Points tokens length ⟨length, cause⟩
  | token {t : Token} {cause : Cause} (mem : t ∈ tokens) (plain : cause.aboutPlus = false) :
      Points tokens length ⟨t.position, cause⟩
  | plus {value : String} {position : Nat} {cause : Cause}
      (mem : ⟨.identifier value true, position⟩ ∈ tokens) :
      Points tokens length ⟨position + value.length, cause⟩

end ParseError

/-! ### Objections of one token -/

namespace Lookup

def RefusedAt (value : String) (orLater : Bool) (position : Nat) (o : Objection) : Prop :=
  o.position = position ∧ o.cause.aboutPlus = false ∨
    orLater = true ∧ o.position = position + value.length

/-- A refused identifier is objected to where it begins, or where its `+` stands. -/
theorem Refused.refusedAt {value : String} {orLater : Bool} {position : Nat} {o : Objection}
    (h : Refused value position orLater o) : RefusedAt value orLater position o := by
  cases h with
  | deprecated => exact .inl ⟨rfl, rfl⟩
  | unknown => exact .inl ⟨rfl, rfl⟩
  | isException => exact .inl ⟨rfl, rfl⟩
  | isLicense => exact .inl ⟨rfl, rfl⟩
  | plus => exact .inr ⟨rfl, rfl⟩
  | plusOnException => exact .inr ⟨rfl, rfl⟩

theorem RefusedAt.points {value : String} {orLater : Bool} {position length : Nat} {o : Objection}
    {tokens : List Token} (h : RefusedAt value orLater position o)
    (hMem : ⟨.identifier value orLater, position⟩ ∈ tokens) : o.Points tokens length := by
  obtain ⟨place, cause⟩ := o
  rcases h with ⟨rfl, hPlain⟩ | ⟨rfl, rfl⟩
  · exact .token hMem hPlain
  · exact .plus hMem

end Lookup

namespace Reader

/-- The place that a reader keeps for an objection is one of a token. -/
def Remembers (tokens : List Token) (s : State) : Prop :=
  ∀ granted position, s.awaiting = .exception granted position → ∃ t ∈ tokens, t.position = position

theorem aboutPlus_operandMissing (lead : Lead) (found : Option Kind) :
    (operandMissing lead found).aboutPlus = false := by
  unfold operandMissing
  split <;> rfl

theorem aboutPlus_notContinued (groups : List Group) (found : Option Kind) :
    (notContinued groups found).aboutPlus = false := by
  unfold notContinued
  split
  · rfl
  · split <;> rfl

section

variable {k : Lookup} {length : Nat} {tokens : List Token} {s : State} {t : Token} {o : Objection}

/-- A step objects to a token, or what it keeps is the place of one. -/
def Guarded (tokens : List Token) (length : Nat) : Except Objection (State × Option Event) → Prop
  | .error o => o.Points tokens length
  | .ok (next, _) => Remembers tokens next

/-- Only a `WITH` that is accepted leaves a place to be kept: its own. -/
theorem Moves.remembers {next : State} {event : Option Event} (h : Moves k s t next event)
    (hMem : t ∈ tokens) : Remembers tokens next := by
  intro granted place hAwaiting
  cases h with
  | attach groups pending operand position =>
      obtain ⟨-, rfl⟩ := Awaiting.exception.inj hAwaiting
      exact ⟨_, hMem, rfl⟩
  | license resolved => cases hAwaiting
  | opening => cases hAwaiting
  | exception resolved => cases hAwaiting
  | and => cases hAwaiting
  | or => cases hAwaiting
  | closing => cases hAwaiting

/-- An objection points to the token that is refused, or to the `WITH` in front of it. -/
theorem Objects.points (h : Objects k s t o) (hMem : t ∈ tokens) (hKept : Remembers tokens s) :
    o.Points tokens length := by
  cases h with
  | license groups pending lead refused =>
      exact (Lookup.refused_of_resolveLicense refused).refusedAt.points hMem
  | operandMissing groups pending lead other =>
      exact .token hMem (aboutPlus_operandMissing lead _)
  | attachedMissing groups pending granted place other => exact .token hMem rfl
  | @exceptionInGranted groups pending granted place t begins has =>
      obtain ⟨word, hWord, rfl⟩ := hKept granted place rfl
      exact .token hWord rfl
  | exception groups pending place free refused =>
      exact (Lookup.refused_of_resolveException refused).refusedAt.points hMem
  | exceptionExpected groups pending place position free => exact .token hMem rfl
  | secondException groups pending operand position => exact .token hMem rfl
  | @notContinued groups pending operand granted t noOperator outermost =>
      exact .token hMem (aboutPlus_notContinued groups _)

/-- A reader objects to the token that it looks at, to the `+` of it, or to a token that it keeps.
-/
theorem guarded_step (hMem : t ∈ tokens) (hKept : Remembers tokens s) :
    Guarded tokens length (step k s t) := by
  cases hStep : step k s t with
  | error o => exact (objects_of_step hStep).points hMem hKept
  | ok found => exact (moves_of_step hStep).remembers hMem

theorem points_of_finish (h : finish length s = .error o) : o.Points tokens length := by
  unfold finish at h
  split at h
  · obtain rfl := Except.error.inj h
    exact .atEnd (aboutPlus_operandMissing _ _)
  · obtain rfl := Except.error.inj h
    exact .atEnd rfl
  · split at h
    · cases h
    · obtain rfl := Except.error.inj h
      exact .atEnd (aboutPlus_notContinued _ _)

/-- An objection of the reader is to one of the tokens that it was given, or to their end. -/
theorem points_of_run {rest : List Token} (hKept : Remembers tokens s)
    (hRest : ∀ t ∈ rest, t ∈ tokens) (h : (run k length s rest).value = .error o) :
    o.Points tokens length := by
  induction rest generalizing s with
  | nil => exact points_of_finish h
  | cons t rest ih =>
      have hGuarded : Guarded tokens length (step k s t) :=
        guarded_step (hRest t List.mem_cons_self) hKept
      cases hStep : step k s t with
      | error other =>
          obtain rfl : other = o := by simpa [run, hStep] using h
          rw [hStep] at hGuarded
          exact hGuarded
      | ok found =>
          obtain ⟨next, event⟩ := found
          rw [hStep] at hGuarded
          rw [value_run_of_step hStep] at h
          exact ih hGuarded (fun t ht => hRest t (List.mem_cons_of_mem _ ht)) h

end

end Reader

/-! ### Places in the text -/

namespace ParseError

/-- The place of an error: it is in its text or at the end, no blank stands there unless nothing
else does, and an objection to a `+` is made where it stands. -/
structure Placed (error : ParseError) : Prop where
  within : error.position ≤ error.text.length
  visible : Text.allBlank error.text = true ∨ error.position = error.text.length ∨
    ∃ c, error.text.toList[error.position]? = some c ∧ Text.isBlank c = false
  plus : error.cause.aboutPlus = true → error.text.toList[error.position]? = some '+'

/-- Tokens stand where their characters do, so an error that points to one does not point to a
blank. -/
theorem Objection.Points.placed {text : String} {tokens : List Token} {o : Objection}
    (h : o.Points tokens text.length) (hSplits : Splits 0 text.toList tokens) :
    (ofObjection text o).Placed := by
  have hLength : text.toList.length = text.length := String.length_toList
  cases h with
  | atEnd plain =>
      refine ⟨Nat.le_refl _, .inr (.inl rfl), fun hPlus => ?_⟩
      exact absurd (hPlus.symm.trans plain) (by decide)
  | @token t cause mem plain =>
      obtain ⟨before, word, after, hText, hPlace, hSpells⟩ := hSplits.exists_word mem
      obtain ⟨c, tail, rfl, hVisible⟩ := Token.exists_cons_of_spells hSpells
      have hAt : text.toList[t.position]? = some c := by
        simp [hText, hPlace]
      have hWithin := (List.getElem?_eq_some_iff.1 hAt).1
      refine ⟨?_, .inr (.inr ⟨c, hAt, hVisible⟩), fun hPlus => ?_⟩
      · exact Nat.le_of_lt (hLength ▸ hWithin)
      · exact absurd (hPlus.symm.trans plain) (by decide)
  | @plus value position cause mem =>
      obtain ⟨before, word, after, hText, hPlace, hSpells⟩ := hSplits.exists_word mem
      have hWord : word = value.toList ++ ['+'] := by
        cases hSpells with
        | marked identifier => rw [String.toList_ofList]
      have hAt : text.toList[position + value.length]? = some '+' := by
        have hPosition : position = before.length := by simpa using hPlace
        rw [hText, hWord, hPosition, ← String.length_toList]
        simp
      have hWithin := (List.getElem?_eq_some_iff.1 hAt).1
      refine ⟨?_, .inr (.inr ⟨'+', hAt, by decide⟩), fun _ => hAt⟩
      exact Nat.le_of_lt (hLength ▸ hWithin)

end ParseError

/-- A text that does not split is refused at a character that begins no token. -/
theorem tokenize_eq_error {text : String} {o : Objection} (h : tokenize text = .error o) :
    (ParseError.ofObjection text o).Placed := by
  unfold tokenize at h
  cases hScan : Token.scan 0 text.toList with
  | ok tokens => simp [hScan] at h
  | error stray =>
      obtain rfl : ⟨stray.position, .unexpectedCharacter stray.character⟩ = o := by
        simpa [hScan] using h
      obtain ⟨before, after, hText, hPlace, hVisible⟩ := Token.exists_of_scan_eq_error hScan
      have hAt : text.toList[stray.position]? = some stray.character := by
        simp [hText, hPlace]
      have hWithin := (List.getElem?_eq_some_iff.1 hAt).1
      refine ⟨?_, .inr (.inr ⟨_, hAt, hVisible⟩), fun hPlus => by cases hPlus⟩
      exact Nat.le_of_lt (String.length_toList ▸ hWithin)

/-- What a text is refused for, in the order in which it is looked for: there is nothing in it, it
does not split into tokens, or the reader objects to one of them. -/
theorem value_parse (k : Lookup) (text : String) :
    (parse k text).value =
      if Text.allBlank text then .error ⟨text, 0, .emptyExpression⟩
      else
        match tokenize text with
        | .error o => .error (.ofObjection text o)
        | .ok tokens =>
          match (Reader.run k text.length .initial tokens).value with
          | .error o => .error (.ofObjection text o)
          | .ok e => .ok e := by
  unfold parse
  split
  · rfl
  · cases tokenize text with
    | error o => rfl
    | ok tokens =>
        dsimp only
        cases (Reader.run k text.length .initial tokens).value <;> rfl

theorem placed_of_parse {k : Lookup} {text : String} {error : ParseError}
    (h : (parse k text).value = .error error) : error.Placed := by
  rw [value_parse] at h
  split at h
  · rename_i hBlank
    obtain rfl := Except.error.inj h
    exact ⟨Nat.zero_le _, .inl hBlank, fun hPlus => by cases hPlus⟩
  · split at h
    · rename_i o hTokens
      obtain rfl := Except.error.inj h
      exact tokenize_eq_error hTokens
    · rename_i tokens hTokens
      split at h
      · rename_i o hRun
        obtain rfl := Except.error.inj h
        have hKept : Reader.Remembers tokens .initial := fun _ _ hAwaiting => by cases hAwaiting
        have hPoints := Reader.points_of_run hKept (fun _ ht => ht) hRun
        exact hPoints.placed (tokenize_eq_ok_iff.1 hTokens)
      · cases h

/-- The descent through a text ends as parsing does, and reports the same on the way. -/
theorem Descent.parse_eq (k : Lookup) (text : String) :
    Descent.parse k text =
      ⟨match (Licensing.parse k text).value with
        | .ok e => .ok e
        | .error error => .error (.objection ⟨error.position, error.cause⟩),
        (Licensing.parse k text).events⟩ := by
  unfold Descent.parse Licensing.parse
  split
  · rfl
  · cases tokenize text with
    | error o => rfl
    | ok tokens =>
        show Descent.readAll k ⟨tokens, text.length⟩ = _
        rw [Descent.readAll_eq]
        dsimp only
        cases (Reader.run k text.length .initial tokens).value <;> rfl

/-- Every text is parsed to a tree or refused with a parse error, and the descent, which looks every
token up by its place and checks everything that it joins, ends in the same way: it never looks
behind the end and never finds that something does not fit. Until then it has reported the same
identifiers, in the same order. A tree is a license expression whose leaves are what the identifiers
of the text become, in their order; an error is about the text and is placed at something in it. -/
theorem parse_safe (k : Lookup) (text : String) :
    (Descent.parse k text).run.events = (parse k text).events ∧
    match (parse k text).value with
    | .ok e =>
      (Descent.parse k text).run.value = .ok e ∧ e.IsLicense ∧
        ∃ tokens, tokenize text = .ok tokens ∧
          List.Forall₂ (fun m l => k.resolve m = .ok l) (mentions false tokens) e.leaves
    | .error error =>
      (Descent.parse k text).run.value = .error (.objection ⟨error.position, error.cause⟩) ∧
        error.text = text ∧ error.Placed := by
  have hDescent := Descent.parse_eq k text
  refine ⟨congrArg Log.Logged.events hDescent, ?_⟩
  cases hParse : (parse k text).value with
  | ok e =>
      rw [hParse] at hDescent
      obtain ⟨tokens, hSplits, hDerives⟩ := parse_eq_ok_iff.1 hParse
      exact ⟨congrArg Log.Logged.value hDescent, Grammar.isLicense_of_derives hDerives, tokens,
        tokenize_eq_ok_iff.2 hSplits, mentions_of_derives hDerives⟩
  | error error =>
      rw [hParse] at hDescent
      exact ⟨congrArg Log.Logged.value hDescent, text_of_parse_error hParse,
        placed_of_parse hParse⟩

end Licensing
