import Licensing.Proofs.Grammar.Safety

/-!
How far reading gets. A run takes steps that are accepted until a token is refused, or to the end,
and reports what it met on the way (`run_cases`). An objection is to the end exactly when it is
placed at the end of the text, behind all tokens.
-/

namespace Licensing

open Log (Event)
open ParseError (Cause Objection)

def ParseError.Cause.aboutEnd : Cause → Bool
  | unexpectedEnd | missingRightOperand _ none | missingClosing _ none | operatorExpected none
  | exceptionExpected none => true
  | _ => false

/-- An identifier is never refused for being the end of the text. -/
theorem Lookup.Refused.aboutEnd_eq {value : String} {orLater : Bool} {position : Nat}
    {o : Objection} (h : Refused value position orLater o) : o.cause.aboutEnd = false := by
  cases h <;> rfl

namespace Reader

/-! ### Runs -/

/-- The reader takes tokens from one state to another and reports events on the way. -/
inductive Passes (k : Lookup) : State → List Token → List Event → State → Prop where
  | nil (s : State) : Passes k s [] [] s
  | cons {s next last : State} {t : Token} {tokens : List Token} {event : Option Event}
      {events : List Event} (first : step k s t = .ok (next, event))
      (later : Passes k next tokens events last) :
      Passes k s (t :: tokens) (event.toList ++ events) last

/-- A run passes all tokens and ends with the last state, or it passes those in front of one that is
refused. Either way it has reported what it passed. -/
theorem run_cases (k : Lookup) (length : Nat) (s : State) (tokens : List Token) :
    (∃ last, Passes k s tokens (run k length s tokens).events last ∧
      (run k length s tokens).value = finish length last) ∨
    ∃ passed t rest last o, tokens = passed ++ t :: rest ∧
      Passes k s passed (run k length s tokens).events last ∧ step k last t = .error o ∧
      (run k length s tokens).value = .error o := by
  induction tokens generalizing s with
  | nil => exact .inl ⟨s, .nil s, rfl⟩
  | cons t rest ih =>
      cases hStep : step k s t with
      | error o =>
          right
          have hRun : run k length s (t :: rest) = ⟨.error o, []⟩ := by simp only [run, hStep]
          rw [hRun]
          exact ⟨[], t, rest, s, o, rfl, .nil s, hStep, rfl⟩
      | ok found =>
          obtain ⟨next, event⟩ := found
          have hRun : run k length s (t :: rest) = ⟨(run k length next rest).value,
              event.toList ++ (run k length next rest).events⟩ := by simp only [run, hStep]
          rw [hRun]
          obtain ⟨last, hPasses, hValue⟩ | ⟨passed, u, more, last, o, rfl, hPasses, hLast⟩ :=
            ih next
          · exact .inl ⟨last, .cons hStep hPasses, hValue⟩
          · exact .inr ⟨t :: passed, u, more, last, o, rfl, .cons hStep hPasses, hLast⟩

variable {k : Lookup} {length : Nat} {s last : State} {t : Token} {tokens all : List Token}
  {events : List Event} {o : Objection}

/-- Whatever a run passes, the place that is kept is one of a token. -/
theorem Passes.remembers (h : Passes k s tokens events last) (hKept : Remembers all s)
    (hMem : ∀ t ∈ tokens, t ∈ all) : Remembers all last := by
  induction h with
  | nil s => exact hKept
  | @cons s next last t tokens event events first later ih =>
      rw [List.forall_mem_cons] at hMem
      have hGuarded : Guarded all 0 (step k s t) := guarded_step hMem.1 hKept
      rw [first] at hGuarded
      exact ih hGuarded hMem.2

/-! ### Objections to the end -/

theorem aboutEnd_operandMissing (lead : Lead) (found : Option Token.Kind) :
    (operandMissing lead found).aboutEnd = found.isNone := by
  cases lead <;> cases found with
  | none => rfl
  | some kind => cases kind <;> rfl

theorem aboutEnd_notContinued (groups : List Group) (found : Option Token.Kind) :
    (notContinued groups found).aboutEnd = found.isNone := by
  cases groups <;> cases found with
  | none => rfl
  | some kind => cases kind <;> rfl

/-- A step objects to its token or to one before it, not to the end. -/
theorem aboutEnd_of_step (h : step k s t = .error o) : o.cause.aboutEnd = false := by
  cases objects_of_step h with
  | license groups pending lead refused =>
      exact (Lookup.refused_of_resolveLicense refused).aboutEnd_eq
  | operandMissing groups pending lead other => exact aboutEnd_operandMissing lead _
  | attachedMissing => rfl
  | exceptionInGranted => rfl
  | exception groups pending place free refused =>
      exact (Lookup.refused_of_resolveException refused).aboutEnd_eq
  | exceptionExpected => rfl
  | secondException => rfl
  | notContinued => exact aboutEnd_notContinued _ _

/-- At the end of the tokens the objection is to the end, and is placed there. -/
theorem aboutEnd_of_finish (h : finish length s = .error o) :
    o.position = length ∧ o.cause.aboutEnd = true := by
  unfold finish at h
  split at h
  · obtain rfl := Except.error.inj h
    exact ⟨rfl, aboutEnd_operandMissing _ _⟩
  · obtain rfl := Except.error.inj h
    exact ⟨rfl, rfl⟩
  · split at h
    · cases h
    · obtain rfl := Except.error.inj h
      exact ⟨rfl, aboutEnd_notContinued _ _⟩

end Reader

end Licensing
