import Licensing.Reader

/-!
What one step of the reader does. A token that is accepted moves the reader on in one of a few ways
(`Moves`), and one that is refused is refused for one of a few reasons (`Objects`). Where an
objection is placed, what the reader keeps and what it reports is said of these cases.
-/

namespace Licensing

open Log (Event)
open ParseError (Objection)

/-! ### One identifier -/

namespace Lookup

/-- The ways in which an identifier, with a `+` or without, is refused. -/
inductive Refused (value : String) (position : Nat) : Bool → Objection → Prop where
  | deprecated (orLater : Bool) :
      Refused value position orLater ⟨position, .deprecatedNotAllowed value⟩
  | unknown : Refused value position false ⟨position, .unknownNotAllowed value⟩
  | isException : Refused value position false ⟨position, .exceptionAsLicense value⟩
  | isLicense : Refused value position false ⟨position, .licenseAsException value⟩
  | plus : Refused value position true ⟨position + value.length, .plusNotAllowed value⟩
  | plusOnException : Refused value position true ⟨position + value.length, .plusOnException value⟩

/-- Only a deprecated entry is refused once it is found. -/
theorem refused_of_accepting {α : Type} {k : Lookup} {value : String} {orLater : Bool}
    {position : Nat} {deprecated : Bool} {found : α} {o : Objection}
    (h : k.accepting value position deprecated found = .error o) :
    Refused value position orLater o := by
  cases deprecated with
  | false => simp [accepting, accept, Except.map] at h
  | true =>
      by_cases hCurrent : k.strictness = .allowCurrent
      · simp [accepting, accept, hCurrent, Except.map] at h
        rw [← h]
        exact .deprecated orLater
      · simp [accepting, accept, hCurrent, Except.map] at h

theorem refused_of_resolvePlus {k : Lookup} {value : String} {position : Nat} {o : Objection}
    (h : k.resolvePlus value position = .error o) : Refused value position true o := by
  simp only [resolvePlus] at h
  split at h
  · exact refused_of_accepting h
  · exact refused_of_accepting h
  · obtain rfl := Except.error.inj h
    exact .plus

/-- A license is refused in one of the ways of `Refused`, whatever the strictness. -/
theorem refused_of_resolveLicense {k : Lookup} {value : String} {orLater : Bool} {position : Nat}
    {o : Objection} (h : k.resolveLicense value orLater position = .error o) :
    Refused value position orLater o := by
  cases orLater with
  | true => exact refused_of_resolvePlus h
  | false =>
      simp only [resolveLicense, Bool.false_eq_true, if_false] at h
      split at h
      · obtain rfl := Except.error.inj h
        exact .isException
      · split at h
        · exact refused_of_accepting h
        · split at h
          · cases h
          · obtain rfl := Except.error.inj h
            exact .unknown

theorem refused_of_resolveException {k : Lookup} {value : String} {orLater : Bool}
    {position : Nat} {o : Objection} (h : k.resolveException value orLater position = .error o) :
    Refused value position orLater o := by
  cases orLater with
  | true =>
      obtain rfl := Except.error.inj h
      exact .plusOnException
  | false =>
      simp only [resolveException, Bool.false_eq_true, if_false] at h
      split at h
      · obtain rfl := Except.error.inj h
        exact .isLicense
      · split at h
        · exact refused_of_accepting h
        · split at h
          · cases h
          · obtain rfl := Except.error.inj h
            exact .unknown

end Lookup

namespace Reader

/-! ### Steps that are accepted -/

/-- The steps that are accepted: the state before, the token, and the state and the event after. -/
inductive Moves (k : Lookup) : State → Token → State → Option Event → Prop where
  | license {groups : List Group} {pending : Pending} {lead : Lead} {value : String}
      {orLater : Bool} {position : Nat} {l : License} {event : Option Event}
      (resolved : k.resolveLicense value orLater position = .ok (l, event)) :
      Moves k ⟨groups, pending, .operand lead⟩ ⟨.identifier value orLater, position⟩
        ⟨groups, pending, .continuation (.license l) false⟩ event
  | opening (groups : List Group) (pending : Pending) (lead : Lead) (position : Nat) :
      Moves k ⟨groups, pending, .operand lead⟩ ⟨.opening, position⟩
        ⟨⟨position, pending⟩ :: groups, .none, .operand .opening⟩ none
  | exception {groups : List Group} {pending : Pending} {granted : Expr} {place : Nat}
      {value : String} {orLater : Bool} {position : Nat} {x : LicenseException}
      {event : Option Event}
      (resolved : k.resolveException value orLater position = .ok (x, event)) :
      Moves k ⟨groups, pending, .exception granted place⟩ ⟨.identifier value orLater, position⟩
        ⟨groups, pending, .continuation (.join granted .attach (.exception x)) true⟩ event
  | attach (groups : List Group) (pending : Pending) (operand : Expr) (position : Nat) :
      Moves k ⟨groups, pending, .continuation operand false⟩ ⟨.operator .attach, position⟩
        ⟨groups, pending, .exception operand position⟩ none
  | and (groups : List Group) (pending : Pending) (operand : Expr) (granted : Bool)
      (position : Nat) :
      Moves k ⟨groups, pending, .continuation operand granted⟩ ⟨.operator .and, position⟩
        ⟨groups, { pending with factors := some (pending.conjunction operand) },
          .operand (.operator .and)⟩ none
  | or (groups : List Group) (pending : Pending) (operand : Expr) (granted : Bool)
      (position : Nat) :
      Moves k ⟨groups, pending, .continuation operand granted⟩ ⟨.operator .or, position⟩
        ⟨groups, ⟨some (pending.whole operand), none⟩, .operand (.operator .or)⟩ none
  | closing (group : Group) (outer : List Group) (pending : Pending) (operand : Expr)
      (granted : Bool) (position : Nat) :
      Moves k ⟨group :: outer, pending, .continuation operand granted⟩ ⟨.closing, position⟩
        ⟨outer, group.pending, .continuation (pending.whole operand) false⟩ none

section

variable {k : Lookup} {s next : State} {t : Token} {event : Option Event}

theorem moves_of_stepOperand {groups : List Group} {pending : Pending} {lead : Lead}
    (h : stepOperand k ⟨groups, pending, .operand lead⟩ lead t = .ok (next, event)) :
    Moves k ⟨groups, pending, .operand lead⟩ t next event := by
  obtain ⟨kind, position⟩ := t
  cases kind with
  | identifier value orLater =>
      change (k.resolveLicense value orLater position >>= _) = _ at h
      cases hResolved : k.resolveLicense value orLater position with
      | error o => simp [hResolved, bind, Except.bind] at h
      | ok found =>
          obtain ⟨rfl, rfl⟩ := Prod.mk.inj (Except.ok.inj (hResolved ▸ h))
          exact .license hResolved
  | opening =>
      obtain ⟨rfl, rfl⟩ := Prod.mk.inj (Except.ok.inj h)
      exact .opening groups pending lead position
  | operator op => cases h
  | closing => cases h

/-- Behind a `WITH` an exception is read, and is attached if the operand has none. -/
theorem moves_of_stepException {groups : List Group} {pending : Pending} {granted : Expr}
    {place : Nat}
    (h : stepException k ⟨groups, pending, .exception granted place⟩ granted place t =
      .ok (next, event)) :
    Moves k ⟨groups, pending, .exception granted place⟩ t next event := by
  obtain ⟨kind, position⟩ := t
  unfold stepException at h
  split at h
  · cases h
  · split at h
    · cases h
    · cases kind with
      | identifier value orLater =>
          change (k.resolveException value orLater position >>= _) = _ at h
          cases hResolved : k.resolveException value orLater position with
          | error o => simp [hResolved, bind, Except.bind] at h
          | ok found =>
              obtain ⟨rfl, rfl⟩ := Prod.mk.inj (Except.ok.inj (hResolved ▸ h))
              exact .exception hResolved
      | opening => cases h
      | operator op => cases h
      | closing => cases h

theorem moves_of_stepContinuation {groups : List Group} {pending : Pending} {operand : Expr}
    {granted : Bool}
    (h : stepContinuation ⟨groups, pending, .continuation operand granted⟩ operand granted t =
      .ok next) :
    Moves k ⟨groups, pending, .continuation operand granted⟩ t next none := by
  obtain ⟨kind, position⟩ := t
  cases kind with
  | operator op =>
      cases op with
      | attach =>
          cases granted with
          | true => cases h
          | false =>
              obtain rfl := Except.ok.inj h
              exact .attach groups pending operand position
      | or =>
          obtain rfl := Except.ok.inj h
          exact .or groups pending operand granted position
      | and =>
          obtain rfl := Except.ok.inj h
          exact .and groups pending operand granted position
  | closing =>
      cases groups with
      | nil => cases h
      | cons group outer =>
          obtain rfl := Except.ok.inj h
          exact .closing group outer pending operand granted position
  | opening => cases h
  | identifier value orLater => cases h

/-- Every step that is accepted is one of `Moves`. What a step can do is looked up there, not in the
reader. -/
theorem moves_of_step (h : step k s t = .ok (next, event)) : Moves k s t next event := by
  obtain ⟨groups, pending, awaiting⟩ := s
  cases awaiting with
  | operand lead => exact moves_of_stepOperand h
  | exception granted place => exact moves_of_stepException h
  | continuation operand granted =>
      change (stepContinuation _ operand granted t >>= _) = _ at h
      cases hNext : stepContinuation ⟨groups, pending, .continuation operand granted⟩ operand
          granted t with
      | error o => simp [hNext, bind, Except.bind] at h
      | ok other =>
          obtain ⟨rfl, rfl⟩ := Prod.mk.inj (Except.ok.inj (hNext ▸ h))
          exact moves_of_stepContinuation hNext

/-! ### Tokens that are refused -/

/-- The steps that are refused: the state, the token and the objection, which is made to the token
or to the `WITH` before it. -/
inductive Objects (k : Lookup) : State → Token → Objection → Prop where
  | license (groups : List Group) (pending : Pending) (lead : Lead) {value : String}
      {orLater : Bool} {position : Nat} {o : Objection}
      (refused : k.resolveLicense value orLater position = .error o) :
      Objects k ⟨groups, pending, .operand lead⟩ ⟨.identifier value orLater, position⟩ o
  | operandMissing (groups : List Group) (pending : Pending) (lead : Lead) {t : Token}
      (other : t.kind.beginsOperand = false) :
      Objects k ⟨groups, pending, .operand lead⟩ t
        ⟨t.position, operandMissing lead (some t.kind)⟩
  | attachedMissing (groups : List Group) (pending : Pending) (granted : Expr) (place : Nat)
      {t : Token} (other : t.kind.beginsOperand = false) :
      Objects k ⟨groups, pending, .exception granted place⟩ t
        ⟨t.position, .missingRightOperand .attach (some t.kind)⟩
  | exceptionInGranted (groups : List Group) (pending : Pending) {granted : Expr} (place : Nat)
      {t : Token} (begins : t.kind.beginsOperand = true) (has : hasException granted = true) :
      Objects k ⟨groups, pending, .exception granted place⟩ t ⟨place, .exceptionInGranted⟩
  | exception (groups : List Group) (pending : Pending) {granted : Expr} (place : Nat)
      {value : String} {orLater : Bool} {position : Nat} {o : Objection}
      (free : hasException granted = false)
      (refused : k.resolveException value orLater position = .error o) :
      Objects k ⟨groups, pending, .exception granted place⟩ ⟨.identifier value orLater, position⟩ o
  | exceptionExpected (groups : List Group) (pending : Pending) {granted : Expr}
      (place position : Nat) (free : hasException granted = false) :
      Objects k ⟨groups, pending, .exception granted place⟩ ⟨.opening, position⟩
        ⟨position, .exceptionExpected (some .opening)⟩
  | secondException (groups : List Group) (pending : Pending) (operand : Expr) (position : Nat) :
      Objects k ⟨groups, pending, .continuation operand true⟩ ⟨.operator .attach, position⟩
        ⟨position, .secondException⟩
  | notContinued {groups : List Group} (pending : Pending) (operand : Expr) (granted : Bool)
      {t : Token} (noOperator : ∀ op, t.kind ≠ .operator op)
      (outermost : t.kind = .closing → groups = []) :
      Objects k ⟨groups, pending, .continuation operand granted⟩ t
        ⟨t.position, notContinued groups (some t.kind)⟩

variable {o : Objection}

theorem objects_of_stepOperand {groups : List Group} {pending : Pending} {lead : Lead}
    (h : stepOperand k ⟨groups, pending, .operand lead⟩ lead t = .error o) :
    Objects k ⟨groups, pending, .operand lead⟩ t o := by
  obtain ⟨kind, position⟩ := t
  cases kind with
  | identifier value orLater =>
      change (k.resolveLicense value orLater position >>= _) = _ at h
      cases hResolved : k.resolveLicense value orLater position with
      | error other =>
          obtain rfl := Except.error.inj (hResolved ▸ h)
          exact .license groups pending lead hResolved
      | ok found => simp [hResolved, bind, Except.bind, pure, Except.pure] at h
  | opening => cases h
  | operator op =>
      obtain rfl := Except.error.inj h
      exact .operandMissing groups pending lead rfl
  | closing =>
      obtain rfl := Except.error.inj h
      exact .operandMissing groups pending lead rfl

/-- Behind a `WITH` the token is refused, or the `WITH` itself for what it would be attached to. -/
theorem objects_of_stepException {groups : List Group} {pending : Pending} {granted : Expr}
    {place : Nat}
    (h : stepException k ⟨groups, pending, .exception granted place⟩ granted place t = .error o) :
    Objects k ⟨groups, pending, .exception granted place⟩ t o := by
  unfold stepException at h
  split at h
  · rename_i hOther
    obtain rfl := Except.error.inj h
    exact .attachedMissing groups pending granted place (by simpa using hOther)
  · rename_i hBegins
    split at h
    · rename_i hGranted
      obtain rfl := Except.error.inj h
      exact .exceptionInGranted groups pending place (by simpa using hBegins) hGranted
    · rename_i hFree
      have hNone : hasException granted = false := by simpa using hFree
      obtain ⟨kind, position⟩ := t
      cases kind with
      | identifier value orLater =>
          change (k.resolveException value orLater position >>= _) = _ at h
          cases hResolved : k.resolveException value orLater position with
          | error other =>
              obtain rfl := Except.error.inj (hResolved ▸ h)
              exact .exception groups pending place hNone hResolved
          | ok found => simp [hResolved, bind, Except.bind, pure, Except.pure] at h
      | opening =>
          obtain rfl := Except.error.inj h
          exact .exceptionExpected groups pending place position hNone
      | operator op => exact absurd rfl hBegins
      | closing => exact absurd rfl hBegins

theorem objects_of_stepContinuation {groups : List Group} {pending : Pending} {operand : Expr}
    {granted : Bool}
    (h : stepContinuation ⟨groups, pending, .continuation operand granted⟩ operand granted t =
      .error o) :
    Objects k ⟨groups, pending, .continuation operand granted⟩ t o := by
  obtain ⟨kind, position⟩ := t
  cases kind with
  | operator op =>
      cases op with
      | attach =>
          cases granted with
          | true =>
              obtain rfl := Except.error.inj h
              exact .secondException groups pending operand position
          | false => cases h
      | or => cases h
      | and => cases h
  | closing =>
      cases groups with
      | nil =>
          obtain rfl := Except.error.inj h
          exact .notContinued pending operand granted (by simp) fun _ => rfl
      | cons group outer => cases h
  | opening =>
      obtain rfl := Except.error.inj h
      exact .notContinued pending operand granted (by simp) (by simp)
  | identifier value orLater =>
      obtain rfl := Except.error.inj h
      exact .notContinued pending operand granted (by simp) (by simp)

/-- Every step that is refused is one of `Objects`. -/
theorem objects_of_step (h : step k s t = .error o) : Objects k s t o := by
  obtain ⟨groups, pending, awaiting⟩ := s
  cases awaiting with
  | operand lead => exact objects_of_stepOperand h
  | exception granted place => exact objects_of_stepException h
  | continuation operand granted =>
      change (stepContinuation _ operand granted t >>= _) = _ at h
      cases hNext : stepContinuation ⟨groups, pending, .continuation operand granted⟩ operand
          granted t with
      | error other =>
          obtain rfl := Except.error.inj (hNext ▸ h)
          exact objects_of_stepContinuation hNext
      | ok next => simp [hNext, bind, Except.bind, pure, Except.pure] at h

end

end Reader

end Licensing
