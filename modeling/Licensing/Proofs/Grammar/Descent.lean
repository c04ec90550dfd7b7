import Licensing.Descent
import Licensing.Grammar.Reading
import Licensing.Proofs.Expr.Queries

/-!
The descent and the reader agree. Whatever the tokens, the descent gives the tree of the reader or
makes its objection, and reports what the reader reports in the same order: it looks up no token
behind the end, whatever it joins fits, and the calls that it is allowed are enough. Each level is
followed by the states through which the reader goes over the same tokens.
-/

namespace Licensing

def Log.Logged.after {α : Type} (events : List Log.Event) (x : Log.Logged α) : Log.Logged α :=
  ⟨x.value, events ++ x.events⟩

/-- Events that were reported in two parts are reported in the order of the parts. -/
theorem Log.Logged.after_after {α : Type} (first second : List Log.Event) (x : Log.Logged α) :
    (x.after second).after first = x.after (first ++ second) := by
  rw [after, after, after, List.append_assoc]

namespace Descent

open Grammar (Level)
open Log (Event Logged)
open Reader (Awaiting Group Lead Pending State)
open Token (Kind)

/-! ### What the descent asks of an expression -/

/-- In a license expression every exception is attached. -/
theorem hasException_of_isLicense {e : Expr} (h : e.IsLicense) :
    Reader.hasException e = e.hasAttachment := by
  induction e, h using Expr.isLicense_induction with
  | single l => rfl
  | attach left x hLeft hFree ih => simp [Reader.hasException, Expr.leaves, Expr.hasAttachment]
  | join left op right hOp hLeft hRight ihLeft ihRight =>
      have hJoin : Reader.hasException (.join left op right) =
          (Reader.hasException left || Reader.hasException right) := by
        simp [Reader.hasException, Expr.leaves]
      rw [hJoin, ihLeft, ihRight, Expr.hasAttachment, beq_eq_false_iff_ne.2 hOp, Bool.false_or]

/-- A license expression can be asked for its exceptions, and has some when one is a leaf. -/
theorem exceptionIds_of_isLicense {e : Expr} (h : e.IsLicense) :
    ∃ ids, e.exceptionIds = .ok ids ∧ (ids = [] ↔ e.hasAttachment = false) := by
  refine ⟨_, Expr.collect_of_isLicense Leaf.exceptionId? h, ?_⟩
  rw [distinctOn_eq_nil_iff, List.filterMap_eq_nil_iff, ← hasException_of_isLicense h,
    Reader.hasException, List.any_eq_false]
  refine forall₂_congr fun l _ => ?_
  cases l <;> simp [Leaf.exceptionId?]

/-! ### The tokens from a place on -/

/-- What is looked up or checked is not reported. -/
theorem liftM_ok_bind {α β : Type} (a : α) (f : α → Reading β) :
    ((liftM (.ok a : Except Failure α) : Reading α) >>= f) = f a := rfl

section

variable {k : Lookup} {input : Input}

def runFrom (k : Lookup) (input : Input) (s : State) (i : Nat) :
    Logged (Except ParseError.Objection Expr) :=
  Reader.run k input.length s (input.tokens.drop i)

theorem look_eq {i : Nat} (h : i ≤ input.tokens.length) :
    input.look i = .ok input.tokens[i]? := by
  rw [Input.look, Input.marked]
  rcases Nat.lt_or_eq_of_le h with hLess | rfl
  · rw [List.getElem?_append_left (by simpa using hLess), List.getElem?_map,
      List.getElem?_eq_getElem hLess]
    rfl
  · rw [List.getElem?_append_right (by simp), List.getElem?_eq_none h]
    simp

theorem lt_length_of_getElem? {i : Nat} {t : Token} (h : input.tokens[i]? = some t) :
    i < input.tokens.length :=
  (List.getElem?_eq_some_iff.1 h).1

theorem drop_eq_cons {i : Nat} {t : Token} (h : input.tokens[i]? = some t) :
    input.tokens.drop i = t :: input.tokens.drop (i + 1) := by
  obtain ⟨hLess, rfl⟩ := List.getElem?_eq_some_iff.1 h
  exact List.drop_eq_getElem_cons hLess

/-- A token that is accepted puts its event in front of what the rest reports. -/
theorem run_of_step {s next : State} {i : Nat} {t : Token} {event : Option Event}
    (hToken : input.tokens[i]? = some t) (hStep : Reader.step k s t = .ok (next, event)) :
    runFrom k input s i = (runFrom k input next (i + 1)).after event.toList := by
  rw [runFrom, drop_eq_cons hToken, Reader.run, hStep]
  rfl

/-- Nothing is reported about a token that is refused. -/
theorem run_of_objection {s : State} {i : Nat} {t : Token} {o : ParseError.Objection}
    (hToken : input.tokens[i]? = some t) (hStep : Reader.step k s t = .error o) :
    runFrom k input s i = ⟨.error o, []⟩ := by
  rw [runFrom, drop_eq_cons hToken, Reader.run, hStep]

theorem run_of_end {s : State} {i : Nat} (hEnd : input.tokens[i]? = none) :
    runFrom k input s i = ⟨Reader.finish input.length s, []⟩ := by
  rw [runFrom, List.drop_eq_nil_of_le (List.getElem?_eq_none_iff.1 hEnd), Reader.run]

/-- What the descent gives for a part is what the reader makes of the tokens from the same place on:
an objection is made by both, and behind a part the reader is in a state that suits the part. Both
have reported the same until then. -/
def Agrees (k : Lookup) (input : Input) (s : State) (i : Nat) (After : Part → State → Prop) :
    Reading Part → Prop
  | ⟨.ok part, events⟩ => ∃ next, After part next ∧
      runFrom k input s i = (runFrom k input next part.next).after events
  | ⟨.error (.objection o), events⟩ => runFrom k input s i = ⟨.error o, events⟩
  | ⟨.error _, _⟩ => False

/-- What both have reported before may be set apart. -/
theorem Agrees.of_run_eq {s s' : State} {i i' : Nat} {After : Part → State → Prop}
    {events : List Event} {r : Reading Part}
    (hRun : runFrom k input s i = (runFrom k input s' i').after events)
    (h : Agrees k input s' i' After r) : Agrees k input s i After (Logged.after events r) := by
  match r, h with
  | ⟨.ok part, later⟩, ⟨next, hAfter, hNext⟩ =>
      refine ⟨next, hAfter, ?_⟩
      rw [hRun, hNext, Logged.after_after]
  | ⟨.error (.objection o), later⟩, h =>
      have hLater : runFrom k input s' i' = ⟨.error o, later⟩ := h
      exact hRun.trans (congrArg (Logged.after events) hLater)

/-- A token that is not reported is passed by both. -/
theorem Agrees.of_step {s next : State} {i : Nat} {t : Token} {After : Part → State → Prop}
    {r : Reading Part} (hToken : input.tokens[i]? = some t)
    (hStep : Reader.step k s t = .ok (next, none)) (h : Agrees k input next (i + 1) After r) :
    Agrees k input s i After r :=
  h.of_run_eq (run_of_step hToken hStep)

/-- Parts that agree one after another agree as one, with the events of the first in front. -/
theorem Agrees.bind {s : State} {i : Nat} {After Then : Part → State → Prop}
    {r : Reading Part} {f : Part → Reading Part} (h : Agrees k input s i After r)
    (hThen : ∀ part next, After part next → Agrees k input next part.next Then (f part)) :
    Agrees k input s i Then (r >>= f) := by
  match r, h with
  | ⟨.ok part, events⟩, ⟨next, hAfter, hNext⟩ => exact (hThen part next hAfter).of_run_eq hNext
  | ⟨.error (.objection o), events⟩, h =>
      have hRun : runFrom k input s i = ⟨.error o, events⟩ := h
      show runFrom k input s i = ⟨.error o, events ++ []⟩
      rw [hRun, List.append_nil]

/-- An identifier is refused by both, or resolved and reported by both. -/
theorem Agrees.of_resolving {α : Type} {s : State} {i : Nat} {t : Token}
    {After : Part → State → Prop} {resolved : Except ParseError.Objection (α × Option Event)}
    {f : α → Reading Part} (resume : α → State) (hToken : input.tokens[i]? = some t)
    (hStep : Reader.step k s t = resolved.map fun found => (resume found.1, found.2))
    (hThen : ∀ found event, resolved = .ok (found, event) →
      Agrees k input (resume found) (i + 1) After (f found)) :
    Agrees k input s i After (resolving resolved >>= f) := by
  cases resolved with
  | error o => exact run_of_objection hToken hStep
  | ok found =>
      obtain ⟨found, event⟩ := found
      exact (hThen found event rfl).of_run_eq (run_of_step hToken hStep)

/-! ### Where the reader is behind a part -/

def strength : Level → Nat
  | .disjunction => 0
  | .conjunction => 1
  | .granted => 2
  | .primary => 3

def chainLevel : Operator → Level
  | .or => .disjunction
  | .and => .conjunction
  | .attach => .granted

/-- No operator that a level takes follows. -/
def Stops (level : Level) (found : Option Token) : Prop :=
  ∀ op, found.map (·.kind) = some (.operator op) → op.strength < strength level

theorem stops_primary (found : Option Token) : Stops .primary found := by
  intro op _
  cases op <;> decide

/-- Behind a chain stands no more operator of it. -/
theorem Stops.chain (op : Operator) {found : Option Token} (h : Stops (operandLevel op) found)
    (hOther : found.map (·.kind) ≠ some (.operator op)) : Stops (chainLevel op) found := by
  intro next hNext
  have hNe : next ≠ op := fun hSame => hOther (hSame ▸ hNext)
  have hLess := h next hNext
  cases op <;> cases next <;> simp_all [strength, operandLevel, chainLevel, Operator.strength]

/-- Nothing waits for an operand of the level but what waits for the whole level. -/
def Fresh : Level → Pending → Prop
  | .disjunction, pending => pending = .none
  | .conjunction, pending => pending.factors = none
  | _, _ => True

/-- The reader is behind a part of a level, in a group in which something waited for the part. -/
def Behind (groups : List Group) (pending : Pending) : Level → Expr → State → Prop
  | .primary, e, s => s = ⟨groups, pending, .continuation e false⟩
  | .granted, e, s => ∃ granted, s = ⟨groups, pending, .continuation e granted⟩
  | .conjunction, e, s => ∃ factors operand granted,
      s = ⟨groups, ⟨pending.alternatives, factors⟩, .continuation operand granted⟩ ∧
        (Pending.mk none factors).conjunction operand = e
  | .disjunction, e, s => ∃ inner operand granted,
      s = ⟨groups, inner, .continuation operand granted⟩ ∧ inner.whole operand = e

structure Ends (input : Input) (level : Level) (groups : List Group) (pending : Pending)
    (low : Nat) (part : Part) (s : State) : Prop where
  behind : Behind groups pending level part.expr s
  license : part.expr.IsLicense
  later : low < part.next
  within : part.next ≤ input.tokens.length
  stops : Stops level input.tokens[part.next]?

/-- A single operand is a chain. -/
theorem Behind.chain {groups : List Group} {pending : Pending} {op : Operator} {e : Expr}
    {s : State} (hOp : op ≠ .attach) (hFresh : Fresh (chainLevel op) pending)
    (h : Behind groups pending (operandLevel op) e s) :
    Behind groups pending (chainLevel op) e s := by
  obtain ⟨alternatives, factors⟩ := pending
  cases op with
  | attach => exact absurd rfl hOp
  | and =>
      obtain ⟨granted, rfl⟩ := h
      obtain rfl : factors = none := hFresh
      exact ⟨none, e, granted, rfl, rfl⟩
  | or =>
      obtain ⟨factors', operand, granted, rfl, rfl⟩ := h
      obtain ⟨rfl, rfl⟩ : alternatives = none ∧ factors = none := by
        simpa [Fresh, chainLevel, Pending.none] using hFresh
      exact ⟨_, operand, granted, rfl, rfl⟩

theorem Fresh.operand {op : Operator} {pending : Pending} (h : Fresh (chainLevel op) pending) :
    Fresh (operandLevel op) pending := by
  cases op with
  | attach => trivial
  | and => trivial
  | or =>
      obtain rfl : pending = .none := h
      rfl

/-- An operator behind a chain makes the chain wait for one more operand, and the two together are a
chain again. -/
theorem Behind.step (k : Lookup) (position : Nat) {groups : List Group} {pending : Pending}
    {op : Operator} {e : Expr} {s : State} (hOp : op ≠ .attach)
    (h : Behind groups pending (chainLevel op) e s) :
    ∃ waiting, Fresh (operandLevel op) waiting ∧
      Reader.step k s ⟨.operator op, position⟩ =
        .ok (⟨groups, waiting, .operand (.operator op)⟩, none) ∧
      ∀ f next, Behind groups waiting (operandLevel op) f next →
        Behind groups pending (chainLevel op) (.join e op f) next := by
  cases op with
  | attach => exact absurd rfl hOp
  | and =>
      obtain ⟨factors, operand, granted, rfl, rfl⟩ := h
      refine ⟨⟨pending.alternatives, some _⟩, trivial, rfl, ?_⟩
      rintro f next ⟨granted, rfl⟩
      exact ⟨some _, f, granted, rfl, rfl⟩
  | or =>
      obtain ⟨inner, operand, granted, rfl, rfl⟩ := h
      refine ⟨⟨some _, none⟩, rfl, rfl, ?_⟩
      rintro f next ⟨factors, operand', granted', rfl, rfl⟩
      exact ⟨⟨some _, factors⟩, operand', granted', rfl, rfl⟩

/-- The token can stand where the reader awaits an operand, as far as the token before that place
can tell. -/
def Suits : Lead → Option Token → Prop
  | .start, _ => True
  | .opening, found => found.map (·.kind) ≠ some .closing
  | .operator _, found => (found.map (·.kind)).any (·.beginsOperand) = true

/-! ### The parts of the descent -/

/-- Behind an operator the descent finds the place of an operand, or objects as the reader does. -/
theorem takeOperator_cases (op : Operator) {i : Nat} (h : i < input.tokens.length) :
    (input.takeOperator op i = .ok (i + 1) ∧
        (input.tokens[i + 1]?.map (·.kind)).any (·.beginsOperand) = true) ∨
      ((input.tokens[i + 1]?.map (·.kind)).any (·.beginsOperand) = false ∧
        input.takeOperator op i =
          input.objection input.tokens[i + 1]?
            (.missingRightOperand op (input.tokens[i + 1]?.map (·.kind)))) := by
  unfold Input.takeOperator
  rw [look_eq h]
  by_cases hBegins : (input.tokens[i + 1]?.map (·.kind)).any (·.beginsOperand) = true
  · left
    exact ⟨if_pos hBegins, hBegins⟩
  · right
    exact ⟨Bool.not_eq_true _ ▸ hBegins, if_neg hBegins⟩

/-- The reader objects where no operand follows an operator. -/
theorem run_of_missing {groups : List Group} {pending : Pending} {awaiting : Awaiting} {i : Nat}
    {op : Operator}
    (hAwaiting : awaiting = .operand (.operator op) ∨
      ∃ granted position, op = .attach ∧ awaiting = .exception granted position)
    (h : (input.tokens[i]?.map (·.kind)).any (·.beginsOperand) = false) :
    runFrom k input ⟨groups, pending, awaiting⟩ i =
      ⟨.error ⟨input.tokens[i]?.elim input.length (·.position),
        .missingRightOperand op (input.tokens[i]?.map (·.kind))⟩, []⟩ := by
  cases hToken : input.tokens[i]? with
  | none =>
      rw [run_of_end hToken]
      rcases hAwaiting with rfl | ⟨granted, position, rfl, rfl⟩ <;> rfl
  | some t =>
      obtain ⟨kind, position⟩ := t
      rw [hToken] at h
      have hKind : kind.beginsOperand = false := h
      apply run_of_objection hToken
      rcases hAwaiting with rfl | ⟨granted, place, rfl, rfl⟩
      · cases kind <;> first | rfl | cases hKind
      · simp [Reader.step, Reader.stepException, hKind]

/-- The reader after `WITH`, where an operand can begin, and the exception of the descent. -/
theorem agrees_attach {groups : List Group} {pending : Pending} {low i position : Nat} {e : Expr}
    (hLicense : e.IsLicense) (hFree : e.hasAttachment = false) (hLow : low ≤ i)
    (hIn : i ≤ input.tokens.length)
    (hBegins : (input.tokens[i]?.map (·.kind)).any (·.beginsOperand) = true) :
    Agrees k input ⟨groups, pending, .exception e position⟩ i
      (Ends input .granted groups pending low) (attach k input e i) := by
  have hNone : Reader.hasException e = false := by rw [hasException_of_isLicense hLicense, hFree]
  unfold attach
  rw [look_eq hIn]
  cases hToken : input.tokens[i]? with
  | none =>
      rw [hToken] at hBegins
      cases hBegins
  | some t =>
      have hLess := lt_length_of_getElem? hToken
      obtain ⟨kind, place⟩ := t
      rw [hToken] at hBegins
      cases kind with
      | operator op => cases hBegins
      | closing => cases hBegins
      | opening =>
          apply run_of_objection hToken
          simp [Reader.step, Reader.stepException, Kind.beginsOperand, hNone]
      | identifier value orLater =>
          let resume (x : LicenseException) : State :=
            ⟨groups, pending, .continuation (.join e .attach (.exception x)) true⟩
          have hStep : Reader.step k ⟨groups, pending, .exception e position⟩
              ⟨.identifier value orLater, place⟩ =
                (k.resolveException value orLater place).map fun found =>
                  (resume found.1, found.2) := by
            simp only [Reader.step, Reader.stepException, Kind.beginsOperand, hNone, Bool.not_true,
              Bool.false_eq_true, if_false]
            cases k.resolveException value orLater place <;> rfl
          refine Agrees.of_resolving resume hToken hStep fun x event _ => ?_
          have hJoin : e.join? .attach (.exception x) = .ok (.join e .attach (.exception x)) :=
            Expr.join?_attach_eq_ok_iff.2
              ⟨Expr.ne_exception_of_isLicense hLicense, hFree, ⟨x, rfl⟩, rfl⟩
          simp only [hJoin, fitting, look_eq hLess, liftM_ok_bind]
          by_cases hSecond : input.tokens[i + 1]?.map (·.kind) = some (.operator .attach)
          · obtain ⟨⟨kind, place⟩, hNext, rfl⟩ := Option.map_eq_some_iff.1 hSecond
            rw [if_pos hSecond, hNext]
            exact run_of_objection hNext rfl
          · rw [if_neg hSecond]
            have hStops : Stops .granted input.tokens[i + 1]? :=
              (stops_primary _).chain .attach hSecond
            exact ⟨_, ⟨⟨true, rfl⟩, ⟨hLicense, hFree⟩, Nat.lt_succ_of_le hLow, hLess, hStops⟩, rfl⟩

/-- Behind a primary the reader goes on as the descent does, with an exception or without. -/
theorem agrees_grant {groups : List Group} {pending : Pending} {low : Nat} {part : Part}
    {s : State} (h : Ends input .primary groups pending low part s) :
    Agrees k input s part.next (Ends input .granted groups pending low) (grant k input part) := by
  obtain ⟨e, i⟩ := part
  obtain ⟨rfl, hLicense, hLow, hIn, -⟩ := h
  have hLow : low < i := hLow
  have hIn : i ≤ input.tokens.length := hIn
  obtain ⟨ids, hIds, hEmpty⟩ := exceptionIds_of_isLicense hLicense
  unfold grant
  simp only [look_eq hIn, liftM_ok_bind]
  by_cases hWord : input.tokens[i]?.map (·.kind) = some (.operator .attach)
  · obtain ⟨⟨kind, position⟩, hToken, rfl⟩ := Option.map_eq_some_iff.1 hWord
    have hLess := lt_length_of_getElem? hToken
    have hStep : Reader.step k ⟨groups, pending, .continuation e false⟩
        ⟨.operator .attach, position⟩ = .ok (⟨groups, pending, .exception e position⟩, none) := rfl
    rw [if_pos hWord]
    rcases takeOperator_cases .attach hLess with ⟨hPlace, hBegins⟩ | ⟨hMissing, hObjection⟩
    · simp only [hPlace, hIds, fitting, liftM_ok_bind]
      apply Agrees.of_step hToken hStep
      by_cases hFree : e.hasAttachment = false
      · rw [if_neg (by simpa using hEmpty.2 hFree)]
        exact agrees_attach hLicense hFree (by omega) hLess hBegins
      · -- The descent objects to the `WITH` behind it, the reader to the place that it kept of it.
        rw [if_pos fun hNil => hFree (hEmpty.1 hNil), hToken]
        have hSome : Reader.hasException e = true := by
          rw [hasException_of_isLicense hLicense]
          exact Bool.not_eq_false _ ▸ hFree
        cases hNext : input.tokens[i + 1]? with
        | none =>
            rw [hNext] at hBegins
            cases hBegins
        | some t =>
            rw [hNext] at hBegins
            have hKind : t.kind.beginsOperand = true := hBegins
            apply run_of_objection hNext
            simp [Reader.step, Reader.stepException, hKind, hSome]
    · rw [hObjection]
      apply Agrees.of_step hToken hStep
      exact run_of_missing (.inr ⟨e, position, rfl, rfl⟩) hMissing
  · rw [if_neg hWord]
    have hStops : Stops .granted input.tokens[i]? := (stops_primary _).chain .attach hWord
    exact ⟨_, ⟨⟨false, rfl⟩, hLicense, hLow, hIn, hStops⟩, rfl⟩

/-- Behind what is in a group the reader goes on as the descent does. -/
theorem agrees_close {groups : List Group} {pending : Pending} {opened low : Nat} {inner : Part}
    {s : State} (h : Ends input .disjunction (⟨opened, pending⟩ :: groups) .none low inner s) :
    Agrees k input s inner.next (Ends input .primary groups pending low)
      (close input opened inner) := by
  obtain ⟨e, i⟩ := inner
  obtain ⟨⟨waiting, operand, granted, rfl, rfl⟩, hLicense, hLow, hIn, hStops⟩ := h
  have hLow : low < i := hLow
  have hIn : i ≤ input.tokens.length := hIn
  unfold close
  simp only [look_eq hIn, liftM_ok_bind]
  cases hToken : input.tokens[i]? with
  | none =>
      rw [if_neg (by simp)]
      exact run_of_end hToken
  | some t =>
      obtain ⟨kind, position⟩ := t
      cases kind with
      | closing =>
          have hStep : Reader.step k
              ⟨⟨opened, pending⟩ :: groups, waiting, .continuation operand granted⟩
              ⟨.closing, position⟩ =
                .ok (⟨groups, pending, .continuation (waiting.whole operand) false⟩, none) := rfl
          have hEnds := lt_length_of_getElem? hToken
          exact ⟨_, ⟨rfl, hLicense, Nat.lt_succ_of_lt hLow, hEnds, stops_primary _⟩,
            run_of_step hToken hStep⟩
      | operator op => exact absurd (hStops op (by simp [hToken])) (Nat.not_lt_zero _)
      | opening => exact run_of_objection hToken rfl
      | identifier value orLater => exact run_of_objection hToken rfl

/-- A primary is read as the reader goes on from where an operand is awaited, if what is in a group
is. -/
theorem agrees_primary {calls i : Nat} {groups : List Group} {pending : Pending} {lead : Lead}
    (hIn : i ≤ input.tokens.length) (hSuits : Suits lead input.tokens[i]?)
    (hInner : ∀ around, i < input.tokens.length → Suits .opening input.tokens[i + 1]? →
      Agrees k input ⟨around, .none, .operand .opening⟩ (i + 1)
        (Ends input .disjunction around .none (i + 1)) (read k input calls .disjunction (i + 1))) :
    Agrees k input ⟨groups, pending, .operand lead⟩ i (Ends input .primary groups pending i)
      (read k input (calls + 1) .primary i) := by
  rw [read, look_eq hIn, liftM_ok_bind]
  cases hToken : input.tokens[i]? with
  | none =>
      rw [hToken] at hSuits
      have hObjection : Reader.finish input.length ⟨groups, pending, .operand lead⟩ =
          .error ⟨input.length, .unexpectedEnd⟩ := by
        cases lead with
        | operator op => cases hSuits
        | start => rfl
        | opening => rfl
      exact (run_of_end hToken).trans (by rw [hObjection]; rfl)
  | some t =>
      have hLess := lt_length_of_getElem? hToken
      rw [hToken] at hSuits
      obtain ⟨kind, position⟩ := t
      cases kind with
      | identifier value orLater =>
          let resume (license : License) : State :=
            ⟨groups, pending, .continuation (.license license) false⟩
          have hStep : Reader.step k ⟨groups, pending, .operand lead⟩
              ⟨.identifier value orLater, position⟩ =
                (k.resolveLicense value orLater position).map fun found =>
                  (resume found.1, found.2) := by
            simp only [Reader.step, Reader.stepOperand]
            cases k.resolveLicense value orLater position <;> rfl
          refine Agrees.of_resolving resume hToken hStep fun license event _ => ?_
          exact ⟨_, ⟨rfl, trivial, Nat.lt_succ_self i, hLess, stops_primary _⟩, rfl⟩
      | opening =>
          have hStep : Reader.step k ⟨groups, pending, .operand lead⟩ ⟨.opening, position⟩ =
              .ok (⟨⟨position, pending⟩ :: groups, .none, .operand .opening⟩, none) := rfl
          apply Agrees.of_step hToken hStep
          simp only [look_eq hLess, liftM_ok_bind]
          by_cases hEmpty : input.tokens[i + 1]?.map (·.kind) = some .closing
          · obtain ⟨⟨kind, place⟩, hNext, rfl⟩ := Option.map_eq_some_iff.1 hEmpty
            rw [if_pos hEmpty, hNext]
            exact run_of_objection hNext rfl
          · rw [if_neg hEmpty]
            have hInside := hInner (⟨position, pending⟩ :: groups) hLess hEmpty
            refine hInside.bind fun part next hPart => ?_
            have hLater : i < part.next := Nat.lt_of_succ_lt hPart.later
            exact agrees_close { hPart with later := hLater }
      | operator op =>
          apply run_of_objection hToken
          cases lead with
          | operator first => cases hSuits
          | start => rfl
          | opening => rfl
      | closing =>
          apply run_of_objection hToken
          cases lead with
          | operator first => cases hSuits
          | start => rfl
          | opening => exact absurd rfl hSuits

/-- With so many calls every level is read as the reader goes on from where its operand is awaited.
Four calls are enough for each token that is left, and one for each level from the given one on. -/
def ReadsAlike (k : Lookup) (input : Input) (calls : Nat) : Prop :=
  ∀ level i groups pending lead, i ≤ input.tokens.length →
    4 * (input.tokens.length - i) + (4 - strength level) ≤ calls → Fresh level pending →
    Suits lead input.tokens[i]? →
    Agrees k input ⟨groups, pending, .operand lead⟩ i (Ends input level groups pending i)
      (read k input calls level i)

/-- With so many calls the rest of a chain is read as the reader goes on from behind the operands
that are already there. -/
def ExtendsAlike (k : Lookup) (input : Input) (calls : Nat) : Prop :=
  ∀ op part groups pending low s, op ≠ .attach → part.expr.IsLicense → low < part.next →
    part.next ≤ input.tokens.length → 4 * (input.tokens.length - part.next) + 1 ≤ calls →
    Behind groups pending (chainLevel op) part.expr s →
    Stops (operandLevel op) input.tokens[part.next]? →
    Agrees k input s part.next (Ends input (chainLevel op) groups pending low)
      (more k input op calls part)

section

variable {calls : Nat} (hRead : ReadsAlike k input calls) (hMore : ExtendsAlike k input calls)
include hRead hMore

/-- Both levels that are chains are read in one way: a first operand, and then the rest. -/
theorem agrees_chain {op : Operator} {i : Nat} {groups : List Group} {pending : Pending}
    {lead : Lead} (hOp : op ≠ .attach) (hIn : i ≤ input.tokens.length)
    (hCalls : 4 * (input.tokens.length - i) + (4 - strength (chainLevel op)) ≤ calls + 1)
    (hFresh : Fresh (chainLevel op) pending) (hSuits : Suits lead input.tokens[i]?) :
    Agrees k input ⟨groups, pending, .operand lead⟩ i (Ends input (chainLevel op) groups pending i)
      (read k input calls (operandLevel op) i >>= more k input op calls) := by
  have hTighter : strength (operandLevel op) = strength (chainLevel op) + 1 := by
    cases op <;> rfl
  have hStrength : strength (chainLevel op) ≤ 2 := by cases op <;> decide
  have hOperand := hRead (operandLevel op) i groups pending lead hIn (by omega) hFresh.operand
    hSuits
  refine hOperand.bind fun part next hPart => ?_
  have hLater := hPart.later
  have hWithin := hPart.within
  exact hMore op part groups pending i next hOp hPart.license hLater hWithin (by omega)
    (hPart.behind.chain hOp hFresh) hPart.stops

/-- A level is read by one more call than the levels and the chains that it is made of. -/
theorem readsAlike_succ : ReadsAlike k input (calls + 1) := by
  intro level i groups pending lead hIn hCalls hFresh hSuits
  cases level with
  | primary =>
      refine agrees_primary hIn hSuits fun around hLess hInner => ?_
      exact hRead .disjunction (i + 1) around .none .opening hLess
        (by simp only [strength] at hCalls ⊢; omega) rfl hInner
  | granted =>
      rw [read]
      have hPrimary := hRead .primary i groups pending lead hIn
        (by simp only [strength] at hCalls ⊢; omega) trivial hSuits
      exact hPrimary.bind fun part next hPart => agrees_grant hPart
  | conjunction =>
      rw [read]
      exact agrees_chain hRead hMore (by decide : Operator.and ≠ .attach) hIn hCalls hFresh hSuits
  | disjunction =>
      rw [read]
      exact agrees_chain hRead hMore (by decide : Operator.or ≠ .attach) hIn hCalls hFresh hSuits

/-- One more operand joins the chain, and the rest is read with one call less. -/
theorem extendsAlike_succ : ExtendsAlike k input (calls + 1) := by
  intro op part groups pending low s hOp hLicense hLow hIn hCalls hBehind hStops
  rw [more]
  simp only [look_eq hIn, liftM_ok_bind]
  by_cases hWord : input.tokens[part.next]?.map (·.kind) = some (.operator op)
  · obtain ⟨⟨kind, position⟩, hToken, rfl⟩ := Option.map_eq_some_iff.1 hWord
    have hLess := lt_length_of_getElem? hToken
    rw [if_pos hWord]
    obtain ⟨waiting, hFresh, hStep, hJoined⟩ := hBehind.step k position hOp
    apply Agrees.of_step hToken hStep
    rcases takeOperator_cases op hLess with ⟨hPlace, hBegins⟩ | ⟨hMissing, hObjection⟩
    · rw [hPlace, liftM_ok_bind]
      have hRight := hRead (operandLevel op) (part.next + 1) groups waiting (.operator op) hLess
        (by omega) hFresh hBegins
      refine hRight.bind fun right next hPart => ?_
      have hLater : part.next + 1 < right.next := hPart.later
      have hWithin := hPart.within
      have hEnough : 4 * (input.tokens.length - right.next) + 1 ≤ calls := by omega
      have hJoin : part.expr.join? op right.expr = .ok (.join part.expr op right.expr) :=
        (Expr.join?_eq_ok_iff hOp).2
          ⟨Expr.ne_exception_of_isLicense hLicense,
            Expr.ne_exception_of_isLicense hPart.license, rfl⟩
      have hBoth := (Expr.isLicense_join_iff hOp).2 ⟨hLicense, hPart.license⟩
      simp only [hJoin, fitting, liftM_ok_bind]
      exact hMore op ⟨.join part.expr op right.expr, right.next⟩ groups pending low next hOp
        hBoth (Nat.lt_trans (by omega) hLater) hWithin hEnough (hJoined _ _ hPart.behind)
        hPart.stops
    · rw [hObjection]
      exact run_of_missing (.inl rfl) hMissing
  · rw [if_neg hWord]
    exact ⟨s, ⟨hBehind, hLicense, hLow, hIn, hStops.chain op hWord⟩, rfl⟩

end

/-- The descent and the reader agree on every level and on the rest of every chain. The induction is
on the calls; every call looks at a later token or at a tighter level. -/
theorem agrees_read (k : Lookup) (input : Input) (calls : Nat) :
    ReadsAlike k input calls ∧ ExtendsAlike k input calls := by
  induction calls with
  | zero =>
      constructor
      · intro level i groups pending lead _ hCalls
        cases level <;> simp [strength] at hCalls
      · intro op part groups pending low s _ _ _ _ hCalls
        omega
  | succ calls ih =>
      obtain ⟨hRead, hMore⟩ := ih
      exact ⟨readsAlike_succ hRead hMore, extendsAlike_succ hRead hMore⟩

/-- The descent through all the tokens gives what the reader gives, and reports the same. -/
theorem readAll_eq (k : Lookup) (input : Input) :
    readAll k input =
      ⟨objecting (Reader.run k input.length .initial input.tokens).value,
        (Reader.run k input.length .initial input.tokens).events⟩ := by
  have hRead := (agrees_read k input (4 * (input.tokens.length + 1))).1
    .disjunction 0 [] .none .start (Nat.zero_le _) (by simp only [strength]; omega) rfl trivial
  have hRun : runFrom k input .initial 0 = Reader.run k input.length .initial input.tokens := rfl
  rw [← hRun]
  unfold readAll
  match hPart : read k input (4 * (input.tokens.length + 1)) .disjunction 0, hRead with
  | ⟨.error (.objection o), events⟩, hRead =>
      have hObjection : runFrom k input .initial 0 = ⟨.error o, events⟩ := hRead
      rw [hObjection]
      show (⟨_, events ++ []⟩ : Logged (Except Failure Expr)) = _
      rw [List.append_nil]
      rfl
  | ⟨.ok part, events⟩, ⟨next, hEnds, hNext⟩ =>
      obtain ⟨e, i⟩ := part
      obtain ⟨⟨waiting, operand, granted, rfl, rfl⟩, hLicense, hLow, hIn, hStops⟩ := hEnds
      have hIn : i ≤ input.tokens.length := hIn
      have hInitial : runFrom k input .initial 0 =
          (runFrom k input ⟨[], waiting, .continuation operand granted⟩ i).after events := hNext
      rw [hInitial]
      -- What was reported so far stands in front on both sides.
      show Logged.after events (liftM (input.look i) >>= _ : Reading Expr) = _
      rw [look_eq hIn, liftM_ok_bind]
      cases hToken : input.tokens[i]? with
      | none =>
          rw [run_of_end hToken]
          rfl
      | some t =>
          obtain ⟨kind, position⟩ := t
          cases kind with
          | operator op => exact absurd (hStops op (by simp [hToken])) (Nat.not_lt_zero _)
          | opening => rw [run_of_objection hToken rfl]; rfl
          | closing => rw [run_of_objection hToken rfl]; rfl
          | identifier value orLater => rw [run_of_objection hToken rfl]; rfl

end

end Descent

end Licensing
