import Licensing.Grammar.Resolution
import Licensing.Parse
import Licensing.Token.Spelling

/-!
Reading agrees with the grammar: the reader accepts exactly the tokens that the grammar derives, and
gives the tree of the derivation. `Reads` describes the states of the reader by what the tokens
before them derive, so that one step can be followed at a time.
-/

namespace Licensing.Reader

open Grammar (Derives Level)

/-- In a derived tree every exception is attached. -/
theorem hasException_of_derives {k : Lookup} {level : Level} {tokens : List Token} {e : Expr}
    (h : Derives k level tokens e) : hasException e = e.hasAttachment := by
  have hJoin (left right : Expr) (op : Operator) :
      hasException (.join left op right) = (hasException left || hasException right) := by
    simp [hasException, Expr.leaves]
  induction h with
  | license names => simp [hasException, Expr.leaves, Expr.hasAttachment]
  | attach left free names ih => simp [hasException, Expr.leaves, Expr.hasAttachment]
  | and left right ihLeft ihRight => rw [hJoin, ihLeft, ihRight]; rfl
  | or left right ihLeft ihRight => rw [hJoin, ihLeft, ihRight]; rfl
  | group inner ih => exact ih
  | primary inner ih => exact ih
  | granted inner ih => exact ih
  | conjunction inner ih => exact ih

/-! ### Derived tokens are read -/

/-- What the reader makes of tokens in front of any others, by the level of what they derive. -/
def Finishes (k : Lookup) (length : Nat) : Level → List Token → Expr → Prop
  | .primary, tokens, e => ∀ groups pending lead rest,
      (run k length ⟨groups, pending, .operand lead⟩ (tokens ++ rest)).value =
        (run k length ⟨groups, pending, .continuation e false⟩ rest).value
  | .granted, tokens, e => ∃ granted, ∀ groups pending lead rest,
      (run k length ⟨groups, pending, .operand lead⟩ (tokens ++ rest)).value =
        (run k length ⟨groups, pending, .continuation e granted⟩ rest).value
  | .conjunction, tokens, e => ∃ factors operand granted,
      (Pending.mk none factors).conjunction operand = e ∧
        ∀ groups alternatives lead rest,
          (run k length ⟨groups, ⟨alternatives, none⟩, .operand lead⟩ (tokens ++ rest)).value =
            (run k length ⟨groups, ⟨alternatives, factors⟩, .continuation operand granted⟩
              rest).value
  | .disjunction, tokens, e => ∃ pending operand granted, Pending.whole pending operand = e ∧
      ∀ groups lead rest,
        (run k length ⟨groups, .none, .operand lead⟩ (tokens ++ rest)).value =
          (run k length ⟨groups, pending, .continuation operand granted⟩ rest).value

theorem value_run_of_step {k : Lookup} {length : Nat} {s next : State} {t : Token}
    {event : Option Log.Event} {rest : List Token} (h : step k s t = .ok (next, event)) :
    (run k length s (t :: rest)).value = (run k length next rest).value := by
  simp [run, h]

/-- Tokens that derive a tree bring the reader behind the tree, whatever waits for it. The induction
is on the derivation. -/
theorem finishes_of_derives {k : Lookup} (length : Nat) {level : Level} {tokens : List Token}
    {e : Expr} (h : Derives k level tokens e) : Finishes k length level tokens e := by
  induction h with
  | @license value orLater position l names =>
      intro groups pending lead rest
      have hResolved : ∃ event, k.resolveLicense value orLater position = .ok (l, event) :=
        Lookup.exists_resolveLicense_iff.2 names
      obtain ⟨event, hResolved⟩ := hResolved
      have hStep : step k ⟨groups, pending, .operand lead⟩ ⟨.identifier value orLater, position⟩ =
          .ok (⟨groups, pending, .continuation (.license l) false⟩, event) := by
        simp only [step, stepOperand, hResolved]
        rfl
      exact value_run_of_step hStep
  | @group opened closed tokens e inner ih =>
      obtain ⟨inside, operand, granted, rfl, hInner⟩ := ih
      intro groups pending lead rest
      simp only [List.cons_append, List.append_assoc, List.nil_append]
      rw [value_run_of_step rfl, hInner]
      exact value_run_of_step rfl
  | primary inner ih => exact ⟨false, ih⟩
  | @attach at₁ at₂ value tokens e x left free names ih =>
      refine ⟨true, fun groups pending lead rest => ?_⟩
      have hResolved : ∃ event, k.resolveException value false at₂ = .ok (x, event) :=
        Lookup.exists_resolveException_iff.2 ⟨rfl, names⟩
      obtain ⟨event, hResolved⟩ := hResolved
      have hFree : hasException e = false := by rw [hasException_of_derives left, free]
      have hStep : step k ⟨groups, pending, .exception e at₁⟩ ⟨.identifier value false, at₂⟩ =
          .ok (⟨groups, pending, .continuation (.join e .attach (.exception x)) true⟩, event) := by
        simp only [step, stepException, hFree, hResolved]
        rfl
      rw [List.append_assoc, ih]
      simp only [List.cons_append, List.nil_append]
      rw [value_run_of_step rfl]
      exact value_run_of_step hStep
  | @granted tokens e inner ih =>
      obtain ⟨granted, hInner⟩ := ih
      exact ⟨none, e, granted, rfl, fun groups alternatives lead rest => hInner ..⟩
  | @and position tokens others e f left right ihLeft ihRight =>
      obtain ⟨factors, operand, granted, hLeft, hRunLeft⟩ := ihLeft
      obtain ⟨granted', hRight⟩ := ihRight
      refine ⟨some e, f, granted', rfl, fun groups alternatives lead rest => ?_⟩
      rw [List.append_assoc, hRunLeft, List.cons_append, value_run_of_step rfl, hRight]
      rw [← hLeft]
      rfl
  | @conjunction tokens e inner ih =>
      obtain ⟨factors, operand, granted, hInner, hRun⟩ := ih
      exact ⟨⟨none, factors⟩, operand, granted, hInner, fun groups lead rest => hRun ..⟩
  | @or position tokens others e f left right ihLeft ihRight =>
      obtain ⟨pending, operand, granted, hLeft, hRunLeft⟩ := ihLeft
      obtain ⟨factors, operand', granted', hRight, hRunRight⟩ := ihRight
      refine ⟨⟨some e, factors⟩, operand', granted', ?_, fun groups lead rest => ?_⟩
      · rw [← hRight]
        rfl
      · rw [List.append_assoc, hRunLeft, List.cons_append, value_run_of_step rfl, hRunRight, hLeft]

/-! ### What is read is derived -/

/-- What tokens before the last `OR` of a group derive. -/
def ReadsAlternatives (k : Lookup) : Option Expr → List Token → Prop
  | none, tokens => tokens = []
  | some e, tokens => ∃ before position, Derives k .disjunction before e ∧
      tokens = before ++ [⟨.operator .or, position⟩]

/-- What tokens between the last `OR` of a group and the last `AND` after it derive. -/
def ReadsFactors (k : Lookup) : Option Expr → List Token → Prop
  | none, tokens => tokens = []
  | some e, tokens => ∃ before position, Derives k .conjunction before e ∧
      tokens = before ++ [⟨.operator .and, position⟩]

/-- What tokens before an operand of a group derive. -/
def ReadsPending (k : Lookup) (p : Pending) (tokens : List Token) : Prop :=
  ∃ before after, ReadsAlternatives k p.alternatives before ∧ ReadsFactors k p.factors after ∧
    tokens = before ++ after

/-- What tokens before the innermost group derive. -/
def ReadsGroups (k : Lookup) : List Group → List Token → Prop
  | [], tokens => tokens = []
  | group :: outer, tokens => ∃ before after, ReadsGroups k outer before ∧
      ReadsPending k group.pending after ∧
      tokens = before ++ after ++ [⟨.opening, group.opened⟩]

/-- What tokens of an operand derive. -/
def ReadsAwaiting (k : Lookup) : Awaiting → List Token → Prop
  | .operand _, tokens => tokens = []
  | .exception granted position, tokens => ∃ before, Derives k .primary before granted ∧
      tokens = before ++ [⟨.operator .attach, position⟩]
  | .continuation operand false, tokens => Derives k .primary tokens operand
  | .continuation operand true, tokens => Derives k .granted tokens operand

/-- What tokens before a state of the reader derive. -/
def Reads (k : Lookup) (s : State) (tokens : List Token) : Prop :=
  ∃ before pending awaited, ReadsGroups k s.groups before ∧ ReadsPending k s.pending pending ∧
    ReadsAwaiting k s.awaiting awaited ∧ tokens = before ++ pending ++ awaited

theorem reads_initial (k : Lookup) : Reads k .initial [] :=
  ⟨[], [], [], rfl, ⟨[], [], rfl, rfl, rfl⟩, rfl, rfl⟩

theorem derives_of_readsAwaiting {k : Lookup} {operand : Expr} {granted : Bool}
    {tokens : List Token} (h : ReadsAwaiting k (.continuation operand granted) tokens) :
    Derives k .granted tokens operand := by
  cases granted with
  | false => exact .primary h
  | true => exact h

theorem derives_conjunction {k : Lookup} {p : Pending} {operand : Expr} {before tokens : List Token}
    (hFactors : ReadsFactors k p.factors before) (hOperand : Derives k .granted tokens operand) :
    Derives k .conjunction (before ++ tokens) (p.conjunction operand) := by
  obtain ⟨alternatives, factors⟩ := p
  cases factors with
  | none =>
      obtain rfl := hFactors
      exact .granted hOperand
  | some e =>
      obtain ⟨left, position, hLeft, rfl⟩ := hFactors
      rw [List.append_assoc]
      exact .and hLeft hOperand

theorem derives_whole {k : Lookup} {p : Pending} {operand : Expr} {before tokens : List Token}
    (hPending : ReadsPending k p before) (hOperand : Derives k .granted tokens operand) :
    Derives k .disjunction (before ++ tokens) (p.whole operand) := by
  obtain ⟨left, right, hAlternatives, hFactors, rfl⟩ := hPending
  have hRight := derives_conjunction hFactors hOperand
  rw [List.append_assoc]
  obtain ⟨alternatives, factors⟩ := p
  cases alternatives with
  | none =>
      obtain rfl := hAlternatives
      exact .conjunction hRight
  | some e =>
      obtain ⟨left, position, hLeft, rfl⟩ := hAlternatives
      rw [List.append_assoc]
      exact .or hLeft hRight

theorem reads_stepOperand {k : Lookup} {s next : State} {lead : Lead} {t : Token}
    {event : Option Log.Event} {tokens : List Token} (hReads : Reads k s tokens)
    (hAwaiting : s.awaiting = .operand lead) (hStep : stepOperand k s lead t = .ok (next, event)) :
    Reads k next (tokens ++ [t]) := by
  obtain ⟨before, pending, awaited, hGroups, hPending, hAwaited, rfl⟩ := hReads
  rw [hAwaiting] at hAwaited
  obtain rfl := hAwaited
  obtain ⟨kind, position⟩ := t
  unfold stepOperand at hStep
  split at hStep
  · rename_i value orLater hKind
    obtain rfl := hKind
    cases hResolved : k.resolveLicense value orLater position with
    | error objection => simp [hResolved, bind, Except.bind] at hStep
    | ok found =>
        obtain ⟨license, found⟩ := found
        simp only [hResolved, bind, Except.bind, pure, Except.pure, Except.ok.injEq,
          Prod.mk.injEq] at hStep
        obtain ⟨rfl, rfl⟩ := hStep
        refine ⟨before, pending, [⟨.identifier value orLater, position⟩], hGroups, hPending,
          .license (Lookup.exists_resolveLicense_iff.1 ⟨_, hResolved⟩), by simp⟩
  · rename_i hKind
    obtain rfl := hKind
    obtain ⟨rfl, rfl⟩ := Prod.mk.inj (Except.ok.inj hStep)
    exact ⟨before ++ pending ++ [⟨.opening, position⟩], [], [],
      ⟨before, pending, hGroups, hPending, rfl⟩, ⟨[], [], rfl, rfl, rfl⟩, rfl, by simp⟩
  · simp at hStep

theorem reads_stepException {k : Lookup} {s next : State} {granted : Expr} {place : Nat} {t : Token}
    {event : Option Log.Event} {tokens : List Token} (hReads : Reads k s tokens)
    (hAwaiting : s.awaiting = .exception granted place)
    (hStep : stepException k s granted place t = .ok (next, event)) :
    Reads k next (tokens ++ [t]) := by
  obtain ⟨before, pending, awaited, hGroups, hPending, hAwaited, rfl⟩ := hReads
  rw [hAwaiting] at hAwaited
  obtain ⟨operand, hOperand, rfl⟩ := hAwaited
  obtain ⟨kind, position⟩ := t
  unfold stepException at hStep
  split at hStep
  · simp at hStep
  · split at hStep
    · simp at hStep
    · rename_i hFree
      rw [Bool.not_eq_true, hasException_of_derives hOperand] at hFree
      split at hStep
      · rename_i value orLater hKind
        obtain rfl := hKind
        cases hResolved : k.resolveException value orLater position with
        | error objection => simp [hResolved, bind, Except.bind] at hStep
        | ok found =>
            obtain ⟨x, found⟩ := found
            simp only [hResolved, bind, Except.bind, pure, Except.pure, Except.ok.injEq,
              Prod.mk.injEq] at hStep
            obtain ⟨rfl, rfl⟩ := hStep
            obtain ⟨rfl, hNames⟩ := Lookup.exists_resolveException_iff.1 ⟨_, hResolved⟩
            have hGranted : Derives k .granted
                (operand ++ [⟨.operator .attach, place⟩, ⟨.identifier value false, position⟩])
                (.join granted .attach (.exception x)) := .attach hOperand hFree hNames
            exact ⟨before, pending, _, hGroups, hPending, hGranted, by simp⟩
      · simp at hStep

theorem reads_stepContinuation {k : Lookup} {s next : State} {operand : Expr} {granted : Bool}
    {t : Token} {tokens : List Token} (hReads : Reads k s tokens)
    (hAwaiting : s.awaiting = .continuation operand granted)
    (hStep : stepContinuation s operand granted t = .ok next) :
    Reads k next (tokens ++ [t]) := by
  obtain ⟨before, pending, awaited, hGroups, hPending, hAwaited, rfl⟩ := hReads
  rw [hAwaiting] at hAwaited
  have hOperand := derives_of_readsAwaiting hAwaited
  obtain ⟨kind, position⟩ := t
  unfold stepContinuation at hStep
  split at hStep
  · rename_i hKind
    obtain rfl := hKind
    cases granted with
    | true => simp at hStep
    | false =>
        obtain rfl := Except.ok.inj hStep
        exact ⟨before, pending, _, hGroups, hPending, ⟨awaited, hAwaited, rfl⟩, by simp⟩
  · rename_i hKind
    obtain rfl := hKind
    obtain rfl := Except.ok.inj hStep
    obtain ⟨left, right, hAlternatives, hFactors, rfl⟩ := hPending
    exact ⟨before, _, [], hGroups,
      ⟨left, right ++ awaited ++ [⟨.operator .and, position⟩], hAlternatives,
        ⟨_, position, derives_conjunction hFactors hOperand, rfl⟩, rfl⟩, rfl, by simp⟩
  · rename_i hKind
    obtain rfl := hKind
    obtain rfl := Except.ok.inj hStep
    exact ⟨before, _, [], hGroups,
      ⟨pending ++ awaited ++ [⟨.operator .or, position⟩], [],
        ⟨_, position, derives_whole hPending hOperand, rfl⟩, rfl, rfl⟩, rfl, by simp⟩
  · rename_i hKind
    obtain rfl := hKind
    split at hStep
    · rename_i group outer hOuter
      obtain rfl := Except.ok.inj hStep
      rw [hOuter] at hGroups
      obtain ⟨around, waiting, hAround, hWaiting, rfl⟩ := hGroups
      have hGroup : Derives k .primary
          (⟨.opening, group.opened⟩ :: (pending ++ awaited) ++ [⟨.closing, position⟩])
          (s.pending.whole operand) := .group (derives_whole hPending hOperand)
      exact ⟨around, waiting, _, hAround, hWaiting, hGroup, by simp⟩
    · simp at hStep
  · simp at hStep

/-- A step keeps what the tokens before a state derive. -/
theorem reads_step {k : Lookup} {s next : State} {t : Token} {event : Option Log.Event}
    {tokens : List Token} (hReads : Reads k s tokens) (hStep : step k s t = .ok (next, event)) :
    Reads k next (tokens ++ [t]) := by
  unfold step at hStep
  split at hStep
  · rename_i lead hAwaiting
    exact reads_stepOperand hReads hAwaiting hStep
  · rename_i granted position hAwaiting
    exact reads_stepException hReads hAwaiting hStep
  · rename_i operand granted hAwaiting
    cases hNext : stepContinuation s operand granted t with
    | error objection => simp [hNext, bind, Except.bind] at hStep
    | ok found =>
        simp only [hNext, bind, Except.bind, pure, Except.pure, Except.ok.injEq,
          Prod.mk.injEq] at hStep
        obtain ⟨rfl, rfl⟩ := hStep
        exact reads_stepContinuation hReads hAwaiting hNext

/-- At the end of the tokens the whole of what was read is derived. -/
theorem derives_of_finish {k : Lookup} {length : Nat} {s : State} {tokens : List Token} {e : Expr}
    (hReads : Reads k s tokens) (h : finish length s = .ok e) :
    Derives k .disjunction tokens e := by
  obtain ⟨before, pending, awaited, hGroups, hPending, hAwaited, rfl⟩ := hReads
  unfold finish at h
  split at h
  · simp at h
  · simp at h
  · rename_i operand granted hAwaiting
    split at h
    · rename_i hNone
      obtain rfl := Except.ok.inj h
      rw [hNone] at hGroups
      obtain rfl := hGroups
      rw [hAwaiting] at hAwaited
      exact derives_whole hPending (derives_of_readsAwaiting hAwaited)
    · simp at h

/-- What the tokens before a state derive is kept from step to step until the end. -/
theorem derives_of_run {k : Lookup} {length : Nat} {s : State} {before tokens : List Token}
    {e : Expr} (hReads : Reads k s before) (h : (run k length s tokens).value = .ok e) :
    Derives k .disjunction (before ++ tokens) e := by
  induction tokens generalizing s before with
  | nil =>
      rw [List.append_nil]
      exact derives_of_finish hReads h
  | cons t rest ih =>
      cases hStep : step k s t with
      | error objection => simp [run, hStep] at h
      | ok found =>
          obtain ⟨next, event⟩ := found
          rw [value_run_of_step hStep] at h
          have := ih (reads_step hReads hStep) h
          simpa using this

/-- The reader accepts exactly what the grammar derives, with the tree of the derivation. -/
theorem run_initial_eq_ok_iff {k : Lookup} {length : Nat} {tokens : List Token} {e : Expr} :
    (run k length .initial tokens).value = .ok e ↔ Derives k .disjunction tokens e := by
  constructor
  · intro h
    simpa using derives_of_run (reads_initial k) h
  · intro h
    obtain ⟨pending, operand, granted, rfl, hRun⟩ := finishes_of_derives length h
    have := hRun [] .start []
    rw [List.append_nil] at this
    exact this

theorem ne_nil_of_derives {k : Lookup} {level : Level} {tokens : List Token} {e : Expr}
    (h : Derives k level tokens e) : tokens ≠ [] := by
  induction h <;> simp_all

end Licensing.Reader

namespace Licensing

open Grammar (Derives)

theorem Token.splits_of_allBlank {position : Nat} {cs : List Char} {tokens : List Token}
    (hBlank : ∀ c ∈ cs, Text.isBlank c = true) (h : Token.Splits position cs tokens) :
    tokens = [] := by
  induction h with
  | done => rfl
  | blank isBlank after ih => exact ih fun c hc => hBlank c (List.mem_cons_of_mem _ hc)
  | token spelled complete after ih =>
      obtain ⟨c, tail, rfl, hFirst⟩ := Token.exists_cons_of_spells spelled
      have := hBlank c (by simp)
      simp [hFirst] at this

/-- Reading a text as tokens finds the tokens into which it splits. -/
theorem tokenize_eq_ok_iff {text : String} {tokens : List Token} :
    tokenize text = .ok tokens ↔ Token.Splits 0 text.toList tokens := by
  rw [← Token.scan_eq_ok_iff]
  unfold tokenize
  cases Token.scan 0 text.toList <;> simp

/-- A text is parsed exactly when it splits into tokens that derive a tree, and to that tree. -/
theorem parse_eq_ok_iff {k : Lookup} {text : String} {e : Expr} :
    (parse k text).value = .ok e ↔
      ∃ tokens, Token.Splits 0 text.toList tokens ∧ Derives k .disjunction tokens e := by
  unfold parse
  split
  · rename_i hBlank
    constructor
    · intro h
      simp at h
    · rintro ⟨tokens, hSplits, hDerives⟩
      exact absurd (Token.splits_of_allBlank (by simpa [Text.allBlank] using hBlank) hSplits)
        (Reader.ne_nil_of_derives hDerives)
  · cases hTokens : tokenize text with
    | error objection =>
        constructor
        · intro h
          simp at h
        · rintro ⟨tokens, hSplits, hDerives⟩
          simp [tokenize_eq_ok_iff.2 hSplits] at hTokens
    | ok tokens =>
        simp only [mapError_eq_ok_iff, Reader.run_initial_eq_ok_iff]
        constructor
        · exact fun h => ⟨tokens, tokenize_eq_ok_iff.1 hTokens, h⟩
        · rintro ⟨others, hSplits, hDerives⟩
          rw [← tokenize_eq_ok_iff, hTokens] at hSplits
          obtain rfl := Except.ok.inj hSplits
          exact hDerives

end Licensing
