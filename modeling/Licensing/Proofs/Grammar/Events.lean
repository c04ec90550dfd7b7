import Licensing.Proofs.Grammar.Filtering
import Licensing.Proofs.Grammar.LeafText
import Licensing.Proofs.Grammar.Progress
import Licensing.Proofs.Token.Layout

/-!
What parsing reports. An identifier is reported for the leaf that it becomes, and only when it was
accepted: a step that is refused reports nothing, and the place of its objection lies behind all
identifiers that were read before.
-/

namespace Licensing

open Log (Event)
open ParseError (Objection)
open Token (Spells)

def Catalog.report? (c : Catalog) (position : Nat) : Leaf → Option Event
  | .license (.listed id _ deprecated) =>
    if deprecated then some (.deprecatedIdentifier id position) else none
  | .license (.reference raw) => some (.unknownLicense raw position)
  | .exception x =>
    if x.deprecated then some (.deprecatedIdentifier x.id position)
    else if (c.exception? x.id).isNone then some (.unknownException x.id position)
    else none
  | .foreign _ => none

/-- The token of an identifier. Its `+` belongs to it. -/
def Mention.token (m : Mention) : Token :=
  ⟨.identifier m.value m.orLater, m.position⟩

/-- The identifiers become the leaves, and the events are what there is to report about these, in
their order and each at the place of its identifier. -/
structure Reported (k : Lookup) (ms : List Mention) (ls : List Leaf) (events : List Event) :
    Prop where
  resolved : List.Forall₂ (fun m l => k.resolve m = .ok l) ms ls
  reports : events = (ms.zip ls).filterMap fun p => k.catalog.report? p.1.position p.2

namespace Reported

variable {k : Lookup} {ms others : List Mention} {ls more : List Leaf} {events later : List Event}

theorem nil (k : Lookup) : Reported k [] [] [] :=
  ⟨.nil, rfl⟩

theorem single {m : Mention} {l : Leaf} {event : Option Event} (h : k.resolve m = .ok l)
    (hEvent : event = k.catalog.report? m.position l) : Reported k [m] [l] event.toList := by
  refine ⟨.cons h .nil, ?_⟩
  cases hReport : k.catalog.report? m.position l with
  | none => simp [hEvent, hReport]
  | some report => simp [hEvent, hReport]

/-- What is reported about two lists of identifiers is reported about them together, in order. -/
theorem append (h : Reported k ms ls events) (hLater : Reported k others more later) :
    Reported k (ms ++ others) (ls ++ more) (events ++ later) := by
  refine ⟨List.rel_append h.resolved hLater.resolved, ?_⟩
  rw [List.zip_append h.resolved.length_eq, List.filterMap_append, h.reports, hLater.reports]

theorem exists_of_mem (h : Reported k ms ls events) {event : Event} (hEvent : event ∈ events) :
    ∃ m l, k.resolve m = .ok l ∧ k.catalog.report? m.position l = some event := by
  rw [h.reports] at hEvent
  obtain ⟨⟨m, l⟩, hMem, hReport⟩ := List.mem_filterMap.1 hEvent
  exact ⟨m, l, List.forall₂_zip h.resolved hMem, hReport⟩

end Reported

/-! ### One identifier -/

theorem Catalog.level_of_report? {c : Catalog} {position : Nat} {l : Leaf} {event : Event}
    (h : c.report? position l = some event) : event.level = .debug := by
  unfold report? at h
  grind [Event.level]

theorem Catalog.deprecated_of_report? {c : Catalog} {position place : Nat} {l : Leaf} {id : String}
    (h : c.report? position l = some (.deprecatedIdentifier id place)) : l.deprecated = true := by
  unfold report? at h
  grind [Leaf.deprecated, License.deprecated]

theorem Token.isIdentifier_of_spells {value : String} {orLater : Bool} {word : List Char}
    (h : Spells (.identifier value orLater) word) : IsIdentifier value.toList := by
  cases h with
  | plain identifier free => rwa [String.toList_ofList]
  | marked identifier => rwa [String.toList_ofList]

/-- Only a `+` at its end is taken off an identifier. -/
theorem LicenseEntry.exists_leaf_eq_id (e : LicenseEntry)
    (h : ∀ stem, e.id ≠ stem ++ plusSuffix) :
    ∃ orLater, e.leaf = .listed e.id orLater e.deprecated := by
  unfold leaf
  cases hDeprecated : e.deprecated with
  | false => exact ⟨_, rfl⟩
  | true =>
      cases hDrop : Text.dropSuffix? e.id plusSuffix with
      | none => exact ⟨_, rfl⟩
      | some stem => exact absurd (Text.dropSuffix?_eq_some_iff.1 hDrop) (h stem)

namespace Lookup

variable {k : Lookup} {value : String} {orLater : Bool} {position : Nat} {event : Option Event}

/-- What is accepted is reported if it is deprecated. -/
theorem eq_of_accepting {α : Type} {deprecated : Bool} {found result : α}
    (h : k.accepting value position deprecated found = .ok (result, event)) :
    result = found ∧
      event = if deprecated then some (.deprecatedIdentifier value position) else none := by
  cases deprecated with
  | false =>
      simp [accepting, accept, Except.map] at h
      simp [← h]
  | true =>
      by_cases hCurrent : k.strictness = .allowCurrent
      · simp [accepting, accept, hCurrent, Except.map] at h
      · simp [accepting, accept, hCurrent, Except.map] at h
        simp [← h]

theorem event_of_resolvePlus (hKeyed : k.catalog.Keyed) {l : License}
    (h : k.resolvePlus value position = .ok (l, event)) :
    event = k.catalog.report? position (.license l) := by
  obtain rfl := eq_listed_of_namesLicense hKeyed (exists_resolvePlus_iff.1 ⟨event, h⟩)
  simp only [resolvePlus] at h
  split at h
  · exact (eq_of_accepting h).2
  · exact (eq_of_accepting h).2
  · cases h

/-- The event of a license is what there is to report about its leaf. -/
theorem event_of_resolveLicense (hKeyed : k.catalog.Keyed) {l : License}
    (hIdentifier : Token.IsIdentifier value.toList)
    (h : k.resolveLicense value orLater position = .ok (l, event)) :
    event = k.catalog.report? position (.license l) := by
  unfold resolveLicense at h
  split at h
  · exact event_of_resolvePlus hKeyed h
  · split at h
    · cases h
    · split at h
      · rename_i entry hFound
        obtain ⟨rfl, rfl⟩ := eq_of_accepting h
        have hId := hKeyed.license hFound
        obtain ⟨marked, hLeaf⟩ :=
          entry.exists_leaf_eq_id fun stem => hId ▸ Token.ne_append_plus hIdentifier stem
        rw [hLeaf, hId]
        rfl
      · split at h
        · obtain ⟨rfl, rfl⟩ := Prod.mk.inj (Except.ok.inj h)
          rfl
        · cases h

theorem event_of_resolveException (hKeyed : k.catalog.Keyed) {x : LicenseException}
    (h : k.resolveException value orLater position = .ok (x, event)) :
    event = k.catalog.report? position (.exception x) := by
  unfold resolveException at h
  split at h
  · cases h
  · split at h
    · cases h
    · split at h
      · rename_i entry hFound
        obtain ⟨rfl, rfl⟩ := eq_of_accepting h
        have hId := hKeyed.exception hFound
        simp [Catalog.report?, ExceptionEntry.leaf, hId, hFound]
      · rename_i hMissing
        split at h
        · obtain ⟨rfl, rfl⟩ := Prod.mk.inj (Except.ok.inj h)
          simp [Catalog.report?, hMissing]
        · cases h

end Lookup

/-! ### Steps and runs -/

namespace Reader

def State.attached (s : State) : Bool :=
  match s.awaiting with
  | .exception .. => true
  | _ => false

variable {k : Lookup} {s next last : State} {t : Token} {tokens : List Token}
  {event : Option Event} {events : List Event} {o : Objection}

/-- A step reports its token if that is an identifier. -/
theorem Moves.reported (hKeyed : k.catalog.Keyed) (h : Moves k s t next event)
    {word : List Char} (hSpelled : Spells t.kind word) :
    ∃ ms ls, (∀ rest, mentions s.attached (t :: rest) = ms ++ mentions next.attached rest) ∧
      Reported k ms ls event.toList := by
  cases h with
  | @license groups pending lead value orLater position l event resolved =>
      have hLeaf : k.resolve ⟨value, orLater, position, false⟩ = .ok (.license l) := by
        simp [Lookup.resolve, resolved, Except.map]
      have hEvent := Lookup.event_of_resolveLicense hKeyed
        (Token.isIdentifier_of_spells hSpelled) resolved
      exact ⟨[_], [_], fun rest => rfl, .single hLeaf hEvent⟩
  | @exception groups pending granted place value orLater position x event resolved =>
      have hLeaf : k.resolve ⟨value, orLater, position, true⟩ = .ok (.exception x) := by
        simp [Lookup.resolve, resolved, Except.map]
      have hEvent := Lookup.event_of_resolveException hKeyed resolved
      exact ⟨[_], [_], fun rest => rfl, .single hLeaf hEvent⟩
  | opening => exact ⟨[], [], fun rest => rfl, .nil k⟩
  | attach => exact ⟨[], [], fun rest => rfl, .nil k⟩
  | and => exact ⟨[], [], fun rest => rfl, .nil k⟩
  | or => exact ⟨[], [], fun rest => rfl, .nil k⟩
  | closing => exact ⟨[], [], fun rest => rfl, .nil k⟩

/-- A run reports the identifiers that it passes. -/
theorem Passes.reported (hKeyed : k.catalog.Keyed) (h : Passes k s tokens events last)
    (hSpelled : ∀ t ∈ tokens, ∃ word, Spells t.kind word) :
    ∃ ms ls, (∀ rest, mentions s.attached (tokens ++ rest) = ms ++ mentions last.attached rest) ∧
      Reported k ms ls events := by
  induction h with
  | nil s => exact ⟨[], [], fun rest => rfl, .nil k⟩
  | cons first later ih =>
      rw [List.forall_mem_cons] at hSpelled
      obtain ⟨word, hWord⟩ := hSpelled.1
      obtain ⟨ms, ls, hFirst, hHead⟩ := (moves_of_step first).reported hKeyed hWord
      obtain ⟨others, more, hLater, hTail⟩ := ih hSpelled.2
      refine ⟨ms ++ others, ls ++ more, fun rest => ?_, hHead.append hTail⟩
      rw [List.cons_append, hFirst, hLater, List.append_assoc]

/-- From the beginning of a text on, the identifiers that were passed are reported, and what follows
them does not change which they are. -/
theorem Passes.reported_initial (hKeyed : k.catalog.Keyed)
    (h : Passes k .initial tokens events last)
    (hSpelled : ∀ t ∈ tokens, ∃ word, Spells t.kind word) :
    (∃ ls, Reported k (mentions false tokens) ls events) ∧
      ∀ rest, mentions false (tokens ++ rest) =
        mentions false tokens ++ mentions last.attached rest := by
  obtain ⟨ms, ls, hMentions, hReported⟩ := h.reported hKeyed hSpelled
  have hAll : mentions false tokens = ms := by
    simpa [mentions, State.attached, State.initial] using hMentions []
  subst hAll
  exact ⟨⟨ls, hReported⟩, hMentions⟩

/-! ### The place of an objection -/

/-- An exception is awaited right behind a `WITH` only. -/
theorem Passes.eq_append_attach (h : Passes k s tokens events last) {granted : Expr} {place : Nat}
    (hAwaiting : last.awaiting = .exception granted place) :
    (tokens = [] ∧ s = last) ∨ ∃ before, tokens = before ++ [⟨.operator .attach, place⟩] := by
  induction h with
  | nil s => exact .inl ⟨rfl, rfl⟩
  | @cons s next last t tokens event events first later ih =>
      right
      obtain ⟨rfl, rfl⟩ | ⟨before, rfl⟩ := ih hAwaiting
      · cases moves_of_step first with
        | attach groups pending operand position =>
            obtain ⟨-, rfl⟩ := Awaiting.exception.inj hAwaiting
            exact ⟨[], rfl⟩
        | license resolved => cases hAwaiting
        | opening => cases hAwaiting
        | exception resolved => cases hAwaiting
        | and => cases hAwaiting
        | or => cases hAwaiting
        | closing => cases hAwaiting
      · exact ⟨t :: before, rfl⟩

/-- A step objects to its token, or to the `WITH` in front of it. -/
theorem place_of_step (hWidth : t.position < t.stop) (h : step k s t = .error o) :
    t.position ≤ o.position ∧ o.position < t.stop ∨
      ∃ granted, s.awaiting = .exception granted o.position := by
  -- A token that stands for whatever is remembered, and a length that is no place of its own.
  have hPlace {place : Nat} (hKept : Remembers [t, ⟨.opening, place⟩] s) :
      t.position ≤ o.position ∧ o.position < t.stop ∨ o.position = place := by
    have hGuarded : Guarded [t, ⟨.opening, place⟩] t.position (step k s t) :=
      guarded_step List.mem_cons_self hKept
    rw [h] at hGuarded
    cases hGuarded with
    | atEnd plain => exact .inl ⟨Nat.le_refl _, hWidth⟩
    | @token u cause mem plain =>
        rcases List.mem_cons.1 mem with rfl | hOther
        · exact .inl ⟨Nat.le_refl _, hWidth⟩
        · obtain rfl := List.mem_singleton.1 hOther
          exact .inr rfl
    | @plus value position cause mem =>
        rcases List.mem_cons.1 mem with rfl | hOther
        · simp [Token.stop, Token.Kind.width]
        · cases List.mem_singleton.1 hOther
  by_cases hAwaiting : ∃ granted place, s.awaiting = .exception granted place
  · obtain ⟨granted, place, hAwaiting⟩ := hAwaiting
    have hKept : Remembers [t, ⟨.opening, place⟩] s := by
      intro other position hOther
      obtain ⟨-, rfl⟩ := Awaiting.exception.inj (hAwaiting.symm.trans hOther)
      exact ⟨⟨.opening, place⟩, by simp, rfl⟩
    rcases hPlace hKept with hOwn | rfl
    · exact .inl hOwn
    · exact .inr ⟨granted, hAwaiting⟩
  · have hKept : Remembers [t, ⟨.opening, t.position⟩] s :=
      fun granted place hOther => absurd ⟨granted, place, hOther⟩ hAwaiting
    rcases hPlace hKept with hOwn | hSame
    · exact .inl hOwn
    · exact .inl ⟨Nat.le_of_eq hSame.symm, hSame ▸ hWidth⟩

/-- An objection is placed behind all identifiers that were passed, and not behind the rest. -/
theorem separates_of_step {text : String} {passed rest : List Token}
    (hSpans : Spans text (passed ++ t :: rest)) (h : Passes k .initial passed events last)
    (hStep : step k last t = .error o) :
    (∀ u ∈ passed, ∀ value orLater, u.kind = .identifier value orLater → u.stop ≤ o.position) ∧
      ∀ u ∈ t :: rest, o.position < u.stop := by
  obtain ⟨hPassed, hRest, hBetween⟩ := List.pairwise_append.1 hSpans.ordered
  have hNonempty {u : Token} (hu : u ∈ t :: rest) : u.position < u.stop :=
    hSpans.nonempty u (List.mem_append_right _ hu)
  have hLater {u : Token} (hu : u ∈ rest) : t.stop ≤ u.position :=
    List.rel_of_pairwise_cons hRest hu
  rcases place_of_step (hNonempty List.mem_cons_self) hStep with ⟨hLeft, hRight⟩ | ⟨granted, hWith⟩
  · constructor
    · intro u hu value orLater _
      exact Nat.le_trans (hBetween u hu t List.mem_cons_self) hLeft
    · refine List.forall_mem_cons.2 ⟨hRight, fun u hu => ?_⟩
      have := hLater hu
      have := hNonempty (List.mem_cons_of_mem t hu)
      omega
  · obtain ⟨-, hLast⟩ | ⟨before, rfl⟩ := h.eq_append_attach hWith
    · rw [← hLast] at hWith
      cases hWith
    · constructor
      · intro u hu value orLater hKind
        rcases List.mem_append.1 hu with hBefore | hAttach
        · exact (List.pairwise_append.1 hPassed).2.2 u hBefore _ List.mem_cons_self
        · obtain rfl := List.mem_singleton.1 hAttach
          cases hKind
      · intro u hu
        have hAttach : (⟨.operator .attach, o.position⟩ : Token) ∈
            before ++ [⟨.operator .attach, o.position⟩] := by simp
        have hBehind := hBetween _ hAttach u hu
        have := hSpans.nonempty _ (List.mem_append_left _ hAttach)
        have := hNonempty hu
        simp only at *
        omega

end Reader

/-! ### Parsing -/

theorem mem_of_mem_mentions {attached : Bool} {tokens : List Token} {m : Mention}
    (h : m ∈ mentions attached tokens) : m.token ∈ tokens := by
  induction tokens generalizing attached with
  | nil => cases h
  | cons t rest ih =>
      obtain ⟨kind, position⟩ := t
      cases kind with
      | identifier value orLater =>
          rcases List.mem_cons.1 h with rfl | hRest
          · exact List.mem_cons_self
          · exact List.mem_cons_of_mem _ (ih hRest)
      | operator op => exact List.mem_cons_of_mem _ (ih (mentions_operator attached op _ _ ▸ h))
      | opening => exact List.mem_cons_of_mem _ (ih h)
      | closing => exact List.mem_cons_of_mem _ (ih h)

/-- Where reading stopped, the identifiers in front are the ones that were passed. -/
theorem filter_mentions_append {passed rest : List Token} {attached last : Bool} {place : Nat}
    (hPassed : ∀ u ∈ passed, ∀ value orLater, u.kind = .identifier value orLater → u.stop ≤ place)
    (hRest : ∀ u ∈ rest, place < u.stop) :
    (mentions attached passed ++ mentions last rest).filter (fun m => m.token.stop ≤ place) =
      mentions attached passed := by
  have hKept : ∀ m ∈ mentions attached passed, decide (m.token.stop ≤ place) = true := by
    intro m hm
    exact decide_eq_true (hPassed _ (mem_of_mem_mentions hm) _ _ rfl)
  have hDropped : ∀ m ∈ mentions last rest, ¬ decide (m.token.stop ≤ place) = true := by
    intro m hm
    simpa using hRest _ (mem_of_mem_mentions hm)
  rw [List.filter_append, List.filter_eq_self.2 hKept, List.filter_eq_nil_iff.2 hDropped,
    List.append_nil]

theorem Lookup.admits_of_resolve {k : Lookup} (hKeyed : k.catalog.Keyed) {m : Mention} {l : Leaf}
    (h : k.resolve m = .ok l) : k.Admits l := by
  obtain ⟨value, orLater, position, attached⟩ := m
  cases attached with
  | false =>
      obtain ⟨license, rfl, hNames⟩ := namesLicense_of_resolve h
      exact (namesLicense_iff_lenient.1 hNames).2
  | true =>
      obtain ⟨x, rfl, -, hNames⟩ := namesException_of_resolve h
      exact ((namesException_iff_lenient hKeyed).1 hNames).2

section

variable {k : Lookup} {text : String} {tokens : List Token}

/-- A run reports the identifiers in front of its objection, and all if it has none. -/
theorem reported_run (hKeyed : k.catalog.Keyed) (hSpans : Spans text tokens) :
    match (Reader.run k text.length .initial tokens).value with
    | .ok _ => ∃ ls, Reported k (mentions false tokens) ls
        (Reader.run k text.length .initial tokens).events
    | .error o => ∃ ls,
        Reported k ((mentions false tokens).filter fun m => m.token.stop ≤ o.position) ls
          (Reader.run k text.length .initial tokens).events := by
  obtain ⟨last, hPasses, hValue⟩ | ⟨passed, t, rest, last, o, rfl, hPasses, hStep, hValue⟩ :=
    Reader.run_cases k text.length .initial tokens
  · obtain ⟨hReported, -⟩ :=
      hPasses.reported_initial hKeyed fun t ht => ⟨_, hSpans.spelled t ht⟩
    rw [hValue]
    cases hFinish : Reader.finish text.length last with
    | ok e => exact hReported
    | error o =>
        have hAll : (mentions false tokens).filter (fun m => m.token.stop ≤ o.position) =
            mentions false tokens := by
          refine List.filter_eq_self.2 fun m hm => decide_eq_true ?_
          rw [(Reader.aboutEnd_of_finish hFinish).1]
          exact hSpans.within _ (mem_of_mem_mentions hm)
        dsimp only
        rwa [hAll]
  · obtain ⟨hReported, hMentions⟩ := hPasses.reported_initial hKeyed fun u hu =>
      ⟨_, hSpans.spelled u (List.mem_append_left _ hu)⟩
    obtain ⟨hPassed, hRest⟩ := Reader.separates_of_step hSpans hPasses hStep
    rw [hValue]
    dsimp only
    rwa [hMentions, filter_mentions_append hPassed hRest]

/-- Parsing reports what the reader does, and nothing for a text that has no tokens or does not
split. -/
theorem events_parse (k : Lookup) (text : String) :
    (parse k text).events =
      if Text.allBlank text then []
      else
        match tokenize text with
        | .error _ => []
        | .ok tokens => (Reader.run k text.length .initial tokens).events := by
  unfold parse
  split
  · rfl
  · cases tokenize text <;> rfl

/-- A text is reported up to its error: the identifiers that end in front of it, or all of them if
it has none. -/
theorem reported_parse (hKeyed : k.catalog.Keyed) (hTokens : tokenize text = .ok tokens) :
    match (parse k text).value with
    | .ok _ => ∃ ls, Reported k (mentions false tokens) ls (parse k text).events
    | .error error => ∃ ls,
        Reported k ((mentions false tokens).filter fun m => m.token.stop ≤ error.position) ls
          (parse k text).events := by
  have hSplits := tokenize_eq_ok_iff.1 hTokens
  rw [value_parse, events_parse, hTokens]
  cases hBlank : Text.allBlank text with
  | true =>
      obtain rfl := Token.splits_of_allBlank (List.all_eq_true.1 hBlank) hSplits
      exact ⟨[], .nil k⟩
  | false =>
      have hReported := reported_run hKeyed (Token.spans_of_splits hSplits)
      simp only [Bool.false_eq_true, if_false]
      cases hRun : (Reader.run k text.length .initial tokens).value with
      | ok e =>
          rw [hRun] at hReported
          exact hReported
      | error o =>
          rw [hRun] at hReported
          exact hReported

/-- Whatever is reported is reported about some identifier. -/
theorem exists_reported (hKeyed : k.catalog.Keyed) (text : String) :
    ∃ ms ls, Reported k ms ls (parse k text).events := by
  cases hTokens : tokenize text with
  | error o =>
      refine ⟨[], [], ?_⟩
      have hNone : (parse k text).events = [] := by simp [events_parse, hTokens]
      rw [hNone]
      exact .nil k
  | ok tokens =>
      have hReported := reported_parse hKeyed hTokens
      cases hParse : (parse k text).value with
      | ok e =>
          simp only [hParse] at hReported
          exact ⟨_, hReported⟩
      | error error =>
          simp only [hParse] at hReported
          exact ⟨_, hReported⟩

/-- The events of a parse mirror the identifiers that were read. If there is a tree they are what
there is to report about its leaves; if reading failed, about what the identifiers in front of the
place of the error became. A text that does not split into tokens has no events, and where
deprecated identifiers are refused none is reported. -/
theorem parse_reports (hKeyed : k.catalog.Keyed) (text : String) :
    (∀ o, tokenize text = .error o → (parse k text).events = []) ∧
      (∀ tokens, tokenize text = .ok tokens →
        (∀ m ∈ mentions false tokens, text.toList.extract m.position m.token.stop =
          m.value.toList ++ if m.orLater then ['+'] else []) ∧
        (∀ e, (parse k text).value = .ok e →
          Reported k (mentions false tokens) e.leaves (parse k text).events) ∧
        ∀ error, (parse k text).value = .error error → ∃ ls,
          Reported k ((mentions false tokens).filter fun m => m.token.stop ≤ error.position) ls
            (parse k text).events) ∧
      (∀ event ∈ (parse k text).events, event.level = .debug) ∧
      (k.strictness = .allowCurrent →
        ∀ id position, .deprecatedIdentifier id position ∉ (parse k text).events) := by
  refine ⟨fun o hTokens => by simp [events_parse, hTokens], ?_, ?_, ?_⟩
  · intro tokens hTokens
    have hSplits := tokenize_eq_ok_iff.1 hTokens
    have hReported := reported_parse hKeyed hTokens
    refine ⟨fun m hm => ?_, fun e hParse => ?_, fun error hParse => ?_⟩
    · exact Token.eq_of_spells_identifier
        ((Token.spans_of_splits hSplits).spelled _ (mem_of_mem_mentions hm))
    · simp only [hParse] at hReported
      obtain ⟨ls, hLeaves⟩ := hReported
      obtain ⟨others, hOthers, hDerives⟩ := parse_eq_ok_iff.1 hParse
      obtain rfl := hSplits.unique hOthers
      have hUnique : Relator.RightUnique fun (m : Mention) (l : Leaf) => k.resolve m = .ok l :=
        fun m l l' hl hl' => Except.ok.inj (hl.symm.trans hl')
      obtain rfl := List.right_unique_forall₂' hUnique hLeaves.resolved
        (mentions_of_derives hDerives)
      exact hLeaves
    · simpa only [hParse] using hReported
  · intro event hEvent
    obtain ⟨ms, ls, hReported⟩ := exists_reported hKeyed text
    obtain ⟨m, l, -, hReport⟩ := hReported.exists_of_mem hEvent
    exact Catalog.level_of_report? hReport
  · intro hCurrent id position hEvent
    obtain ⟨ms, ls, hReported⟩ := exists_reported hKeyed text
    obtain ⟨m, l, hResolved, hReport⟩ := hReported.exists_of_mem hEvent
    have hNew := (Lookup.admits_of_resolve hKeyed hResolved).current hCurrent
    rw [Catalog.deprecated_of_report? hReport] at hNew
    cases hNew

end

/-- The last identifier is deprecated, but it stands where the error is and is not reported. -/
theorem parse_reports_interrupted :
    let c := Catalog.ofEntries [⟨"GPL-2.0", "GNU General Public License v2.0", true, false⟩] []
    let text := "GPL-2.0+ WITH My-exception AND MIT GPL-2.0"
    ∃ error ls, (parse ⟨c, .allowAny⟩ text).value = .error error ∧ error.position = 35 ∧
      Reported ⟨c, .allowAny⟩ [⟨"GPL-2.0", true, 0, false⟩, ⟨"My-exception", false, 14, true⟩,
        ⟨"MIT", false, 31, false⟩] ls
        [.deprecatedIdentifier "GPL-2.0" 0, .unknownException "My-exception" 14,
          .unknownLicense "MIT" 31] := by
  intro c text
  have hKeyed : c.Keyed := Catalog.keyed_ofEntries _ _
  have hTokens : tokenize text = .ok [⟨.identifier "GPL-2.0" true, 0⟩, ⟨.operator .attach, 9⟩,
      ⟨.identifier "My-exception" false, 14⟩, ⟨.operator .and, 27⟩, ⟨.identifier "MIT" false, 31⟩,
      ⟨.identifier "GPL-2.0" false, 35⟩] := by
    decide +kernel
  have hParse : (parse ⟨c, .allowAny⟩ text).value =
      .error ⟨text, 35, .operatorExpected (some (.identifier "GPL-2.0" false))⟩ := by
    decide +kernel
  obtain ⟨-, hReports, -, -⟩ := parse_reports (k := ⟨c, .allowAny⟩) hKeyed text
  obtain ⟨ls, hReported⟩ := (hReports _ hTokens).2.2 _ hParse
  have hEvents : (parse ⟨c, .allowAny⟩ text).events = [.deprecatedIdentifier "GPL-2.0" 0,
      .unknownException "My-exception" 14, .unknownLicense "MIT" 31] := by
    decide +kernel
  rw [hEvents] at hReported
  exact ⟨_, ls, hParse, rfl, hReported⟩

end Licensing
