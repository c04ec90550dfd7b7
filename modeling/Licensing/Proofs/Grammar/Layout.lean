import Licensing.Proofs.Grammar.Progress
import Licensing.Proofs.Token.Layout

/-!
What of a text counts for its tree. The grammar asks for the kinds of the tokens in their order and
not for their places, so a text that is laid out anew is accepted if it was accepted before, and has
the same tree.
-/

namespace Licensing

open Grammar (Derives Level)
open ParseError (Objection)
open Token (Spells)

/-- Tokens of the same kinds derive the same tree. -/
theorem Grammar.Derives.of_kinds {k : Lookup} {level : Level} {tokens others : List Token}
    {e : Expr} (h : Derives k level tokens e)
    (hKinds : others.map Token.kind = tokens.map Token.kind) : Derives k level others e := by
  induction h generalizing others with
  | @license value orLater position l names =>
      obtain ⟨⟨kind, place⟩, rfl, rfl⟩ := List.map_eq_singleton_iff.1 hKinds
      exact .license names
  | @group opened closed tokens e inner ih =>
      rw [List.map_append, List.map_cons] at hKinds
      obtain ⟨front, back, rfl, hFront, hBack⟩ := List.map_eq_append_iff.1 hKinds
      obtain ⟨⟨kind, place⟩, middle, rfl, rfl, hMiddle⟩ := List.map_eq_cons_iff.1 hFront
      obtain ⟨⟨kind, place⟩, rfl, rfl⟩ := List.map_eq_singleton_iff.1 hBack
      exact .group (ih hMiddle)
  | primary inner ih => exact .primary (ih hKinds)
  | @attach at₁ at₂ value tokens e x left free names ih =>
      rw [List.map_append] at hKinds
      obtain ⟨front, back, rfl, hFront, hBack⟩ := List.map_eq_append_iff.1 hKinds
      obtain ⟨⟨kind, place⟩, name, rfl, rfl, hName⟩ := List.map_eq_cons_iff.1 hBack
      obtain ⟨⟨kind, place⟩, rfl, rfl⟩ := List.map_eq_singleton_iff.1 hName
      exact .attach (ih hFront) free names
  | granted inner ih => exact .granted (ih hKinds)
  | @and position tokens others e f left right ihLeft ihRight =>
      rw [List.map_append] at hKinds
      obtain ⟨front, back, rfl, hFront, hBack⟩ := List.map_eq_append_iff.1 hKinds
      obtain ⟨⟨kind, place⟩, behind, rfl, rfl, hBehind⟩ := List.map_eq_cons_iff.1 hBack
      exact .and (ihLeft hFront) (ihRight hBehind)
  | conjunction inner ih => exact .conjunction (ih hKinds)
  | @or position tokens others e f left right ihLeft ihRight =>
      rw [List.map_append] at hKinds
      obtain ⟨front, back, rfl, hFront, hBack⟩ := List.map_eq_append_iff.1 hKinds
      obtain ⟨⟨kind, place⟩, behind, rfl, rfl, hBehind⟩ := List.map_eq_cons_iff.1 hBack
      exact .or (ihLeft hFront) (ihRight hBehind)

/-- Texts that split into tokens of the same kinds are parsed to the same tree. -/
theorem parse_iff_of_kinds {text other : String} {tokens others : List Token}
    (h : Token.Splits 0 text.toList tokens) (hOther : Token.Splits 0 other.toList others)
    (hKinds : others.map Token.kind = tokens.map Token.kind) (k : Lookup) (e : Expr) :
    (parse k text).value = .ok e ↔ (parse k other).value = .ok e := by
  have hMoved {text other : String} {tokens others : List Token}
      (h : Token.Splits 0 text.toList tokens) (hOther : Token.Splits 0 other.toList others)
      (hKinds : others.map Token.kind = tokens.map Token.kind)
      (hParse : (parse k text).value = .ok e) : (parse k other).value = .ok e := by
    obtain ⟨found, hFound, hDerives⟩ := parse_eq_ok_iff.1 hParse
    obtain rfl := h.unique hFound
    exact parse_eq_ok_iff.2 ⟨others, hOther, hDerives.of_kinds hKinds⟩
  exact ⟨hMoved h hOther hKinds, hMoved hOther h hKinds.symm⟩

/-- An objection of the reader is placed at the end of the text exactly if it is to the end. -/
theorem Reader.aboutEnd_iff_of_run {k : Lookup} {text : String} {tokens : List Token}
    {o : Objection} (hSpans : Spans text tokens)
    (h : (run k text.length .initial tokens).value = .error o) :
    o.cause.aboutEnd = true ↔ o.position = text.length := by
  obtain ⟨last, -, hValue⟩ | ⟨passed, t, rest, last, other, hTokens, hPasses, hStep, hValue⟩ :=
    run_cases k text.length .initial tokens
  · obtain ⟨hPlace, hEnd⟩ := aboutEnd_of_finish (hValue.symm.trans h)
    simp [hPlace, hEnd]
  · obtain rfl := Except.error.inj (hValue.symm.trans h)
    have hBefore {u : Token} (hu : u ∈ tokens) : u.position < text.length :=
      Nat.lt_of_lt_of_le (hSpans.nonempty u hu) (hSpans.within u hu)
    have hMem : t ∈ tokens := by simp [hTokens]
    have hKept : Remembers tokens .initial := fun _ _ hAwaiting => by cases hAwaiting
    have hLast := hPasses.remembers hKept fun u hu => by simp [hTokens, hu]
    -- A step does not know the length of the text, so that any place may stand for its end.
    have hGuarded : Guarded tokens t.position (step k last t) := guarded_step hMem hLast
    rw [hStep] at hGuarded
    have hPlace : other.position < text.length := by
      cases hGuarded with
      | atEnd plain => exact hBefore hMem
      | token mem plain => exact hBefore mem
      | @plus value position cause mem =>
          have hStop := hSpans.within _ mem
          simp only [Token.stop, Token.Kind.width, Bool.toNat_true] at hStop
          show position + value.length < text.length
          omega
    simp [aboutEnd_of_step hStep, Nat.ne_of_lt hPlace]

/-- Splitting a text loses nothing of it: the tokens are spelled where they stand, all else is
blank, and the end that an error may be about is that of the text. The layout does not count: with
other blanks and the other spellings of operators the text is refused if it was refused before, and
otherwise has the same tree. -/
theorem layout_immaterial {text : String} {tokens : List Token} (h : tokenize text = .ok tokens) :
    Spans text tokens ∧
      (∀ k error, Text.allBlank text = false → (parse k text).value = .error error →
        (error.cause.aboutEnd = true ↔ error.position = text.length)) ∧
      (∃ l : Layout, l.text = text ∧ l.Shows tokens) ∧
      ∀ l other : Layout, l.text = text → l.Shows tokens → l.Relaid other →
        ∀ k e, (parse k text).value = .ok e ↔ (parse k other.text).value = .ok e := by
  have hSplits := tokenize_eq_ok_iff.1 h
  have hSpans := Token.spans_of_splits hSplits
  refine ⟨hSpans, ?_, ?_, ?_⟩
  · intro k error hVisible hParse
    rw [value_parse, hVisible, h] at hParse
    dsimp only at hParse
    cases hRun : (Reader.run k text.length .initial tokens).value with
    | ok e => simp [hRun] at hParse
    | error o =>
        obtain rfl : .ofObjection text o = error := by simpa [hRun] using hParse
        exact Reader.aboutEnd_iff_of_run hSpans hRun
  · obtain ⟨l, hChars, hShows⟩ := Layout.exists_shows hSplits
    exact ⟨l, by rw [Layout.text, hChars, String.ofList_toList], hShows⟩
  · intro l other hText hShows hRelaid k e
    have hLaid : Token.Splits 0 l.chars tokens := by
      rwa [← hText, Layout.text, String.toList_ofList] at hSplits
    obtain ⟨others, hOthers, hKinds⟩ := Layout.splits_of_relaid hLaid hShows hRelaid 0
    have hOther : Token.Splits 0 other.text.toList others := by
      rwa [Layout.text, String.toList_ofList]
    exact parse_iff_of_kinds hSplits hOther hKinds k e

/-- Tokens that touch are moved apart, and an operator is written in small letters. -/
theorem layout_immaterial_touching :
    let c := Catalog.ofEntries [⟨"GPL-2.0", "GNU General Public License v2.0", true, false⟩] []
    Spans "GPL-2.0+AND(MIT)" [⟨.identifier "GPL-2.0" true, 0⟩, ⟨.operator .and, 8⟩, ⟨.opening, 11⟩,
        ⟨.identifier "MIT" false, 12⟩, ⟨.closing, 15⟩] ∧
      (parse ⟨c, .allowAny⟩ "\tGPL-2.0+  and\n( MIT )").value =
        .ok (.join (.license (.listed "GPL-2.0" true true)) .and
          (.license (.reference "MIT"))) := by
  intro c
  have hTokens : tokenize "GPL-2.0+AND(MIT)" = .ok [⟨.identifier "GPL-2.0" true, 0⟩,
      ⟨.operator .and, 8⟩, ⟨.opening, 11⟩, ⟨.identifier "MIT" false, 12⟩, ⟨.closing, 15⟩] := by
    decide +kernel
  have hParse : (parse ⟨c, .allowAny⟩ "GPL-2.0+AND(MIT)").value =
      .ok (.join (.license (.listed "GPL-2.0" true true)) .and (.license (.reference "MIT"))) := by
    decide +kernel
  obtain ⟨hSpans, -, -, hMoved⟩ := layout_immaterial hTokens
  let l : Layout := ⟨[⟨[], "GPL-2.0+".toList⟩, ⟨[], "AND".toList⟩, ⟨[], "(".toList⟩,
    ⟨[], "MIT".toList⟩, ⟨[], ")".toList⟩], []⟩
  let other : Layout := ⟨[⟨['\t'], "GPL-2.0+".toList⟩, ⟨[' ', ' '], "and".toList⟩,
    ⟨['\n'], "(".toList⟩, ⟨[' '], "MIT".toList⟩, ⟨[' '], ")".toList⟩], []⟩
  have hBlank {pieces : List Piece} (h : pieces.all (fun p => p.gap.all Text.isBlank) = true) :
      ∀ p ∈ pieces, ∀ c ∈ p.gap, Text.isBlank c = true :=
    fun p hp => List.all_eq_true.1 (List.all_eq_true.1 h p hp)
  have hGpl : Spells (.identifier "GPL-2.0" true) ("GPL-2.0".toList ++ ['+']) :=
    .marked (.run ⟨by decide, List.all_eq_true.1 (by decide)⟩)
  have hMit : Spells (.identifier "MIT" false) "MIT".toList :=
    .plain (.run ⟨by decide, List.all_eq_true.1 (by decide)⟩) fun op => by cases op <;> decide
  have hShows : l.Shows [⟨.identifier "GPL-2.0" true, 0⟩, ⟨.operator .and, 8⟩, ⟨.opening, 11⟩,
      ⟨.identifier "MIT" false, 12⟩, ⟨.closing, 15⟩] :=
    ⟨.cons hGpl (.cons (.operator (by decide)) (.cons .opening (.cons hMit (.cons .closing .nil)))),
      hBlank (by decide), nofun⟩
  have hAnd : Layout.Respelled "AND".toList "and".toList := .inr ⟨.and, by decide, by decide⟩
  have hWords : List.Forall₂ (fun p q => Layout.Respelled p.word q.word) l.pieces other.pieces :=
    .cons (.inl rfl) (.cons hAnd (.cons (.inl rfl) (.cons (.inl rfl) (.cons (.inl rfl) .nil))))
  have hApart : List.Forall₂ (fun p q => q.gap ≠ [] ∨ q.gap = p.gap) l.pieces.tail
      other.pieces.tail :=
    .cons (.inl (by decide)) (.cons (.inl (by decide)) (.cons (.inl (by decide))
      (.cons (.inl (by decide)) .nil)))
  have hRelaid : l.Relaid other := ⟨hWords, hBlank (by decide), nofun, hApart⟩
  have hText : l.text = "GPL-2.0+AND(MIT)" := by decide +kernel
  have hOther : other.text = "\tGPL-2.0+  and\n( MIT )" := by decide +kernel
  have hSame := hMoved l other hText hShows hRelaid ⟨c, .allowAny⟩
  rw [hOther] at hSame
  exact ⟨hSpans, (hSame _).1 hParse⟩

end Licensing
