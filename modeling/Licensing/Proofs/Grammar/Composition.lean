import Licensing.Proofs.Grammar.Acceptance
import Licensing.Proofs.Grammar.Layout
import Licensing.Proofs.Grammar.Mentions
import Licensing.Proofs.NormalForm.Congruence

/-!
Parsing what is put together from texts. A text in parentheses is parsed as it is alone, so the
trees that parsing gives and the ones that the combinators build are the same. Without parentheses
a chain of `OR` goes on: only its brackets stand elsewhere.
-/

namespace Licensing

open Grammar (Derives Level)
open Token (Splits)

/-- The text is one identifier, which is accepted right of the `WITH` of some text that is parsed,
and is made the leaf there. -/
def Lookup.AcceptsException (k : Lookup) (name : String) (x : LicenseException) : Prop :=
  ∃ value orLater place, tokenize name = .ok [⟨.identifier value orLater, place⟩] ∧
    ∃ text tokens e position, tokenize text = .ok tokens ∧ (parse k text).value = .ok e ∧
      (⟨value, orLater, position, true⟩, .exception x) ∈ (mentions false tokens).zip e.leaves

/-- How two texts of the given trees are parsed when they are put together. -/
structure Composes (k : Lookup) (text other : String) (e f : Expr) : Prop where
  group : (parse k ("(" ++ text ++ ")")).value = .ok e
  conj : ∃ g, Expr.conj (.expr e) (.expr f) = .ok g ∧
    (parse k ("(" ++ text ++ ") AND (" ++ other ++ ")")).value = .ok g
  disj : ∃ g, Expr.disj (.expr e) (.expr f) = .ok g ∧
    (parse k ("(" ++ text ++ ") OR (" ++ other ++ ")")).value = .ok g ∧
    ∃ g', (parse k (text ++ " OR " ++ other)).value = .ok g' ∧ g'.Equivalent g
  grant : e.hasAttachment = false → ∀ name x, k.AcceptsException name x →
    ∃ g, e.join? .attach (.exception x) = .ok g ∧
      (parse k ("(" ++ text ++ ") WITH " ++ name)).value = .ok g
  chained : e.hasAttachment = true → ∀ name x, k.AcceptsException name x →
    (parse k ("(" ++ text ++ ") WITH " ++ name)).value =
      .error ⟨"(" ++ text ++ ") WITH " ++ name, text.length + 3, .exceptionInGranted⟩

/-! ### Texts at a level -/

namespace Grammar

/-- The characters split, wherever they begin, into tokens that derive the tree at the level. -/
def Spelled (k : Lookup) (level : Level) (cs : List Char) (e : Expr) : Prop :=
  ∀ position, ∃ tokens, Splits position cs tokens ∧ Derives k level tokens e

variable {k : Lookup} {left right : List Char} {e f : Expr}

/-- A text that is parsed can be moved to any place, since tokens are spelled by what stands there.
-/
theorem spelled_of_parse {text : String} (h : (parse k text).value = .ok e) :
    Spelled k .disjunction text.toList e := by
  intro position
  obtain ⟨tokens, hSplits, hDerives⟩ := parse_eq_ok_iff.1 h
  obtain ⟨others, hOthers, hKinds⟩ := hSplits.moved position
  exact ⟨others, hOthers, hDerives.of_kinds hKinds⟩

/-- In parentheses any text is an operand. -/
theorem Spelled.enclosed (h : Spelled k .disjunction left e) :
    Spelled k .primary ('(' :: left ++ [')']) e := by
  intro position
  obtain ⟨tokens, hSplits, hDerives⟩ := h (position + 1)
  exact ⟨_, hSplits.parenthesized, .group hDerives⟩

/-- A chain of `OR` behind another one goes on with it. -/
theorem Derives.exists_or {tokens others : List Token} (position : Nat)
    (hLeft : Derives k .disjunction tokens e) (hRight : Derives k .disjunction others f) :
    ∃ g, Derives k .disjunction (tokens ++ ⟨.operator .or, position⟩ :: others) g ∧
      Expr.Rebracketed (.join e .or f) g := by
  generalize hLevel : Level.disjunction = level at hRight
  induction hRight with
  | license names => cases hLevel
  | group inner ih => cases hLevel
  | primary inner ih => cases hLevel
  | attach left free names ih => cases hLevel
  | granted inner ih => cases hLevel
  | and left right ihLeft ihRight => cases hLevel
  | conjunction inner ih => exact ⟨_, .or hLeft inner, .refl _⟩
  | @or place first last a b left right ihLeft ihRight =>
      obtain ⟨g, hDerives, hBrackets⟩ := ihLeft hLevel
      refine ⟨.join g .or b, ?_, ?_⟩
      · have hWhole : Derives k .disjunction
            ((tokens ++ ⟨.operator .or, position⟩ :: first) ++ ⟨.operator .or, place⟩ :: last)
            (.join g .or b) := .or hDerives right
        simpa using hWhole
      · exact .trans (.rotate (by decide) e a b) (.inside .or hBrackets (.refl b))

end Grammar

/-- A name that is accepted as an exception has no `+` and names an exception. -/
theorem Lookup.AcceptsException.exists_names {k : Lookup} {name : String} {x : LicenseException}
    (h : k.AcceptsException name x) :
    ∃ value place, Splits 0 name.toList [⟨.identifier value false, place⟩] ∧
      k.NamesException value x := by
  obtain ⟨value, orLater, place, hName, text, tokens, e, position, hTokens, hParse, hMem⟩ := h
  rw [tokenize_eq_ok_iff] at hName hTokens
  obtain ⟨others, hSplits, hDerives⟩ := parse_eq_ok_iff.1 hParse
  obtain rfl := hTokens.unique hSplits
  have hResolved := List.forall₂_zip (mentions_of_derives hDerives) hMem
  obtain ⟨y, hLeaf, rfl, hNames⟩ := namesException_of_resolve hResolved
  obtain rfl := Leaf.exception.inj hLeaf
  exact ⟨value, place, hName, hNames⟩

/-! ### Combinators -/

namespace Expr

variable {e f : Expr}

theorem toExpr_of_isLicense (h : e.IsLicense) : (Operand.expr e).toExpr = .ok e := by
  cases e with
  | leaf l =>
      cases l with
      | license l => rfl
      | exception x => rfl
      | foreign v => exact absurd h id
  | join left op right => rfl

theorem join?_of_isLicense {op : Operator} (hOp : op ≠ .attach) (he : e.IsLicense)
    (hf : f.IsLicense) : e.join? op f = .ok (join e op f) :=
  (join?_eq_ok_iff hOp).2 ⟨ne_exception_of_isLicense he, ne_exception_of_isLicense hf, rfl⟩

theorem conj_of_isLicense (he : e.IsLicense) (hf : f.IsLicense) :
    conj (.expr e) (.expr f) = .ok (join e .and f) := by
  have hOp : Operator.and ≠ .attach := by decide
  rw [conj, toExpr_of_isLicense he, toExpr_of_isLicense hf]
  exact join?_of_isLicense hOp he hf

theorem disj_of_isLicense (he : e.IsLicense) (hf : f.IsLicense) :
    disj (.expr e) (.expr f) = .ok (join e .or f) := by
  have hOp : Operator.or ≠ .attach := by decide
  rw [disj, toExpr_of_isLicense he, toExpr_of_isLicense hf]
  exact join?_of_isLicense hOp he hf

end Expr

/-! ### Texts put together -/

section

variable {k : Lookup} {text other name : String} {e f : Expr} {x : LicenseException}

/-- Two texts with an operator between them, and what their tokens derive. -/
theorem Grammar.Spelled.exists_joined {level others : Level} {left right : List Char}
    (op : Operator) (h : Spelled k level left e) (hOther : Spelled k others right f) :
    ∃ tokens behind place, Derives k level tokens e ∧ Derives k others behind f ∧
      Splits 0 (left ++ ' ' :: (op.word.toList ++ ' ' :: right))
        (tokens ++ ⟨.operator op, place⟩ :: behind) := by
  obtain ⟨tokens, hSplits, hDerives⟩ := h 0
  obtain ⟨behind, hBehind, hRight⟩ := hOther (0 + left.length + op.word.length + 2)
  exact ⟨tokens, behind, _, hDerives, hRight, hSplits.joined hBehind⟩

/-- A text with the name of an exception behind it, and what the tokens in front of the `WITH`
derive. -/
theorem Grammar.Spelled.exists_attached {left right : List Char} {value : String} {position : Nat}
    (h : Spelled k .primary left e) (hName : Splits 0 right [⟨.identifier value false, position⟩]) :
    ∃ tokens place, Derives k .primary tokens e ∧
      Splits 0 (left ++ ' ' :: (Operator.attach.word.toList ++ ' ' :: right))
        (tokens ++ [⟨.operator .attach, left.length + 1⟩, ⟨.identifier value false, place⟩]) := by
  obtain ⟨tokens, hSplits, hDerives⟩ := h 0
  obtain ⟨moved, hMoved, hKinds⟩ := hName.moved (0 + left.length + Operator.attach.word.length + 2)
  obtain ⟨⟨kind, place⟩, rfl, rfl⟩ := List.map_eq_singleton_iff.1 hKinds
  have hWhole := hSplits.joined hMoved
  rw [Nat.zero_add] at hWhole
  exact ⟨tokens, place, hDerives, hWhole⟩

/-- Parentheses around a text change nothing about its tree. -/
theorem parse_group (h : (parse k text).value = .ok e) :
    (parse k ("(" ++ text ++ ")")).value = .ok e := by
  obtain ⟨tokens, hSplits, hDerives⟩ := (Grammar.spelled_of_parse h).enclosed 0
  have hText : ("(" ++ text ++ ")").toList = '(' :: text.toList ++ [')'] := by simp
  rw [← hText] at hSplits
  exact parse_eq_ok_iff.2 ⟨tokens, hSplits, .conjunction (.granted (.primary hDerives))⟩

/-- Groups with `AND` or `OR` between them. -/
theorem parse_joined {op : Operator} (hOp : op ≠ .attach) {whole : String}
    (hWhole : whole.toList = ('(' :: text.toList ++ [')']) ++
      ' ' :: (op.word.toList ++ ' ' :: ('(' :: other.toList ++ [')'])))
    (h : (parse k text).value = .ok e) (hOther : (parse k other).value = .ok f) :
    (parse k whole).value = .ok (.join e op f) := by
  obtain ⟨tokens, behind, place, hDerives, hBehind, hSplits⟩ :=
    (Grammar.spelled_of_parse h).enclosed.exists_joined op
      (Grammar.spelled_of_parse hOther).enclosed
  have hLeft : Derives k .conjunction tokens e := .granted (.primary hDerives)
  have hRight : Derives k .granted behind f := .primary hBehind
  rw [← hWhole] at hSplits
  cases op with
  | attach => exact absurd rfl hOp
  | and => exact parse_eq_ok_iff.2 ⟨_, hSplits, .conjunction (.and hLeft hRight)⟩
  | or => exact parse_eq_ok_iff.2 ⟨_, hSplits, .or (.conjunction hLeft) (.granted hRight)⟩

/-- Without parentheses the chains of both texts become one. -/
theorem exists_parse_or (h : (parse k text).value = .ok e)
    (hOther : (parse k other).value = .ok f) :
    ∃ g, (parse k (text ++ " OR " ++ other)).value = .ok g ∧
      Expr.Rebracketed (.join e .or f) g := by
  obtain ⟨tokens, behind, place, hDerives, hBehind, hSplits⟩ :=
    (Grammar.spelled_of_parse h).exists_joined .or (Grammar.spelled_of_parse hOther)
  obtain ⟨g, hWhole, hBrackets⟩ := hDerives.exists_or place hBehind
  have hText : (text ++ " OR " ++ other).toList =
      text.toList ++ ' ' :: (Operator.or.word.toList ++ ' ' :: other.toList) := by
    simp [Operator.word]
  rw [← hText] at hSplits
  exact ⟨g, parse_eq_ok_iff.2 ⟨_, hSplits, hWhole⟩, hBrackets⟩

theorem Expr.Rebracketed.equivalent (h : Rebracketed e f) (hLicense : e.IsLicense) :
    f.Equivalent e :=
  equivalent_iff.2 ⟨h.isLicense hLicense, hLicense, h.clauseSets_eq hLicense⟩

/-- The tokens of a text that grants an exception to a group. -/
theorem exists_splits_grant (h : (parse k text).value = .ok e) (hName : k.AcceptsException name x) :
    ∃ tokens value place, Derives k .primary tokens e ∧ k.NamesException value x ∧
      Splits 0 ("(" ++ text ++ ") WITH " ++ name).toList
        (tokens ++ [⟨.operator .attach, text.length + 3⟩, ⟨.identifier value false, place⟩]) := by
  obtain ⟨value, position, hValue, hNames⟩ := hName.exists_names
  obtain ⟨tokens, place, hDerives, hSplits⟩ :=
    (Grammar.spelled_of_parse h).enclosed.exists_attached hValue
  have hText : ("(" ++ text ++ ") WITH " ++ name).toList =
      ('(' :: text.toList ++ [')']) ++
        ' ' :: (Operator.attach.word.toList ++ ' ' :: name.toList) := by
    simp [Operator.word]
  have hPlace : ('(' :: text.toList ++ [')']).length + 1 = text.length + 3 := by
    simp [String.length_toList]
  rw [← hText, hPlace] at hSplits
  exact ⟨tokens, value, place, hDerives, hNames, hSplits⟩

theorem parse_grant (h : (parse k text).value = .ok e) (hName : k.AcceptsException name x)
    (hFree : e.hasAttachment = false) :
    (parse k ("(" ++ text ++ ") WITH " ++ name)).value = .ok (.join e .attach (.exception x)) := by
  obtain ⟨tokens, value, place, hDerives, hNames, hSplits⟩ := exists_splits_grant h hName
  exact parse_eq_ok_iff.2
    ⟨_, hSplits, .conjunction (.granted (.attach hDerives hFree hNames))⟩

/-- The objection is to the `WITH`. -/
theorem parse_grant_chained (h : (parse k text).value = .ok e)
    (hName : k.AcceptsException name x) (hChained : e.hasAttachment = true) :
    (parse k ("(" ++ text ++ ") WITH " ++ name)).value =
      .error ⟨"(" ++ text ++ ") WITH " ++ name, text.length + 3, .exceptionInGranted⟩ := by
  obtain ⟨tokens, value, place, hDerives, -, hSplits⟩ := exists_splits_grant h hName
  generalize "(" ++ text ++ ") WITH " ++ name = whole at hSplits
  have hRun (length : Nat) :
      (Reader.run k length .initial (tokens ++
        [⟨.operator .attach, text.length + 3⟩, ⟨.identifier value false, place⟩])).value =
      .error ⟨text.length + 3, .exceptionInGranted⟩ := by
    have hFinishes := Reader.finishes_of_derives length hDerives [] .none .start
    rw [Reader.State.initial, hFinishes, Reader.value_run_of_step rfl]
    have hException : Reader.hasException e = true := by
      rw [Reader.hasException_of_derives hDerives, hChained]
    simp [Reader.run, Reader.step, Reader.stepException, hException, Token.Kind.beginsOperand]
  have hVisible : Text.allBlank whole = false := by
    rw [← Bool.not_eq_true]
    intro hBlank
    have hNone := Token.splits_of_allBlank (List.all_eq_true.1 hBlank) hSplits
    simp at hNone
  rw [value_parse, hVisible, tokenize_eq_ok_iff.2 hSplits]
  simp only [hRun]
  rfl

/-- Parsing is compositional: texts that are parsed to trees are parsed together to what the
combinators make of the trees. -/
theorem parse_composes (h : (parse k text).value = .ok e) (hOther : (parse k other).value = .ok f) :
    Composes k text other e f where
  group := parse_group h
  conj := by
    have hOp : Operator.and ≠ .attach := by decide
    have hParse : (parse k ("(" ++ text ++ ") AND (" ++ other ++ ")")).value =
        .ok (.join e .and f) :=
      parse_joined hOp (by simp [Operator.word]) h hOther
    exact ⟨_, Expr.conj_of_isLicense (isLicense_of_parse h) (isLicense_of_parse hOther), hParse⟩
  disj := by
    have hOp : Operator.or ≠ .attach := by decide
    have hLicense := isLicense_of_parse h
    have hBoth := isLicense_of_parse hOther
    have hParse : (parse k ("(" ++ text ++ ") OR (" ++ other ++ ")")).value =
        .ok (.join e .or f) :=
      parse_joined hOp (by simp [Operator.word]) h hOther
    obtain ⟨g, hChain, hBrackets⟩ := exists_parse_or h hOther
    exact ⟨_, Expr.disj_of_isLicense hLicense hBoth, hParse, g, hChain,
      hBrackets.equivalent ((Expr.isLicense_join_iff hOp).2 ⟨hLicense, hBoth⟩)⟩
  grant hFree name x hName := by
    have hJoin := Expr.join?_attach_eq_ok_iff.2
      ⟨Expr.ne_exception_of_isLicense (isLicense_of_parse h), hFree, ⟨x, rfl⟩, rfl⟩
    exact ⟨_, hJoin, parse_grant h hName hFree⟩
  chained hChained name x hName := parse_grant_chained h hName hChained

end

/-- A `WITH` behind a group applies to all of it, and is refused if it has an exception already. -/
theorem parse_composes_granted :
    let c := Catalog.ofEntries [⟨"GPL-2.0", "GNU General Public License v2.0", true, false⟩]
      [⟨"Classpath-exception-2.0", "Classpath exception 2.0", false⟩]
    let x : LicenseException := ⟨"Classpath-exception-2.0", false⟩
    let e := Expr.join (.license (.listed "GPL-2.0" true true)) .or (.license (.reference "MIT"))
    let f := Expr.join (.license (.reference "MIT")) .attach (.exception x)
    Composes ⟨c, .allowAny⟩ "GPL-2.0+ OR MIT" "MIT WITH Classpath-exception-2.0" e f ∧
      (parse ⟨c, .allowAny⟩ "(GPL-2.0+ OR MIT) WITH Classpath-exception-2.0").value =
        .ok (.join e .attach (.exception x)) ∧
      ∃ error, (parse ⟨c, .allowAny⟩
          "(MIT WITH Classpath-exception-2.0) WITH Classpath-exception-2.0").value = .error error ∧
        error.position = 35 := by
  intro c x e f
  have hParse : (parse ⟨c, .allowAny⟩ "GPL-2.0+ OR MIT").value = .ok e := by decide +kernel
  have hOther : (parse ⟨c, .allowAny⟩ "MIT WITH Classpath-exception-2.0").value = .ok f := by
    decide +kernel
  have hName : Lookup.AcceptsException ⟨c, .allowAny⟩ "Classpath-exception-2.0" x := by
    have hText : tokenize "Classpath-exception-2.0" =
        .ok [⟨.identifier "Classpath-exception-2.0" false, 0⟩] := by
      decide +kernel
    have hTokens : tokenize "MIT WITH Classpath-exception-2.0" =
        .ok [⟨.identifier "MIT" false, 0⟩, ⟨.operator .attach, 4⟩,
          ⟨.identifier "Classpath-exception-2.0" false, 9⟩] := by
      decide +kernel
    exact ⟨_, _, _, hText, _, _, f, 9, hTokens, hOther, by decide⟩
  have hFirst := parse_composes hParse hOther
  obtain ⟨g, hJoin, hGranted⟩ := hFirst.grant (by decide) _ x hName
  obtain rfl := Except.ok.inj hJoin
  have hChained := (parse_composes hOther hParse).chained (by decide) _ x hName
  exact ⟨hFirst, hGranted, _, hChained, by decide⟩

end Licensing
