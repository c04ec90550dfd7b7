import Licensing.Proofs.Expr.LeftNested
import Licensing.Proofs.Grammar.LeafText
import Licensing.Proofs.NormalForm.ClauseSets
import Licensing.Proofs.Token.Splitting

/-!
Parsing undoes writing. An operand of a chain is written so that its tokens also continue any chain
of the same operator in front of them (`Continues`); this is why the parentheses of a right-nested
chain can be left out, and why the tree that is read back has its chains nested to the left.
-/

namespace Licensing

open Licensing.Expr (joinFront enclose)
open Grammar (Derives Level)
open Token (Spells Splits)

namespace Grammar

def Level.ofOperator : Operator → Level
  | .or => .disjunction
  | .and => .conjunction
  | .attach => .granted

/-- The tokens derive an operand of an operator: alone, and at the end of every chain of it. -/
structure Continues (k : Lookup) (op : Operator) (tokens : List Token) (f : Expr) : Prop where
  alone : Derives k (Level.ofOperator op) tokens f
  after : ∀ {before : List Token} {e : Expr} (position : Nat),
    Derives k (Level.ofOperator op) before e →
      Derives k (Level.ofOperator op) (before ++ ⟨.operator op, position⟩ :: tokens)
        (joinFront op e f)

variable {k : Lookup} {tokens others : List Token} {e f : Expr} {op : Operator}

theorem continues_of_granted (hOp : op ≠ .attach) (h : Derives k .granted tokens f)
    (hSingle : ∀ first last, f ≠ .join first op last) : Continues k op tokens f := by
  cases op with
  | attach => exact absurd rfl hOp
  | and =>
      refine ⟨.granted h, ?_⟩
      intro before e position hBefore
      rw [Expr.joinFront_eq_join hSingle]
      exact .and hBefore h
  | or =>
      refine ⟨.conjunction (.granted h), ?_⟩
      intro before e position hBefore
      rw [Expr.joinFront_eq_join hSingle]
      exact .or hBefore (.granted h)

theorem continues_or_of_conjunction (h : Derives k .conjunction tokens f)
    (hSingle : ∀ first last, f ≠ .join first .or last) : Continues k .or tokens f := by
  refine ⟨.conjunction h, ?_⟩
  intro before e position hBefore
  rw [Expr.joinFront_eq_join hSingle]
  exact .or hBefore h

/-- Two operands with their operator between them are an operand of it, as one chain. -/
theorem Continues.joined (hLeft : Continues k op tokens e) (hRight : Continues k op others f)
    (position : Nat) :
    Continues k op (tokens ++ ⟨.operator op, position⟩ :: others) (joinFront op e f) := by
  refine ⟨hRight.after position hLeft.alone, ?_⟩
  intro before g place hBefore
  have hWhole := hRight.after position (hLeft.after place hBefore)
  rw [Expr.joinFront_assoc] at hWhole
  simpa using hWhole

end Grammar

open Grammar (Continues)

namespace Expr

theorem ne_join_of_needsParens {op : Operator} {e : Expr} (h : e.needsParens op = true) :
    ∀ first last, e ≠ join first op last := by
  intro first last hJoin
  simp [hJoin, needsParens] at h

theorem toList_enclose (s : String) : (enclose true s).toList = '(' :: s.toList ++ [')'] := by
  simp [enclose]

theorem toList_text_join (left right : Expr) (op : Operator) :
    (join left op right).text.toList =
      (enclose (left.needsParens op) left.text).toList ++
        ' ' :: (op.word.toList ++ ' ' :: (enclose (right.needsParens op) right.text).toList) := by
  simp [text]

/-- The text of a tree, wherever it begins, splits into tokens that derive the tree with its chains
nested to the left, at every place where no parentheses are needed. -/
def Written (k : Lookup) (e : Expr) : Prop :=
  ∀ position, ∃ tokens, Splits position e.text.toList tokens ∧
    ∀ op, op ≠ .attach → e.needsParens op = false → Continues k op tokens e.leftNested

variable {k : Lookup}

/-- In parentheses the text of a tree is an operand. -/
theorem Written.enclosed {e : Expr} (h : e.Written k) (position : Nat) :
    ∃ tokens, Splits position (enclose true e.text).toList tokens ∧
      Derives k .primary tokens e.leftNested := by
  obtain ⟨tokens, hSplits, hContinues⟩ := h (position + 1)
  rw [toList_enclose]
  exact ⟨_, hSplits.parenthesized, .group (hContinues .or (by decide) e.needsParens_or).alone⟩

/-- A tree is written as an operand with parentheses just where it needs them. -/
theorem Written.operand {e : Expr} (h : e.Written k) {op : Operator} (hOp : op ≠ .attach)
    (position : Nat) :
    ∃ tokens, Splits position (enclose (e.needsParens op) e.text).toList tokens ∧
      Continues k op tokens e.leftNested := by
  cases hParens : e.needsParens op with
  | false =>
      obtain ⟨tokens, hSplits, hContinues⟩ := h position
      exact ⟨tokens, hSplits, hContinues op hOp hParens⟩
  | true =>
      obtain ⟨tokens, hSplits, hDerives⟩ := h.enclosed position
      have hSingle : ∀ first last, e.leftNested ≠ join first op last := by
        apply ne_join_of_needsParens
        rw [(rebracketed_leftNested e).needsParens_eq, hParens]
      exact ⟨tokens, hSplits, Grammar.continues_of_granted hOp (.primary hDerives) hSingle⟩

theorem Written.joined {left right : Expr} {op : Operator} (hLeft : left.Written k)
    (hRight : right.Written k) (hOp : op ≠ .attach) : (join left op right).Written k := by
  intro position
  obtain ⟨tokens, hTokens, hFirst⟩ := hLeft.operand hOp position
  obtain ⟨others, hOthers, hSecond⟩ := hRight.operand hOp _
  rw [toList_text_join, leftNested_join hOp]
  refine ⟨_, hTokens.joined hOthers, ?_⟩
  have hChain := hFirst.joined hSecond
    (position + (enclose (left.needsParens op) left.text).toList.length + 1)
  intro parent hParent hFree
  by_cases hSame : parent = op
  · rwa [hSame]
  · -- Among different chains only one of `AND` stands in one of `OR` without parentheses.
    obtain ⟨rfl, rfl⟩ : parent = .or ∧ op = .and := by
      cases parent <;> cases op <;> simp_all [needsParens, Operator.strength]
    apply Grammar.continues_or_of_conjunction hChain.alone
    obtain ⟨first, last, hJoin⟩ := exists_joinFront_eq .and left.leftNested right.leftNested
    simp [hJoin]

/-- A license that an identifier of a legible catalog names is written as one token, which names it.
-/
theorem written_license (hLegible : k.catalog.Legible) {l : License}
    (h : k.Names (.license l)) (position : Nat) :
    ∃ tokens, Splits position l.text.toList tokens ∧ Derives k .primary tokens (license l) := by
  obtain ⟨value, orLater, hSpells, hNames⟩ := Lookup.exists_spells_license hLegible h
  exact ⟨_, Token.splits_of_spells position hSpells, .license hNames⟩

/-- What is granted an exception is a single license or stands in parentheses. -/
theorem exists_splits_granted (hLegible : k.catalog.Legible) {e : Expr} (hLicense : e.IsLicense)
    (hFree : e.hasAttachment = false) (hNames : ∀ l ∈ e.leaves, k.Names l) (hWritten : e.Written k)
    (position : Nat) :
    ∃ tokens, Splits position (enclose (e.needsParens .attach) e.text).toList tokens ∧
      Derives k .primary tokens e.leftNested := by
  cases e with
  | leaf l =>
      cases l with
      | license l =>
          exact written_license hLegible (hNames (.license l) (by simp [leaves])) position
      | exception x => exact absurd hLicense id
      | foreign v => exact absurd hLicense id
  | join left op right =>
      have hParens : (join left op right).needsParens .attach = true := by
        cases op <;> simp_all [needsParens, Operator.strength, hasAttachment]
      rw [hParens]
      exact hWritten.enclosed position

/-- The text of a license expression is read as the expression, wherever it begins, when its leaves
are named by the catalog. -/
theorem written_of_isLicense (hLegible : k.catalog.Legible) {e : Expr} (hLicense : e.IsLicense)
    (hNames : ∀ l ∈ e.leaves, k.Names l) : e.Written k := by
  induction e, hLicense using isLicense_induction with
  | single l =>
      intro position
      obtain ⟨tokens, hSplits, hDerives⟩ :=
        written_license hLegible (hNames (.license l) (by simp [leaves])) position
      refine ⟨tokens, hSplits, ?_⟩
      intro op hOp _
      exact Grammar.continues_of_granted hOp (.primary hDerives) (by simp [leftNested])
  | attach left x hLeft hFree ih =>
      have hNamesLeft : ∀ l ∈ left.leaves, k.Names l := by
        intro l hl
        exact hNames l (List.mem_append_left _ hl)
      intro position
      obtain ⟨tokens, hTokens, hGranted⟩ :=
        exists_splits_granted hLegible hLeft hFree hNamesLeft (ih hNamesLeft) position
      obtain ⟨value, hSpells, hException⟩ :=
        Lookup.exists_spells_exception hLegible (hNames (.exception x) (by simp [leaves]))
      rw [toList_text_join]
      refine ⟨_, hTokens.joined (Token.splits_of_spells _ hSpells), ?_⟩
      intro parent hParent _
      refine Grammar.continues_of_granted hParent (.attach hGranted ?_ hException) ?_
      · rw [(rebracketed_leftNested left).hasAttachment_eq, hFree]
      · intro first last hJoin
        exact hParent (Expr.join.inj hJoin).2.1.symm
  | join left op right hOp hLeft hRight ihLeft ihRight =>
      have hNamesLeft : ∀ l ∈ left.leaves, k.Names l := by
        intro l hl
        exact hNames l (List.mem_append_left _ hl)
      have hNamesRight : ∀ l ∈ right.leaves, k.Names l := by
        intro l hl
        exact hNames l (List.mem_append_right _ hl)
      exact (ihLeft hNamesLeft).joined (ihRight hNamesRight) hOp

/-- What is read back from the text of a tree. -/
structure ReadsBack (k : Lookup) (e : Expr) : Prop where
  parsed : (parse k e.render).value = .ok e.leftNested
  rebracketed : Rebracketed e e.leftNested
  leansLeft : e.leftNested.LeansLeft
  leaves : e.leftNested.leaves = e.leaves
  rendered : e.leftNested.render = e.render
  equivalent : (e.leftNested.isEquivalent e).run.value = .ok true

/-- As a text of its own it is parsed, and the tree that comes back has the same clauses, leaves and
text. -/
theorem readsBack_of_isLicense (hLegible : k.catalog.Legible) {e : Expr} (hLicense : e.IsLicense)
    (hNames : ∀ l ∈ e.leaves, k.Names l) : e.ReadsBack k := by
  have hMoved := rebracketed_leftNested e
  refine ⟨?_, hMoved, leansLeft_leftNested e, hMoved.leaves_eq, ?_, ?_⟩
  · obtain ⟨tokens, hSplits, hContinues⟩ := written_of_isLicense hLegible hLicense hNames 0
    rw [render_eq_text]
    exact parse_eq_ok_iff.2 ⟨tokens, hSplits, (hContinues .or (by decide) e.needsParens_or).alone⟩
  · rw [render_eq_text, render_eq_text, hMoved.text_eq]
  · rw [value_isEquivalent (hMoved.isLicense hLicense) hLicense, hMoved.clauseSets_eq hLicense]
    simp

end Expr

/-- Parsing the text of a tree gives the tree back, with its chains nested to the left: for every
tree that can be built from leaves that parsing gives, among them every tree that it gives. -/
theorem parse_render : Catalog.builtin.Legible ∧ ∀ k : Lookup, k.catalog.Legible →
    (∀ e : Expr, e.Buildable → (∀ x, e ≠ .exception x) → (∀ l ∈ e.leaves, k.Yields l) →
      e.ReadsBack k) ∧
    ∀ text e, (parse k text).value = .ok e → e.ReadsBack k := by
  refine ⟨Catalog.legible_builtin, ?_⟩
  intro k hLegible
  have hReads {e : Expr} (hLicense : e.IsLicense) (hYields : ∀ l ∈ e.leaves, k.Yields l) :=
    Expr.readsBack_of_isLicense hLegible hLicense fun l hl => Lookup.names_of_yields (hYields l hl)
  constructor
  · intro e hBuildable hWhole hYields
    have hNative (v : Foreign) : .foreign v ∉ e.leaves := by
      intro hForeign
      cases Lookup.names_of_yields (hYields _ hForeign)
    exact hReads (Expr.isLicense_iff_proper.2 ⟨hBuildable, hNative, hWhole⟩) hYields
  · intro text e hParse
    exact hReads (isLicense_of_parse hParse) fun l hl => ⟨text, e, hParse, hl⟩

/-- A tree that is nested to the right, and the parentheses that are left of it. -/
theorem parse_render_nested_right :
    let k : Lookup := ⟨.ofEntries [⟨"GPL-2.0", "", true, true⟩] [], .allowDeprecated⟩
    let gpl := Expr.license (.listed "GPL-2.0" true true)
    let custom := Expr.license (.reference "LicenseRef-a")
    let granted := Expr.join (.join gpl .or custom) .attach (.exception ⟨"AdditionRef-x", false⟩)
    (parse k "(GPL-2.0+ OR LicenseRef-a) WITH AdditionRef-x").value = .ok granted ∧
      (Expr.join custom .or (.join granted .or (.join gpl .and custom))).ReadsBack k ∧
      granted.ReadsBack k := by
  intro k gpl custom granted
  have hLegible : k.catalog.Legible := by
    refine ⟨⟨?_, ?_⟩, ?_⟩
    · intro id e hFound
      obtain ⟨rfl, rfl⟩ := Prod.mk.inj (List.mem_singleton.1 (Listing.mem_of_get? hFound))
      rfl
    · intro id e hFound
      cases hFound
    · intro id e hFound _
      obtain ⟨rfl, rfl⟩ := Prod.mk.inj (List.mem_singleton.1 (Listing.mem_of_get? hFound))
      decide
  have hParse : (parse k "(GPL-2.0+ OR LicenseRef-a) WITH AdditionRef-x").value = .ok granted := by
    decide +kernel
  obtain ⟨hTree, hText⟩ := parse_render.2 k hLegible
  refine ⟨hParse, hTree _ ?_ ?_ ?_, hText _ _ hParse⟩
  · simp [Expr.Buildable, granted, gpl, custom]
    decide
  · simp
  · intro l hl
    refine ⟨_, granted, hParse, ?_⟩
    revert l
    decide

end Licensing
