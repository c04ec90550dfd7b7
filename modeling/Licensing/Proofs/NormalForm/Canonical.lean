import Licensing.Containers
import Licensing.Proofs.Grammar.Filtering
import Licensing.Proofs.NormalForm.Distinct
import Licensing.Proofs.NormalForm.FlatText
import Licensing.Proofs.NormalForm.Policy
import Licensing.Proofs.NormalForm.Stability

/-!
The text of a normal form is a name for the expressions that have it. Sorting by texts forgets the
order in which the clauses and their terms are listed, also where different terms have one text.
Read back, the text gives the clauses again, so different normal forms of texts that can be parsed
have different names.
-/

namespace Licensing

namespace Clause

theorem textsBefore_total (ss ts : List String) :
    (textsBefore ss ts || textsBefore ts ss) = true := by
  induction ss generalizing ts with
  | nil => simp [textsBefore]
  | cons s ss ih =>
      cases ts with
      | nil => simp [textsBefore]
      | cons t ts =>
          by_cases hHead : s = t
          · simpa [textsBefore, hHead] using ih ts
          · simpa [textsBefore, hHead, Ne.symm hHead] using String.le_total s t

theorem textsBefore_antisymm (ss ts : List String) (h : textsBefore ss ts = true)
    (hOther : textsBefore ts ss = true) : ss = ts := by
  induction ss generalizing ts with
  | nil =>
      cases ts with
      | nil => rfl
      | cons t ts => simp [textsBefore] at hOther
  | cons s ss ih =>
      cases ts with
      | nil => simp [textsBefore] at h
      | cons t ts =>
          by_cases hHead : s = t
          · subst hHead
            simp only [textsBefore, if_true] at h hOther
            rw [ih ts h hOther]
          · simp only [textsBefore, hHead, Ne.symm hHead, if_false, decide_eq_true_eq] at h hOther
            exact absurd (String.le_antisymm h hOther) hHead

theorem textsBefore_trans (ss ts us : List String) (h : textsBefore ss ts = true)
    (hOther : textsBefore ts us = true) : textsBefore ss us = true := by
  induction ss generalizing ts us with
  | nil => simp [textsBefore]
  | cons s ss ih =>
      cases ts with
      | nil => simp [textsBefore] at h
      | cons t ts =>
          cases us with
          | nil => simp [textsBefore] at hOther
          | cons u us =>
              by_cases hFirst : s = t
              · subst hFirst
                by_cases hSecond : s = u
                · subst hSecond
                  simp only [textsBefore, if_true] at h hOther ⊢
                  exact ih ts us h hOther
                · simp only [textsBefore, hSecond, if_false] at hOther ⊢
                  exact hOther
              · simp only [textsBefore, hFirst, if_false, decide_eq_true_eq] at h
                by_cases hSecond : t = u
                · subst hSecond
                  simpa [textsBefore, hFirst] using h
                · simp only [textsBefore, hSecond, if_false, decide_eq_true_eq] at hOther
                  have hBoth := String.le_trans h hOther
                  -- Were the outer texts the same, so would be the one between them.
                  have hOuter : s ≠ u := by
                    rintro rfl
                    exact hFirst (String.le_antisymm h hOther)
                  simpa [textsBefore, hOuter] using hBoth

noncomputable def orderedTexts (s : Finset Term) : List String :=
  (s.toList.map Term.text).mergeSort fun t u => t ≤ u

/-- The texts of a sorted clause depend on the set of its terms alone. -/
theorem texts_sorted {c : Clause} (h : (c.map Term.bare).Nodup) :
    texts c.sorted = orderedTexts c.termSet := by
  have hTexts : texts c = (c.map Term.bare).map Term.text := by
    simp [texts, Term.text_bare]
  have hPerm : (texts c).Perm (c.termSet.toList.map Term.text) := by
    rw [hTexts]
    exact ((List.toFinset_toList h).map Term.text).symm
  have hSorted : texts c.sorted = (texts c).mergeSort fun t u => t ≤ u :=
    List.map_mergeSort fun a _ b _ => rfl
  rw [hSorted, orderedTexts]
  refine mergeSort_eq_of_perm ?_ ?_ ?_ hPerm
  · intro a b c hFirst hSecond
    simp only [decide_eq_true_eq] at hFirst hSecond ⊢
    exact String.le_trans hFirst hSecond
  · intro a b
    simpa using String.le_total a b
  · intro a b hFirst hSecond
    simp only [decide_eq_true_eq] at hFirst hSecond
    exact String.le_antisymm hFirst hSecond

end Clause

namespace NormalForm

/-- The texts of the clauses in order depend on the set of the clauses alone. -/
theorem map_texts_sortedClauses_eq {nf other : NormalForm} (h : nf.Distinct)
    (hOther : other.Distinct) (hSame : nf.same other = true) :
    nf.sortedClauses.map Clause.texts = other.sortedClauses.map Clause.texts := by
  have hOrdered {nf : NormalForm} (h : nf.Distinct) : nf.sortedClauses.map Clause.texts =
      ((nf.clauses.map Clause.termSet).map Clause.orderedTexts).mergeSort Clause.textsBefore := by
    rw [sortedClauses, List.map_mergeSort (s := Clause.textsBefore) fun _ _ _ _ => rfl,
      List.map_map, List.map_map]
    congr 1
    apply List.map_congr_left
    intro c hc
    exact Clause.texts_sorted (h.terms c hc)
  have hPerm : (nf.clauses.map Clause.termSet).Perm (other.clauses.map Clause.termSet) :=
    List.perm_of_nodup_nodup_toFinset_eq h.clauses hOther.clauses (same_iff.1 hSame)
  rw [hOrdered h, hOrdered hOther]
  exact mergeSort_eq_of_perm Clause.textsBefore_trans Clause.textsBefore_total
    Clause.textsBefore_antisymm (hPerm.map Clause.orderedTexts)

/-- Normal forms with the same clauses are written alike, however they are listed. -/
theorem text_eq_of_same {nf other : NormalForm} (h : nf.Distinct) (hOther : other.Distinct)
    (hSame : nf.same other = true) : nf.text = other.text := by
  rw [text_eq_writeFlat, text_eq_writeFlat, map_texts_sortedClauses_eq h hOther hSame]

end NormalForm

/-! ### Reading back -/

/-- The text of the normal form of an expression is parsed to one with the same clauses. -/
theorem Expr.exists_text_parse {k : Lookup} (hLegible : k.catalog.Legible) {e : Expr}
    (hLicense : e.IsLicense) (hNames : ∀ l ∈ e.leaves, k.Names l) :
    ∃ nf written f, e.normalForm = .ok nf ∧ nf.sets = e.clauseSets ∧ nf.text = .ok written ∧
      (parse k written).value = .ok f ∧ f.clauseSets = e.clauseSets := by
  obtain ⟨nf, hNormal, hSets, hDrawn⟩ := exists_normalForm hLicense
  obtain ⟨f, ls, hTree, hExpands, hTerms⟩ :=
    NormalForm.exists_toExpr (inhabited_of_sets_eq hLicense hSets)
  have hWritten : ∀ l ∈ f.leaves, k.Names l := by
    intro l hl
    rw [hExpands.leaves_eq] at hl
    obtain ⟨c, hc, t, ht, hLeaf⟩ := hTerms l hl
    exact hNames l (hDrawn c hc t ht l hLeaf)
  have hRead := readsBack_of_isLicense hLegible hExpands.isLicense hWritten
  refine ⟨nf, f.render, f.leftNested, hNormal, hSets, ?_, hRead.parsed, ?_⟩
  · unfold NormalForm.text
    rw [hTree]
    rfl
  · rw [hRead.rebracketed.clauseSets_eq hExpands.isLicense, hExpands.clauseSets_eq, hSets]

/-- Expressions of one catalog are equivalent exactly when their normal forms have one text; and the
text of a normal form is the same for every listing of its clauses and of their terms. -/
theorem text_canonical :
    (∀ (c : Catalog) (first second : Strictness), c.Legible → ∀ text other a b,
      (parse ⟨c, first⟩ text).value = .ok a → (parse ⟨c, second⟩ other).value = .ok b →
      ∀ threshold, ∃ nf nf' written written',
        (a.normalize threshold).run.value = .ok nf ∧ nf.text = .ok written ∧
        (b.normalize threshold).run.value = .ok nf' ∧ nf'.text = .ok written' ∧
        ((a.isEquivalent b).run.value = .ok true ↔ written = written')) ∧
    ∀ nf other : NormalForm, nf.Distinct → other.Distinct → nf.same other = true →
      nf.text = other.text := by
  constructor
  · intro c first second hLegible text other a b hFirst hSecond threshold
    -- Both texts are parsed alike when everything is accepted, which leaves one reading of a name.
    have hRead {strictness : Strictness} {text : String} {e : Expr}
        (hParse : (parse ⟨c, strictness⟩ text).value = .ok e) :=
      Expr.exists_text_parse (k := ⟨c, .allowAny⟩) hLegible (isLicense_of_parse hParse)
        fun l hl => Lookup.names_of_yields ⟨text, e, parse_lenient hParse, hl⟩
    obtain ⟨nf, written, f, hNormal, hSets, hText, hParsed, hBack⟩ := hRead hFirst
    obtain ⟨nf', written', f', hNormal', hSets', hText', hParsed', hBack'⟩ := hRead hSecond
    refine ⟨nf, nf', written, written', ?_, hText, ?_, hText', ?_⟩
    · rw [Expr.value_normalize, hNormal]
    · rw [Expr.value_normalize, hNormal']
    rw [Expr.value_isEquivalent (isLicense_of_parse hFirst) (isLicense_of_parse hSecond),
      Except.ok.injEq, decide_eq_true_iff]
    constructor
    · intro hEqual
      have hSame : nf.same nf' = true := by rw [NormalForm.same_iff, hSets, hSets', hEqual]
      have hTexts := NormalForm.text_eq_of_same (NormalForm.distinct_of_normalForm hNormal)
        (NormalForm.distinct_of_normalForm hNormal') hSame
      rw [hText, hText'] at hTexts
      exact Except.ok.inj hTexts
    · rintro rfl
      obtain rfl := Except.ok.inj (hParsed.symm.trans hParsed')
      rw [← hBack, hBack']
  · intro nf other h hOther hSame
    exact NormalForm.text_eq_of_same h hOther hSame

/-- Two licenses in either order, and a clause with two terms that are written alike. -/
theorem text_canonical_reordered :
    let a : Expr := .license (.reference "LicenseRef-a")
    let b : Expr := .license (.reference "LicenseRef-b")
    let listed : Term := ⟨.listed "MIT" false false, none⟩
    let written : Term := ⟨.reference "MIT", none⟩
    let nf : NormalForm := ⟨[[listed, written], [written]]⟩
    let other : NormalForm := ⟨[[written], [written, listed]]⟩
    (∃ nf nf' written written',
      ((Expr.join b .or a).normalize 64).run.value = .ok nf ∧ nf.text = .ok written ∧
      ((Expr.join a .or b).normalize 64).run.value = .ok nf' ∧ nf'.text = .ok written' ∧
      (((Expr.join b .or a).isEquivalent (.join a .or b)).run.value = .ok true ↔
        written = written')) ∧
    nf.Distinct ∧ other.Distinct ∧ nf.same other = true ∧ nf.text = other.text := by
  intro a b listed written nf other
  have hLegible : Catalog.Legible ⟨[], []⟩ := by
    refine ⟨⟨?_, ?_⟩, ?_⟩ <;>
    · intro id e hFound
      cases hFound
  have hFirst : (parse ⟨⟨[], []⟩, .allowAny⟩ "LicenseRef-b or LicenseRef-a").value =
      .ok (.join b .or a) := by
    decide +kernel
  have hSecond : (parse ⟨⟨[], []⟩, .allowCurrent⟩ "(LicenseRef-a) OR LicenseRef-b").value =
      .ok (.join a .or b) := by
    decide +kernel
  have hListing : nf.Distinct := ⟨by decide, by decide⟩
  have hReordered : other.Distinct := ⟨by decide, by decide⟩
  have hSame : nf.same other = true := by decide
  obtain ⟨hTexts, hListings⟩ := text_canonical
  exact ⟨hTexts ⟨[], []⟩ .allowAny .allowCurrent hLegible _ _ _ _ hFirst hSecond 64, hListing,
    hReordered, hSame, hListings nf other hListing hReordered hSame⟩

end Licensing
