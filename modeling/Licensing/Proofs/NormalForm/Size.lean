import Mathlib.Data.Finset.Powerset
import Licensing.Proofs.NormalForm.Choices
import Licensing.Proofs.NormalForm.Terms

/-!
The size of a normal form. `Expr.alternatives` counts the ways through a tree; there are at least as
many of them as clauses, and just as many when no term occurs twice. For then the operands of an
operator have no term in common, so no clause of one is a clause of the other, and a union of two
clauses shows which two they were.

A normal form that is larger than the caller wants is reported once, with its size.
-/

namespace Licensing.Expr

variable {e : Expr}

/-- What an operator makes of the numbers of ways through its operands. -/
def joinCount (op : Operator) (left right : Nat) : Nat :=
  match op with
  | .or => left + right
  | _ => left * right

theorem alternatives_join {op : Operator} (hOp : op ≠ .attach) (left right : Expr) :
    (join left op right).alternatives = joinCount op left.alternatives right.alternatives := by
  cases op with
  | attach => exact absurd rfl hOp
  | or => rfl
  | and => rfl

theorem joinCount_mono (op : Operator) {m m' n n' : Nat} (hm : m ≤ m') (hn : n ≤ n') :
    joinCount op m n ≤ joinCount op m' n' := by
  cases op with
  | or => exact Nat.add_le_add hm hn
  | and => exact Nat.mul_le_mul hm hn
  | attach => exact Nat.mul_le_mul hm hn

/-- An operator leaves no more clauses than it has ways. -/
theorem card_joinSets_le (op : Operator) (s r : Finset (Finset Term)) :
    (joinSets op s r).card ≤ joinCount op s.card r.card := by
  cases op with
  | or => exact Finset.card_union_le s r
  | and => exact Finset.card_image₂_le _ s r
  | attach => exact Finset.card_image₂_le _ s r

/-- There are no more clauses than ways through the tree. -/
theorem card_clauseSets_le (h : e.IsLicense) : e.clauseSets.card ≤ e.alternatives := by
  induction e, h using isLicense_induction with
  | single l => exact le_refl 1
  | attach left x hLeft hFree ih => exact Finset.card_image_le.trans ih
  | join left op right hOp hLeft hRight ihLeft ihRight =>
      rw [clauseSets_join hOp, alternatives_join hOp]
      exact (card_joinSets_le op _ _).trans (joinCount_mono op ihLeft ihRight)

/-! ### Terms that occur once -/

theorem subset_allTerms {sets : Finset (Finset Term)} {s : Finset Term} (hs : s ∈ sets) :
    s ⊆ allTerms sets :=
  Finset.subset_biUnion_of_mem id hs

/-- A union shows which part of it is drawn from given terms, when the rest has none of them. -/
theorem left_eq_of_union_eq {terms others s s' r r' : Finset Term} (hApart : Disjoint terms others)
    (hs : s ⊆ terms) (hs' : s' ⊆ terms) (hr : r ⊆ others) (hr' : r' ⊆ others)
    (h : s ∪ r = s' ∪ r') : s = s' := by
  have hDrawn {q p : Finset Term} (hq : q ⊆ terms) (hp : p ⊆ others) : (q ∪ p) ∩ terms = q := by
    have hRest : p ∩ terms = ∅ := Finset.disjoint_iff_inter_eq_empty.1 (hApart.symm.mono_left hp)
    rw [Finset.union_inter_distrib_right, Finset.inter_eq_left.2 hq, hRest, Finset.union_empty]
  rw [← hDrawn hs hr, h, hDrawn hs' hr']

/-- Operands without a common term lose no clause to each other. -/
theorem card_joinSets_eq (op : Operator) {s r : Finset (Finset Term)}
    (hFilled : ∀ q ∈ s, q.Nonempty) (hApart : Disjoint (allTerms s) (allTerms r)) :
    (joinSets op s r).card = joinCount op s.card r.card := by
  have hProduct : (Finset.image₂ (· ∪ ·) s r).card = s.card * r.card := by
    rw [Finset.card_image₂_iff]
    rintro ⟨q, p⟩ hPair ⟨q', p'⟩ hOther hUnion
    obtain ⟨hq, hp⟩ : q ∈ s ∧ p ∈ r := hPair
    obtain ⟨hq', hp'⟩ : q' ∈ s ∧ p' ∈ r := hOther
    change q ∪ p = q' ∪ p' at hUnion
    have hFirst : q = q' := left_eq_of_union_eq hApart (subset_allTerms hq) (subset_allTerms hq')
      (subset_allTerms hp) (subset_allTerms hp') hUnion
    rw [Finset.union_comm q, Finset.union_comm q'] at hUnion
    have hSecond : p = p' := left_eq_of_union_eq hApart.symm (subset_allTerms hp)
      (subset_allTerms hp') (subset_allTerms hq) (subset_allTerms hq') hUnion
    rw [hFirst, hSecond]
  have hSum : (s ∪ r).card = s.card + r.card := by
    apply Finset.card_union_of_disjoint
    rw [Finset.disjoint_left]
    intro q hs hr
    obtain ⟨t, ht⟩ := hFilled q hs
    exact Finset.disjoint_left.1 hApart (subset_allTerms hs ht) (subset_allTerms hr ht)
  cases op with
  | or => exact hSum
  | and => exact hProduct
  | attach => exact hProduct

/-- Attaching an exception to clauses that have none makes no two of them equal. -/
theorem card_image_grant (h : e.IsLicense) (hFree : e.hasAttachment = false)
    (x : LicenseException) :
    (e.clauseSets.image (Finset.image (Term.grant x))).card = e.clauseSets.card := by
  have hNone : ∀ t ∈ allTerms e.clauseSets, t.exception = none := by
    intro t ht
    rw [allTerms_clauseSets h] at ht
    obtain ⟨u, hu, rfl⟩ := Clause.mem_termSet.1 ht
    rw [Term.bare, exception_of_mem_terms h hFree hu]
    rfl
  have hInjective : Set.InjOn (Term.grant x) (allTerms e.clauseSets) := by
    intro t ht u hu hGranted
    obtain ⟨l, y⟩ := t
    obtain ⟨m, z⟩ := u
    obtain rfl : y = none := hNone _ ht
    obtain rfl : z = none := hNone _ hu
    rw [Term.mk.injEq]
    exact ⟨congrArg Term.license hGranted, rfl⟩
  exact Finset.card_image_of_injOn (Finset.injOn_image_of_biUnion_injOn hInjective)

/-- With no term twice every way through the tree is a clause of its own. -/
theorem card_clauseSets_eq (h : e.IsLicense) (hOnce : ((e.terms none).map Term.bare).Nodup) :
    e.clauseSets.card = e.alternatives := by
  induction e, h using isLicense_induction with
  | single l => rfl
  | attach left x hLeft hFree ih =>
      have hTerms : ((join left .attach (exception x)).terms none).map Term.bare =
          ((left.terms none).map Term.bare).map (Term.grant x.bare) := by
        rw [terms, terms_eq_map hLeft hFree, List.map_map, List.map_map]
        rfl
      rw [hTerms] at hOnce
      rw [clauseSets, card_image_grant hLeft hFree, ih hOnce.of_map]
      rfl
  | join left op right hOp hLeft hRight ihLeft ihRight =>
      rw [terms_join hOp, List.map_append, List.nodup_append'] at hOnce
      obtain ⟨hOnceLeft, hOnceRight, hApart⟩ := hOnce
      have hTerms : Disjoint (allTerms left.clauseSets) (allTerms right.clauseSets) := by
        rw [allTerms_clauseSets hLeft, allTerms_clauseSets hRight]
        exact List.disjoint_toFinset_iff_disjoint.2 hApart
      rw [clauseSets_join hOp, card_joinSets_eq op (nonempty_of_mem_clauseSets hLeft) hTerms,
        ihLeft hOnceLeft, ihRight hOnceRight, alternatives_join hOp]

/-- The threshold decides whether the size is reported, and about nothing else. -/
theorem run_normalize {nf : NormalForm} (h : e.normalForm = .ok nf) (threshold : Int) :
    (e.normalize threshold).run = ⟨.ok nf,
      if threshold < nf.size then [.largeNormalForm nf.size threshold e.text] else []⟩ := by
  unfold normalize
  rw [h]
  change Log.Logged.mk _ (e.sizeEvent? threshold nf).toList = _
  rw [sizeEvent?, render_eq_text]
  split
  · rfl
  · rfl

/-- A normal form has at least one clause, none of them empty, and at most as many as there are ways
through the tree; just as many when the terms of the tree differ from each other. When it has more
than the threshold allows, this is reported once, and otherwise nothing is. -/
theorem normalize_size_report (he : e.Proper) :
    ∃ nf, (∀ c ∈ nf.clauses, c ≠ []) ∧ 1 ≤ nf.size ∧ nf.size ≤ e.alternatives ∧
      ((e.terms none).Pairwise (fun t u => t.same u = false) → nf.size = e.alternatives) ∧
      ∀ threshold, (e.normalize threshold).run.value = .ok nf ∧
        (e.normalize threshold).run.events =
          if threshold < nf.size then [.largeNormalForm nf.size threshold e.text] else [] := by
  have hLicense := isLicense_iff_proper.2 he
  obtain ⟨nf, hNormal, hSets, -⟩ := exists_normalForm hLicense
  have hSize := size_eq_card hLicense hNormal
  refine ⟨nf, (inhabited_of_sets_eq hLicense hSets).terms, ?_, ?_, fun hOnce => ?_,
    fun threshold => ?_⟩
  · rw [hSize]
    exact (clauseSets_nonempty hLicense).card_pos
  · rw [hSize]
    exact card_clauseSets_le hLicense
  · rw [hSize]
    apply card_clauseSets_eq hLicense
    refine List.pairwise_map.2 (hOnce.imp fun {t u} hApart hSame => ?_)
    rw [(Term.same_iff t u).2 hSame] at hApart
    cases hApart
  · rw [run_normalize hNormal]
    exact ⟨rfl, rfl⟩

/-- One license with and without an exception is two terms. Each of the four ways through the
product is a clause, which is one too many for a threshold of three. -/
theorem normalize_size_report_product :
    let a := license (.reference "LicenseRef-a")
    let b := license (.reference "LicenseRef-b")
    let mit := license (.listed "MIT" false false)
    let e := join (join (join a .or b) .attach (exception ⟨"LLVM-exception", false⟩)) .and
      (join a .or mit)
    e.Proper ∧ (e.terms none).Pairwise (fun t u => t.same u = false) ∧
      ∃ nf, (e.normalize 3).run.value = .ok nf ∧ nf.size = 4 ∧
        (e.normalize 3).run.events = [.largeNormalForm 4 3
          "(LicenseRef-a OR LicenseRef-b) WITH LLVM-exception AND (LicenseRef-a OR MIT)"] ∧
        (e.normalize 4).run.events = [] := by
  intro a b mit e
  have hProper : e.Proper :=
    isLicense_iff_proper.1 ⟨⟨⟨trivial, trivial⟩, rfl⟩, trivial, trivial⟩
  have hOnce : (e.terms none).Pairwise (fun t u => t.same u = false) := by decide
  obtain ⟨nf, -, -, -, hExact, hRun⟩ := normalize_size_report hProper
  have hSize : nf.size = 4 := hExact hOnce
  refine ⟨hProper, hOnce, nf, (hRun 3).1, hSize, ?_, ?_⟩
  · rw [(hRun 3).2, hSize]
    rfl
  · rw [(hRun 4).2, hSize]
    rfl

end Licensing.Expr
