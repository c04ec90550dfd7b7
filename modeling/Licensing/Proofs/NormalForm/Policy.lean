import Licensing.Expr.Meaning
import Licensing.Proofs.NormalForm.ClauseSets

/-!
A normal form decides about allowed licenses as its expression reads. Whether some clause is allowed
is a question about the set of clauses and the texts of their terms; `permits_iff` answers it for
the tree, with an exception attached from outside, so that `WITH` is one step of the induction.
-/

namespace Licensing

theorem License.text_bare (l : License) : l.bare.text = l.text := by
  cases l with
  | listed id orLater deprecated => rfl
  | reference raw => rfl

namespace Term

def attach (attached : Option LicenseException) (t : Term) : Term :=
  attached.elim t fun x => t.grant x

theorem text_eq (t : Term) :
    t.text = t.exception.elim t.license.text fun x => t.license.text ++ " WITH " ++ x.id := by
  obtain ⟨l, x⟩ := t
  cases x with
  | none => exact Expr.render_eq_text _
  | some x =>
      rw [text, Expr.render_eq_text]
      simp only [toExpr, Expr.text, Expr.needsParens, Expr.enclose, Leaf.text, Operator.word,
        Bool.false_eq_true, if_false, Option.elim_some, String.append_assoc]
      rfl

theorem text_bare (t : Term) : t.bare.text = t.text := by
  obtain ⟨l, x⟩ := t
  rw [text_eq, text_eq]
  cases x with
  | none => exact l.text_bare
  | some x => simp [bare, License.text_bare, LicenseException.bare]

theorem text_attach_bare (x : LicenseException) (t : Term) :
    (t.grant x.bare).text = (t.grant x).text := by
  rw [text_eq, text_eq]
  rfl

end Term

theorem NormalForm.isSatisfiedBy_iff (nf : NormalForm) (allowed : List String) :
    nf.isSatisfiedBy allowed = true ↔ ∃ s ∈ nf.sets, ∀ t ∈ s, t.text ∈ allowed := by
  simp only [isSatisfiedBy, List.any_eq_true, List.all_eq_true, List.contains_iff_mem]
  constructor
  · intro ⟨c, hc, hAll⟩
    refine ⟨c.termSet, Clauses.mem_sets.2 ⟨c, hc, rfl⟩, ?_⟩
    intro t ht
    obtain ⟨u, hu, rfl⟩ := Clause.mem_termSet.1 ht
    rw [Term.text_bare]
    exact hAll u hu
  · intro ⟨s, hs, hAll⟩
    obtain ⟨c, hc, rfl⟩ := Clauses.mem_sets.1 hs
    refine ⟨c, hc, ?_⟩
    intro t ht
    have hAllowed := hAll t.bare (Clause.mem_termSet.2 ⟨t, ht, rfl⟩)
    rwa [Term.text_bare] at hAllowed

namespace Expr

/-- What a tree permits is what some clause of it permits, with the exception that is attached from
outside. The induction is on the tree, for any such exception. -/
theorem permits_iff {e : Expr} (h : e.IsLicense) (allowed : List String)
    (attached : Option LicenseException) (hFree : attached ≠ none → e.hasAttachment = false) :
    e.permits allowed attached = true ↔
      ∃ s ∈ e.clauseSets, ∀ t ∈ s, (t.attach attached).text ∈ allowed := by
  induction e, h using isLicense_induction generalizing attached with
  | single l =>
      have hText (x : LicenseException) :
          (Term.mk l.bare (some x)).text = l.text ++ " WITH " ++ x.id := by
        rw [Term.text_eq, Option.elim_some, License.text_bare]
      have hBare : (Term.mk l.bare none).text = l.text := by
        rw [Term.text_eq, Option.elim_none, License.text_bare]
      cases attached with
      | none => simp [permits, clauseSets, Term.attach, hBare]
      | some x => simp [permits, clauseSets, Term.attach, Term.grant, hText]
  | attach left x hLeft hAttachment ih =>
      -- Nothing is attached from outside to a tree that has an exception.
      have hOutside : attached = none := by
        by_contra hSome
        have hNone := hFree hSome
        simp [hasAttachment] at hNone
      subst hOutside
      rw [permits, ih (some x) fun _ => hAttachment]
      simp [clauseSets, Term.attach, Term.text_attach_bare]
  | join left op right hOp hLeft hRight ihLeft ihRight =>
      have hFreeBoth : attached ≠ none →
          left.hasAttachment = false ∧ right.hasAttachment = false := by
        intro hSome
        have hNone := hFree hSome
        rw [hasAttachment_join hOp] at hNone
        exact Bool.or_eq_false_iff.1 hNone
      have hFirst := ihLeft attached fun hSome => (hFreeBoth hSome).1
      have hSecond := ihRight attached fun hSome => (hFreeBoth hSome).2
      cases op with
      | attach => exact absurd rfl hOp
      | or =>
          rw [permits, Bool.or_eq_true, hFirst, hSecond, clauseSets]
          simp only [Finset.mem_union, or_and_right, exists_or]
      | and =>
          rw [permits, Bool.and_eq_true, hFirst, hSecond, clauseSets]
          constructor
          · intro hBoth
            obtain ⟨⟨s, hs, hAll⟩, r, hr, hOther⟩ := hBoth
            refine ⟨s ∪ r, Finset.mem_image₂_of_mem hs hr, ?_⟩
            intro t ht
            rcases Finset.mem_union.1 ht with hIn | hIn
            · exact hAll t hIn
            · exact hOther t hIn
          · intro hUnion
            obtain ⟨u, hu, hAll⟩ := hUnion
            obtain ⟨s, hs, r, hr, rfl⟩ := Finset.mem_image₂.1 hu
            exact ⟨⟨s, hs, fun t ht => hAll t (Finset.mem_union_left r ht)⟩,
              r, hr, fun t ht => hAll t (Finset.mem_union_right s ht)⟩

/-- Every expression that can be built has a normal form, which any list of allowed texts satisfies
exactly when the tree, read directly, permits it; and allowing more never takes this back. -/
theorem normalize_isSatisfiedBy_eq_permits (e : Expr) (hProper : e.Proper) (threshold : Int) :
    ∃ nf, (e.normalize threshold).run.value = .ok nf ∧
      (∀ allowed, nf.isSatisfiedBy allowed = e.permits allowed none) ∧
      ∀ allowed more, allowed ⊆ more →
        nf.isSatisfiedBy allowed = true → nf.isSatisfiedBy more = true := by
  have hLicense := isLicense_iff_proper.2 hProper
  obtain ⟨nf, hNormal, hSets, -⟩ := exists_normalForm hLicense
  refine ⟨nf, by rw [value_normalize, hNormal], ?_, ?_⟩
  · intro allowed
    rw [Bool.eq_iff_iff, nf.isSatisfiedBy_iff, hSets,
      permits_iff hLicense allowed none fun h => absurd rfl h]
    rfl
  · intro allowed more hMore h
    obtain ⟨s, hs, hAll⟩ := (nf.isSatisfiedBy_iff allowed).1 h
    exact (nf.isSatisfiedBy_iff more).2 ⟨s, hs, fun t ht => hMore (hAll t ht)⟩

/-- An exception counts for each license of the choice that it is attached to, and for no other. -/
theorem normalize_isSatisfiedBy_granted_choice :
    let choice :=
      join (license (.listed "MIT" false false)) .or (license (.reference "LicenseRef-a"))
    let e := join (join choice .attach (exception ⟨"LLVM-exception", false⟩)) .and
      (license (.listed "GPL-2.0" true true))
    e.Proper ∧ ∃ nf, (e.normalize 64).run.value = .ok nf ∧
      nf.isSatisfiedBy ["GPL-2.0+", "LicenseRef-a WITH LLVM-exception"] = true ∧
      nf.isSatisfiedBy ["GPL-2.0+ WITH LLVM-exception", "GPL-2.0+", "MIT"] = false := by
  intro choice e
  have hProper : e.Proper := by
    refine ⟨?_, ?_, ?_⟩
    · simp only [Buildable, e, choice]
      decide
    · simp [leaves, e, choice]
    · simp [e]
  obtain ⟨nf, hNormal, hPermits, -⟩ := normalize_isSatisfiedBy_eq_permits e hProper 64
  refine ⟨hProper, nf, hNormal, ?_, ?_⟩
  · rw [hPermits]
    decide
  · rw [hPermits]
    decide

end Expr

end Licensing
