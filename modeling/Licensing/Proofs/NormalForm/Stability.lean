import Licensing.Proofs.NormalForm.Expansion
import Licensing.Proofs.RoundTrip

/-!
Normal forms are stable: written out, as a tree or as a text, and normalized again, a normal form is
the same. Through trees this is a matter of the clauses alone; through text it also needs that the
terms come from a text, so that their leaves can be read back.
-/

namespace Licensing

namespace Expr

/-- Normalizing a tree that has the clauses of a normal form gives the same normal form. -/
theorem exists_normalize_same {e : Expr} (h : e.IsLicense) {nf : NormalForm}
    (hSets : e.clauseSets = nf.sets) (threshold : Int) :
    ∃ again, (e.normalize threshold).run.value = .ok again ∧ again.same nf = true := by
  obtain ⟨again, hAgain, hFound, -⟩ := exists_normalForm h
  refine ⟨again, by rw [value_normalize, hAgain], ?_⟩
  rw [NormalForm.same_iff, hFound, hSets]

end Expr

/-- Normalizing gives a normal form back, both from its tree, for every normal form that has a tree,
and from its text, for the normal form of every text that can be parsed. -/
theorem normalize_stable :
    (∀ nf : NormalForm, nf.clauses ≠ [] → (∀ c ∈ nf.clauses, c ≠ []) → ∀ threshold,
      ∃ e again, nf.toExpr = .ok e ∧ e.Proper ∧ (e.normalize threshold).run.value = .ok again ∧
        again.same nf = true) ∧
    ∀ k : Lookup, k.catalog.Legible → ∀ text e, (parse k text).value = .ok e → ∀ threshold,
      ∃ nf written f again, (e.normalize threshold).run.value = .ok nf ∧ nf.text = .ok written ∧
        (parse k written).value = .ok f ∧ (f.normalize threshold).run.value = .ok again ∧
        again.same nf = true := by
  constructor
  · intro nf hClauses hTerms threshold
    obtain ⟨e, ls, hTree, hExpands, -⟩ := NormalForm.exists_toExpr ⟨hClauses, hTerms⟩
    have hLicense := hExpands.isLicense
    obtain ⟨again, hAgain, hSame⟩ :=
      Expr.exists_normalize_same hLicense hExpands.clauseSets_eq threshold
    exact ⟨e, again, hTree, Expr.isLicense_iff_proper.1 hLicense, hAgain, hSame⟩
  · intro k hLegible text e hParse threshold
    have hLicense := isLicense_of_parse hParse
    obtain ⟨nf, hNormal, hSets, hDrawn⟩ := Expr.exists_normalForm hLicense
    obtain ⟨f, ls, hTree, hExpands, hTerms⟩ :=
      NormalForm.exists_toExpr (Expr.inhabited_of_sets_eq hLicense hSets)
    -- The leaves of the written tree were read from the text before.
    have hNames : ∀ l ∈ f.leaves, k.Names l := by
      intro l hl
      rw [hExpands.leaves_eq] at hl
      obtain ⟨c, hc, t, ht, hLeaf⟩ := hTerms l hl
      exact Lookup.names_of_yields ⟨text, e, hParse, hDrawn c hc t ht l hLeaf⟩
    have hRead := Expr.readsBack_of_isLicense hLegible hExpands.isLicense hNames
    have hMoved : f.leftNested.clauseSets = nf.sets := by
      rw [hRead.rebracketed.clauseSets_eq hExpands.isLicense, hExpands.clauseSets_eq]
    obtain ⟨again, hAgain, hSame⟩ := Expr.exists_normalize_same
      (hRead.rebracketed.isLicense hExpands.isLicense) hMoved threshold
    refine ⟨nf, f.render, f.leftNested, again, ?_, ?_, hRead.parsed, hAgain, hSame⟩
    · rw [Expr.value_normalize, hNormal]
    · unfold NormalForm.text
      rw [hTree]
      rfl

/-- Two clauses that are given with their terms in another order than they are written in, and a
text whose normal form has two clauses. -/
theorem normalize_stable_unsorted :
    let mit : License := .listed "MIT" false false
    let custom : License := .reference "LicenseRef-a"
    let nf : NormalForm :=
      ⟨[[⟨mit, none⟩, ⟨custom, some ⟨"LLVM-exception", false⟩⟩], [⟨mit, none⟩]]⟩
    let k : Lookup := ⟨⟨[], []⟩, .allowAny⟩
    (∃ e again, nf.toExpr = .ok e ∧ (e.normalize 64).run.value = .ok again ∧
      again.same nf = true) ∧
    ∃ e nf written f again, (parse k "b AND (a OR b WITH x)").value = .ok e ∧
      (e.normalize 64).run.value = .ok nf ∧ nf.text = .ok written ∧
      (parse k written).value = .ok f ∧ (f.normalize 64).run.value = .ok again ∧
      again.same nf = true := by
  intro mit custom nf k
  have hLegible : k.catalog.Legible := by
    refine ⟨⟨?_, ?_⟩, ?_⟩ <;>
    · intro id e hFound
      cases hFound
  obtain ⟨hTree, hText⟩ := normalize_stable
  constructor
  · obtain ⟨e, again, hExpr, -, hAgain, hSame⟩ := hTree nf (by simp [nf]) (by simp [nf]) 64
    exact ⟨e, again, hExpr, hAgain, hSame⟩
  · have hParse : ∃ e, (parse k "b AND (a OR b WITH x)").value = .ok e := by
      refine ⟨.join (.license (.reference "b")) .and (.join (.license (.reference "a")) .or
        (.join (.license (.reference "b")) .attach (.exception ⟨"x", false⟩))), ?_⟩
      decide +kernel
    obtain ⟨e, hParse⟩ := hParse
    obtain ⟨nf, written, f, again, hStable⟩ := hText k hLegible _ e hParse 64
    exact ⟨e, nf, written, f, again, hParse, hStable⟩

end Licensing
