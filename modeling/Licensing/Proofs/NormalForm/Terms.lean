import Licensing.Proofs.Expr.Queries
import Licensing.Proofs.NormalForm.Congruence
import Licensing.Proofs.NormalForm.Distinct

/-!
The terms of an expression. The tree, read from left to right, has the terms that its clauses have,
flags aside: every clause of an operand is part of a clause of the whole, so distributing and
collapsing lose none of them, and no term comes from anywhere else. Hence the identifiers that are
asked of the tree are those in the terms of its normal form.
-/

namespace Licensing

/-- The exception of a term keeps its identifier without flags. -/
theorem Term.exists_exception_bare_iff (t : Term) (id : String) :
    (∃ x ∈ t.bare.exception, x.id = id) ↔ ∃ x ∈ t.exception, x.id = id := by
  obtain ⟨l, x⟩ := t
  cases x with
  | none => rfl
  | some x => simp [bare, LicenseException.bare]

namespace Clause

theorem termSet_append (c d : Clause) : termSet (c ++ d) = c.termSet ∪ d.termSet := by
  rw [termSet, List.map_append, List.toFinset_append]
  rfl

/-- What does not depend on flags holds of some element of the set when it holds of some term. -/
theorem exists_mem_termSet_iff {c : Clause} {p : Term → Prop} (hp : ∀ t, p t.bare ↔ p t) :
    (∃ t ∈ c.termSet, p t) ↔ ∃ t ∈ c, p t := by
  constructor
  · rintro ⟨_, ht, hHolds⟩
    obtain ⟨t, hIn, rfl⟩ := mem_termSet.1 ht
    exact ⟨t, hIn, (hp t).1 hHolds⟩
  · rintro ⟨t, ht, hHolds⟩
    exact ⟨t.bare, mem_termSet.2 ⟨t, ht, rfl⟩, (hp t).2 hHolds⟩

end Clause

theorem NormalForm.exists_mem_allTerms_iff {nf : NormalForm} {p : Term → Prop}
    (hp : ∀ t, p t.bare ↔ p t) :
    (∃ t ∈ Expr.allTerms nf.sets, p t) ↔ ∃ c ∈ nf.clauses, ∃ t ∈ c, p t := by
  constructor
  · rintro ⟨t, ht, hHolds⟩
    obtain ⟨s, hs, hIn⟩ := Expr.mem_allTerms.1 ht
    obtain ⟨c, hc, rfl⟩ := Clauses.mem_sets.1 hs
    exact ⟨c, hc, (Clause.exists_mem_termSet_iff hp).1 ⟨t, hIn, hHolds⟩⟩
  · rintro ⟨c, hc, hTerm⟩
    obtain ⟨t, ht, hHolds⟩ := (Clause.exists_mem_termSet_iff hp).2 hTerm
    exact ⟨t, Expr.mem_allTerms.2 ⟨c.termSet, Clauses.mem_sets.2 ⟨c, hc, rfl⟩, ht⟩, hHolds⟩

namespace Expr

variable {e : Expr}

theorem terms_join {op : Operator} (hOp : op ≠ .attach) (attached : Option LicenseException)
    (left right : Expr) :
    (join left op right).terms attached = left.terms attached ++ right.terms attached := by
  cases op with
  | attach => exact absurd rfl hOp
  | or => rfl
  | and => rfl

theorem terms_ne_nil (h : e.IsLicense) (attached : Option LicenseException) :
    e.terms attached ≠ [] := by
  induction e, h using isLicense_induction generalizing attached with
  | single l => simp [terms]
  | attach left x hLeft hFree ih => exact ih (some x)
  | join left op right hOp hLeft hRight ihLeft ihRight =>
      rw [terms_join hOp]
      exact List.append_ne_nil_of_left_ne_nil (ihLeft attached) _

/-- The terms of an expression without exceptions have the one that is attached from outside. -/
theorem terms_eq_map (h : e.IsLicense) (hFree : e.hasAttachment = false)
    (attached : Option LicenseException) :
    e.terms attached = (e.terms none).map fun t => { t with exception := attached } := by
  induction e, h using isLicense_induction with
  | single l => rfl
  | attach left x hLeft hNone ih => simp [hasAttachment] at hFree
  | join left op right hOp hLeft hRight ihLeft ihRight =>
      rw [hasAttachment_join hOp, Bool.or_eq_false_iff] at hFree
      rw [terms_join hOp, terms_join hOp, List.map_append, ihLeft hFree.1, ihRight hFree.2]

theorem exception_of_mem_terms (h : e.IsLicense) (hFree : e.hasAttachment = false)
    {attached : Option LicenseException} {t : Term} (ht : t ∈ e.terms attached) :
    t.exception = attached := by
  rw [terms_eq_map h hFree] at ht
  obtain ⟨u, -, rfl⟩ := List.mem_map.1 ht
  rfl

/-- The clauses have the terms of the tree. -/
theorem allTerms_clauseSets (h : e.IsLicense) :
    allTerms e.clauseSets = Clause.termSet (e.terms none) := by
  induction e, h using isLicense_induction with
  | single l => rfl
  | attach left x hLeft hFree ih =>
      rw [clauseSets, allTerms_image, ih, ← Clause.termSet_map_grant]
      exact congrArg Clause.termSet (terms_eq_map hLeft hFree (some x)).symm
  | join left op right hOp hLeft hRight ihLeft ihRight =>
      rw [clauseSets_join hOp, allTerms_joinSets op (clauseSets_nonempty hLeft)
        (clauseSets_nonempty hRight), ihLeft, ihRight, terms_join hOp, Clause.termSet_append]

/-- Whatever is asked of the terms of a normal form can be asked of those of the tree. -/
theorem exists_term_iff {nf : NormalForm} (h : e.IsLicense) (hSets : nf.sets = e.clauseSets)
    {p : Term → Prop} (hp : ∀ t, p t.bare ↔ p t) :
    (∃ c ∈ nf.clauses, ∃ t ∈ c, p t) ↔ ∃ t ∈ e.terms none, p t := by
  rw [← NormalForm.exists_mem_allTerms_iff hp, hSets, allTerms_clauseSets h,
    Clause.exists_mem_termSet_iff hp]

/-! ### Identifiers -/

/-- The license leaves are those of the terms, one for each, in their order. -/
theorem filterMap_licenseId?_leaves (h : e.IsLicense) (attached : Option LicenseException) :
    e.leaves.filterMap Leaf.licenseId? = (e.terms attached).map fun t => t.license.id := by
  induction e, h using isLicense_induction generalizing attached with
  | single l => rfl
  | attach left x hLeft hFree ih =>
      rw [leaves, List.filterMap_append, ih (some x)]
      exact List.append_nil _
  | join left op right hOp hLeft hRight ihLeft ihRight =>
      rw [leaves, List.filterMap_append, ihLeft attached, ihRight attached, terms_join hOp,
        List.map_append]

/-- Every exception of the tree is attached to one of its terms at least. -/
theorem mem_filterMap_exceptionId?_iff (h : e.IsLicense) {id : String} :
    id ∈ e.leaves.filterMap Leaf.exceptionId? ↔
      ∃ t ∈ e.terms none, ∃ x ∈ t.exception, x.id = id := by
  induction e, h using isLicense_induction with
  | single l => simp [leaves, Leaf.exceptionId?, terms]
  | attach left x hLeft hFree ih =>
      have hNone : id ∉ left.leaves.filterMap Leaf.exceptionId? := by
        rw [ih]
        rintro ⟨t, ht, y, hy, -⟩
        rw [exception_of_mem_terms hLeft hFree ht] at hy
        cases hy
      have hRight : id ∈ (join left .attach (exception x)).leaves.filterMap Leaf.exceptionId? ↔
          x.id = id := by
        rw [leaves, List.filterMap_append, List.mem_append, or_iff_right hNone]
        simp [leaves, Leaf.exceptionId?, eq_comm]
      rw [hRight]
      constructor
      · intro hId
        obtain ⟨t, ht⟩ := List.exists_mem_of_ne_nil _ (terms_ne_nil hLeft (some x))
        exact ⟨t, ht, x, exception_of_mem_terms hLeft hFree ht, hId⟩
      · rintro ⟨t, ht, y, hy, hId⟩
        rw [exception_of_mem_terms hLeft hFree ht] at hy
        obtain rfl := Option.some.inj hy
        exact hId
  | join left op right hOp hLeft hRight ihLeft ihRight =>
      rw [leaves, List.filterMap_append, List.mem_append, ihLeft, ihRight, terms_join hOp]
      simp only [List.mem_append, or_and_right, exists_or]

/-- The identifiers of the licenses in a tree are those in the terms of its normal form, and so are
the identifiers of its exceptions. Each is listed once. -/
theorem identifiers_of_clauses (he : e.Proper) :
    ∃ nf ids exceptions, (∀ threshold, (e.normalize threshold).run.value = .ok nf) ∧
      e.licenseIds = .ok ids ∧ ids.Nodup ∧
      (∀ id, id ∈ ids ↔ ∃ c ∈ nf.clauses, ∃ t ∈ c, t.license.id = id) ∧
      e.exceptionIds = .ok exceptions ∧ exceptions.Nodup ∧
      ∀ id, id ∈ exceptions ↔ ∃ c ∈ nf.clauses, ∃ t ∈ c, ∃ x ∈ t.exception, x.id = id := by
  have hLicense := isLicense_iff_proper.2 he
  obtain ⟨nf, hNormal, hSets, -⟩ := exists_normalForm hLicense
  refine ⟨nf, _, _, fun threshold => by rw [value_normalize, hNormal],
    collect_of_isLicense Leaf.licenseId? hLicense, nodup_distinctOn _, fun id => ?_,
    collect_of_isLicense Leaf.exceptionId? hLicense, nodup_distinctOn _, fun id => ?_⟩
  · rw [mem_distinctOn_iff, filterMap_licenseId?_leaves hLicense none, List.mem_map,
      exists_term_iff hLicense hSets fun t => by rw [Term.bare, License.id_bare]]
  · rw [mem_distinctOn_iff, mem_filterMap_exceptionId?_iff hLicense,
      exists_term_iff hLicense hSets fun t => t.exists_exception_bare_iff id]

/-- Two exceptions below a product, and a clause that occurs twice. -/
theorem identifiers_of_clauses_product :
    let a := license (.reference "LicenseRef-a")
    let b := license (.listed "GPL-2.0" true true)
    let x := exception ⟨"LLVM-exception", false⟩
    let y := exception ⟨"Bison-exception-2.2", false⟩
    let e := join (join (join a .or (join b .and a)) .attach x) .and
      (join (join b .attach y) .or (join b .attach y))
    e.Proper ∧ ∃ nf ids exceptions, (e.normalize 64).run.value = .ok nf ∧ nf.size = 2 ∧
      e.licenseIds = .ok ids ∧ ids = ["LicenseRef-a", "GPL-2.0"] ∧
      (∀ id, id ∈ ids ↔ ∃ c ∈ nf.clauses, ∃ t ∈ c, t.license.id = id) ∧
      e.exceptionIds = .ok exceptions ∧ exceptions = ["LLVM-exception", "Bison-exception-2.2"] ∧
      ∀ id, id ∈ exceptions ↔ ∃ c ∈ nf.clauses, ∃ t ∈ c, ∃ x ∈ t.exception, x.id = id := by
  intro a b x y e
  have hProper : e.Proper := isLicense_iff_proper.1
    ⟨⟨⟨trivial, trivial, trivial⟩, rfl⟩, ⟨trivial, rfl⟩, trivial, rfl⟩
  obtain ⟨nf, ids, exceptions, hNormal, hIds, -, hLicenses, hExceptionIds, -, hExceptions⟩ :=
    identifiers_of_clauses hProper
  have hSize : (e.normalize 64).run.value.map NormalForm.size = .ok 2 := by decide +kernel
  have hListed : e.licenseIds = .ok ["LicenseRef-a", "GPL-2.0"] := by decide +kernel
  have hAttached : e.exceptionIds = .ok ["LLVM-exception", "Bison-exception-2.2"] := by
    decide +kernel
  refine ⟨hProper, nf, ids, exceptions, hNormal 64, ?_, hIds, ?_, hLicenses, hExceptionIds, ?_,
    hExceptions⟩
  · rw [hNormal] at hSize
    exact Except.ok.inj hSize
  · exact Except.ok.inj (hIds.symm.trans hListed)
  · exact Except.ok.inj (hExceptionIds.symm.trans hAttached)

end Expr

end Licensing
