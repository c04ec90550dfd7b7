import Licensing.Proofs.NormalForm.ClauseSets

/-!
Listings without repetition. The clauses that are worked out from an expression, and the terms of
each of them, are listed once, flags aside; so the lists are permutations of each other whenever the
sets are the same.
-/

namespace Licensing

section Distinct

variable {α β : Type} {same : α → α → Bool} {key : α → β}

theorem nodup_map_unionOn (hSame : ∀ x y, same x y = true ↔ key x = key y) {xs : List α}
    (h : (xs.map key).Nodup) (ys : List α) : ((unionOn same xs ys).map key).Nodup := by
  induction ys generalizing xs with
  | nil => exact h
  | cons y rest ih =>
      rw [unionOn_cons]
      apply ih
      unfold addNew
      split
      · exact h
      · rename_i hNew
        have hKey : key y ∉ xs.map key := by
          intro hMem
          obtain ⟨x, hx, hEqual⟩ := List.mem_map.1 hMem
          exact hNew (List.any_eq_true.2 ⟨x, hx, (hSame y x).2 hEqual.symm⟩)
        rw [List.map_append, List.map_singleton]
        exact List.nodup_append.2 ⟨h, List.nodup_singleton _, by grind⟩

/-- Keeping the first of each kind leaves different keys. -/
theorem nodup_map_distinctOn (hSame : ∀ x y, same x y = true ↔ key x = key y) (xs : List α) :
    ((distinctOn same xs).map key).Nodup :=
  nodup_map_unionOn hSame (by simp) xs

theorem nodup_distinctOn [BEq α] [LawfulBEq α] (xs : List α) :
    (distinctOn (· == ·) xs).Nodup := by
  have hKey : ((distinctOn (· == ·) xs).map id).Nodup :=
    nodup_map_distinctOn (fun _ _ => beq_iff_eq) xs
  rwa [List.map_id] at hKey

end Distinct

namespace Clauses

/-- No two of the clauses have the same terms and no clause has a term twice, flags aside. -/
structure Distinct (cs : List Clause) : Prop where
  clauses : (cs.map Clause.termSet).Nodup
  terms : ∀ c ∈ cs, (c.map Term.bare).Nodup

variable {cs ds : List Clause}

theorem Distinct.union (hLeft : Distinct cs) (hRight : Distinct ds) : Distinct (union cs ds) where
  clauses := nodup_map_unionOn Clause.same_iff hLeft.clauses ds
  terms c hc := (mem_of_mem_unionOn hc).elim (hLeft.terms c) (hRight.terms c)

/-- Two pairs of clauses with the same terms are listed as one. -/
theorem Distinct.product (hLeft : Distinct cs) : Distinct (product cs ds) where
  clauses := nodup_map_distinctOn Clause.same_iff _
  terms b hb := by
    obtain ⟨c, hc, hPair⟩ := List.mem_flatMap.1 (mem_of_mem_distinctOn hb)
    obtain ⟨d, hd, rfl⟩ := List.mem_map.1 hPair
    exact nodup_map_unionOn Term.same_iff (hLeft.terms c hc) d

theorem distinct_grant (x : LicenseException) (cs : List Clause) : Distinct (grant x cs) where
  clauses := nodup_map_distinctOn Clause.same_iff _
  terms b hb := by
    obtain ⟨c, -, rfl⟩ := List.mem_map.1 (mem_of_mem_distinctOn hb)
    exact nodup_map_distinctOn Term.same_iff _

end Clauses

namespace Expr

/-- Whatever is worked out from an expression is listed once. -/
theorem distinct_of_clauses {e : Expr} {cs : List Clause} (h : e.clauses = .ok cs) :
    Clauses.Distinct cs := by
  induction e generalizing cs with
  | leaf l =>
      cases l with
      | license l =>
          obtain rfl := Except.ok.inj h
          exact ⟨by simp, by simp⟩
      | exception x => cases h
      | foreign v => cases h
  | join left op right ihLeft ihRight =>
      by_cases hOp : op = .attach
      · subst hOp
        obtain ⟨granted, -, hGranted⟩ := clauses_attach_eq_ok_iff.1 h
        unfold grantClauses at hGranted
        split at hGranted
        · obtain rfl := Except.ok.inj hGranted
          exact Clauses.distinct_grant _ _
        · cases hGranted
      · obtain ⟨ofLeft, ofRight, hLeft, hRight, rfl⟩ := (clauses_join_eq_ok_iff hOp).1 h
        cases op with
        | or => exact (ihLeft hLeft).union (ihRight hRight)
        | and => exact (ihLeft hLeft).product
        | attach => exact absurd rfl hOp

end Expr

namespace NormalForm

/-- A listing of a set of clauses. -/
def Distinct (nf : NormalForm) : Prop :=
  Clauses.Distinct nf.clauses

/-- A normal form that is worked out lists every clause and every term once. -/
theorem distinct_of_normalForm {e : Expr} {nf : NormalForm} (h : e.normalForm = .ok nf) :
    nf.Distinct := by
  unfold Expr.normalForm at h
  rw [Expr.walkedClauses_eq] at h
  cases hClauses : e.clauses with
  | error fault =>
      rw [hClauses] at h
      cases h
  | ok cs =>
      rw [hClauses] at h
      obtain rfl := Except.ok.inj h
      exact Expr.distinct_of_clauses hClauses

end NormalForm

end Licensing
