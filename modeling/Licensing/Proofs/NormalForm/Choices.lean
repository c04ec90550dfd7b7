import Licensing.Proofs.NormalForm.Congruence
import Licensing.Proofs.NormalForm.Distinct
import Licensing.Proofs.NormalForm.Expansion

/-!
Choices. The alternatives that an expression leaves are expressions themselves, one for each of its
clauses: each has that clause alone, so it leaves nothing to choose, and together they say all that
the expression says. Questions about choices are questions about sets of clauses.
-/

namespace Licensing

namespace NormalForm

theorem nodup_sortedClauses {nf : NormalForm} (h : nf.Distinct) :
    (nf.sortedClauses.map Clause.termSet).Nodup := by
  have hSame : (nf.clauses.map Clause.sorted).map Clause.termSet =
      nf.clauses.map Clause.termSet := by
    rw [List.map_map]
    exact List.map_congr_left fun c _ => Clause.termSet_eq_of_perm c.sorted_perm
  have hPerm := (List.mergeSort_perm (nf.clauses.map Clause.sorted) fun c d =>
    Clause.textsBefore (Clause.texts c) (Clause.texts d)).map Clause.termSet
  rw [hSame] at hPerm
  exact hPerm.nodup_iff.2 h.clauses

theorem length_sortedClauses (nf : NormalForm) : nf.sortedClauses.length = nf.size := by
  rw [sortedClauses, List.length_mergeSort, List.length_map, size]

end NormalForm

namespace Expr

def uses (op : Operator) : Expr → Bool
  | leaf _ => false
  | join left middle right => middle == op || left.uses op || right.uses op

theorem uses_foldl {op other : Operator} (hOther : op ≠ other) {es : List Expr}
    (h : ∀ e ∈ es, e.uses other = false) {first : Expr} (hFirst : first.uses other = false) :
    (es.foldl (fun joined next => .join joined op next) first).uses other = false := by
  induction es generalizing first with
  | nil => exact hFirst
  | cons e rest ih =>
      apply ih fun f hf => h f (List.mem_cons_of_mem e hf)
      simp [uses, hOther, hFirst, h e List.mem_cons_self]

end Expr

theorem Term.uses_or (t : Term) : t.toExpr.uses .or = false := by
  obtain ⟨l, x⟩ := t
  cases x with
  | none => rfl
  | some x => rfl

theorem Clause.uses_or {c : List Term} {e : Expr} (h : Clause.toExpr c = .ok e) :
    e.uses .or = false := by
  cases c with
  | nil => cases h
  | cons t rest =>
      obtain rfl := Except.ok.inj h
      refine Expr.uses_foldl (by decide) (fun e he => ?_) t.uses_or
      obtain ⟨u, -, rfl⟩ := List.mem_map.1 he
      exact u.uses_or

namespace Expr

variable {c d e : Expr}

/-- A normal form counts every clause once. -/
theorem size_eq_card {nf : NormalForm} (h : e.IsLicense) (hNormal : e.normalForm = .ok nf) :
    nf.size = e.clauseSets.card := by
  obtain ⟨other, hOther, hSets, -⟩ := exists_normalForm h
  obtain rfl := Except.ok.inj (hNormal.symm.trans hOther)
  have hOnce := (NormalForm.distinct_of_normalForm hNormal).clauses
  rw [← hSets, NormalForm.sets, Clauses.sets, List.toFinset_card_of_nodup hOnce, List.length_map,
    NormalForm.size]

theorem value_offersChoice (h : e.IsLicense) :
    e.offersChoice.run.value = .ok (decide (1 < e.clauseSets.card)) := by
  obtain ⟨nf, hNormal, -⟩ := exists_normalForm h
  rw [← size_eq_card h hNormal]
  unfold offersChoice normalize
  rw [hNormal]
  rfl

/-- A choice is valid when it leaves no clause that the expression does not leave. -/
theorem value_isValidChoice (hc : c.IsLicense) (he : e.IsLicense) :
    (c.isValidChoice e).run.value = .ok (decide (c.clauseSets ⊆ e.clauseSets)) := by
  obtain ⟨n, hn, hLeftSets, -⟩ := exists_normalForm hc
  obtain ⟨m, hm, hRightSets, -⟩ := exists_normalForm he
  have hSubset : Clauses.subset n.clauses m.clauses = decide (c.clauseSets ⊆ e.clauseSets) := by
    rw [← hLeftSets, ← hRightSets, Bool.eq_iff_iff, Clauses.subset_iff, decide_eq_true_iff]
    rfl
  rw [← hSubset]
  unfold isValidChoice normalize
  rw [hn, hm]
  rfl

theorem value_validChoices {nf : NormalForm} (h : e.normalForm = .ok nf) :
    e.validChoices.run.value = nf.choices := by
  unfold validChoices normalize
  rw [h]
  rfl

/-- The expressions stand for the clauses of another one, each of them for one. -/
structure Lists (cs : List Expr) (e : Expr) : Prop where
  isLicense : ∀ c ∈ cs, c.IsLicense
  settled : ∀ c ∈ cs, c.uses .or = false
  once : (cs.map clauseSets).Nodup
  clauses : ∀ sets, sets ∈ cs.map clauseSets ↔ ∃ s ∈ e.clauseSets, {s} = sets

/-- The choices are the clauses, written out in their order. -/
theorem exists_choices {nf : NormalForm} (hNormal : e.normalForm = .ok nf)
    (hSets : nf.sets = e.clauseSets) (h : nf.Inhabited) :
    ∃ cs, nf.choices = .ok cs ∧ cs.length = nf.size ∧ Lists cs e := by
  have hEach : ∀ c ∈ nf.sortedClauses, ∃ x, Clause.toExpr c = .ok x ∧
      (x.IsLicense ∧ x.uses .or = false) ∧ x.clauseSets = {Clause.termSet c} := by
    intro c hc
    obtain ⟨x, hx, hExpands⟩ := Clause.exists_toExpr (h.ne_nil_of_mem_sortedClauses c hc)
    exact ⟨x, hx, ⟨hExpands.isLicense, Clause.uses_or hx⟩, hExpands.clauseSets_eq⟩
  obtain ⟨cs, hChoices, hWritten⟩ := exists_mapM hEach
  obtain ⟨hMembers, -⟩ := (List.forall₂_and_left cs nf.sortedClauses).1 hWritten.flip
  have hMap : cs.map clauseSets = (nf.sortedClauses.map Clause.termSet).map singleton := by
    rw [List.map_map]
    exact map_eq_of_forall₂ (hWritten.imp fun c x h => h.2)
  refine ⟨cs, hChoices, ?_, fun c hc => (hMembers c hc).1, fun c hc => (hMembers c hc).2, ?_, ?_⟩
  · rw [← hWritten.length_eq, nf.length_sortedClauses]
  · rw [hMap]
    exact (NormalForm.nodup_sortedClauses (NormalForm.distinct_of_normalForm hNormal)).map
      Finset.singleton_injective
  · intro sets
    rw [hMap, List.mem_map, ← hSets, ← NormalForm.sets_sortedClauses]
    simp only [Clauses.sets, List.mem_toFinset]

/-- What an expression leaves is left by another one when each of its choices is equivalent to one
of the other's. -/
theorem subset_iff_of_lists {ds cs : List Expr} (hd : Lists ds d) (he : Lists cs e) :
    d.clauseSets ⊆ e.clauseSets ↔ ∀ x ∈ ds, ∃ y ∈ cs, x.Equivalent y := by
  constructor
  · intro h x hx
    obtain ⟨s, hs, hSet⟩ := (hd.clauses x.clauseSets).1 (List.mem_map_of_mem hx)
    obtain ⟨y, hy, hOther⟩ := List.mem_map.1 ((he.clauses {s}).2 ⟨s, h hs, rfl⟩)
    exact ⟨y, hy, equivalent_iff.2 ⟨hd.isLicense x hx, he.isLicense y hy, by rw [← hSet, hOther]⟩⟩
  · intro h s hs
    obtain ⟨x, hx, hSet⟩ := List.mem_map.1 ((hd.clauses {s}).2 ⟨s, hs, rfl⟩)
    obtain ⟨y, hy, hEquivalent⟩ := h x hx
    obtain ⟨-, -, hSame⟩ := equivalent_iff.1 hEquivalent
    obtain ⟨r, hr, hOther⟩ := (he.clauses y.clauseSets).1 (List.mem_map_of_mem hy)
    obtain rfl : r = s := Finset.singleton_injective (by rw [hOther, ← hSame, hSet])
    exact hr

/-- The choices of a license expression, which joined by `OR` have its clauses again. -/
theorem exists_validChoices (h : e.IsLicense) :
    ∃ nf cs, e.normalForm = .ok nf ∧ e.validChoices.run.value = .ok cs ∧ cs.length = nf.size ∧
      Lists cs e ∧ ∃ whole, joinAll .or cs = .ok whole ∧ whole.Equivalent e := by
  obtain ⟨nf, hNormal, hSets, -⟩ := exists_normalForm h
  have hInhabited := inhabited_of_sets_eq h hSets
  obtain ⟨cs, hChoices, hLength, hLists⟩ := exists_choices hNormal hSets hInhabited
  obtain ⟨whole, ls, hTree, hExpands, -⟩ := NormalForm.exists_toExpr hInhabited
  have hJoined : joinAll .or cs = .ok whole := by
    rw [← hTree, NormalForm.toExpr, hChoices]
    rfl
  refine ⟨nf, cs, hNormal, ?_, hLength, hLists, whole, hJoined, ?_⟩
  · rw [value_validChoices hNormal, hChoices]
  · exact equivalent_iff.2 ⟨hExpands.isLicense, h, by rw [hExpands.clauseSets_eq, hSets]⟩

/-- An expression is one alternative of another: nothing is left to choose in it. -/
structure Alternative (c e : Expr) : Prop where
  proper : c.Proper
  settled : c.uses .or = false
  single : ∀ threshold, ∃ nf, (c.normalize threshold).run.value = .ok nf ∧ nf.size = 1
  offersNone : c.offersChoice.run.value = .ok false
  valid : (c.isValidChoice e).run.value = .ok true

/-- An expression that stands for one clause of another is one of its alternatives. -/
theorem alternative_of_lists {cs : List Expr} (he : e.IsLicense) (h : Lists cs e) (hc : c ∈ cs) :
    c.Alternative e := by
  have hLicense := h.isLicense c hc
  obtain ⟨s, hs, hSet⟩ := (h.clauses c.clauseSets).1 (List.mem_map_of_mem hc)
  have hCard : c.clauseSets.card = 1 := by rw [← hSet, Finset.card_singleton]
  have hSubset : c.clauseSets ⊆ e.clauseSets := hSet ▸ Finset.singleton_subset_iff.2 hs
  refine ⟨isLicense_iff_proper.1 hLicense, h.settled c hc, fun threshold => ?_, ?_, ?_⟩
  · obtain ⟨nf, hNormal, -⟩ := exists_normalForm hLicense
    exact ⟨nf, by rw [value_normalize, hNormal], by rw [size_eq_card hLicense hNormal, hCard]⟩
  · rw [value_offersChoice hLicense, hCard]
    rfl
  · rw [value_isValidChoice hLicense he, decide_eq_true hSubset]

/-- The valid choices are the alternatives of an expression, as many as its normal form has clauses
and no two of them equivalent. Together they are equivalent to the expression, it offers a choice
when there are two of them, and what leaves only choices of the expression is a valid choice. -/
theorem validChoices_complete {e : Expr} (he : e.Proper) :
    ∃ cs, e.validChoices.run.value = .ok cs ∧
      (∀ threshold, ∃ nf, (e.normalize threshold).run.value = .ok nf ∧ cs.length = nf.size) ∧
      (∀ c ∈ cs, c.Alternative e) ∧
      cs.Pairwise (fun c d => (c.isEquivalent d).run.value = .ok false) ∧
      (∃ whole, joinAll .or cs = .ok whole ∧ whole.Equivalent e) ∧
      e.offersChoice.run.value = .ok (decide (2 ≤ cs.length)) ∧
      ∀ d : Expr, d.Proper → ∃ ds answer, d.validChoices.run.value = .ok ds ∧
        (d.isValidChoice e).run.value = .ok answer ∧
        (answer = true ↔ ∀ x ∈ ds, ∃ y ∈ cs, x.Equivalent y) := by
  have hLicense := isLicense_iff_proper.2 he
  obtain ⟨nf, cs, hNormal, hChoices, hLength, hLists, hWhole⟩ := exists_validChoices hLicense
  refine ⟨cs, hChoices, fun threshold => ⟨nf, by rw [value_normalize, hNormal], hLength⟩,
    fun c hc => alternative_of_lists hLicense hLists hc, ?_, hWhole, ?_, fun d hd => ?_⟩
  · refine (List.pairwise_map.1 hLists.once).imp_of_mem fun {c d} hc hd hApart => ?_
    rw [value_isEquivalent (hLists.isLicense c hc) (hLists.isLicense d hd), decide_eq_false hApart]
  · rw [value_offersChoice hLicense, ← size_eq_card hLicense hNormal, hLength]
    rfl
  · have hOther := isLicense_iff_proper.2 hd
    obtain ⟨-, ds, -, hDs, -, hDsLists, -⟩ := exists_validChoices hOther
    refine ⟨ds, _, hDs, value_isValidChoice hOther hLicense, ?_⟩
    rw [decide_eq_true_iff, subset_iff_of_lists hDsLists hLists]

/-- Of the four ways to meet two choices between the same licenses two are one, so three are left;
what asks for both licenses is one of them. -/
theorem validChoices_complete_repeated :
    let a := license (.reference "LicenseRef-a")
    let b := license (.reference "LicenseRef-b")
    let e := join (join a .or b) .and (join b .or a)
    e.Proper ∧ ∃ cs, e.validChoices.run.value = .ok cs ∧ cs.length = 3 ∧
      ∃ ds, (join a .and b).validChoices.run.value = .ok ds ∧
        ∀ x ∈ ds, ∃ y ∈ cs, x.Equivalent y := by
  intro a b e
  have hProper : e.Proper := isLicense_iff_proper.1 ⟨⟨trivial, trivial⟩, ⟨trivial, trivial⟩⟩
  have hBoth : (join a .and b).Proper := isLicense_iff_proper.1 ⟨trivial, trivial⟩
  obtain ⟨cs, hChoices, hLength, -, -, -, -, hValid⟩ := validChoices_complete hProper
  obtain ⟨nf, hNormal, hSize⟩ := hLength 64
  obtain ⟨ds, answer, hDs, hAnswer, hIff⟩ := hValid _ hBoth
  have hSizes : (e.normalize 64).run.value.map NormalForm.size = .ok 3 := by decide +kernel
  have hAccepted : ((join a .and b).isValidChoice e).run.value = .ok true := by decide +kernel
  refine ⟨hProper, cs, hChoices, ?_, ds, hDs, ?_⟩
  · rw [hNormal] at hSizes
    exact hSize.trans (Except.ok.inj hSizes)
  · exact hIff.1 (Except.ok.inj (hAnswer.symm.trans hAccepted))

end Expr

end Licensing
