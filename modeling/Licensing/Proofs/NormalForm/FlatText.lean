import Licensing.Proofs.NormalForm.Expansion

/-!
Normal forms are written flat: the texts of the terms with `AND` between them and of the clauses
with `OR` between them, without any parentheses. A normal form that leaves nothing to choose, or a
choice of which nothing is to be met, is not written at all.
-/

namespace Licensing

/-- The blanks that set an operator off are part of what stands between two operands. -/
def Operator.separator (op : Operator) : String :=
  " " ++ op.word ++ " "

namespace Expr

/-- A chain is written flat when its operands need no parentheses. -/
theorem text_foldl {op : Operator} {first : Expr} {es : List Expr}
    (hFirst : first.needsParens op = false) (h : ∀ e ∈ es, e.needsParens op = false) :
    (es.foldl (fun joined next => .join joined op next) first).text =
      op.separator.intercalate (first.text :: es.map text) := by
  induction es generalizing first with
  | nil => rfl
  | cons e rest ih =>
      have hJoined : (join first op e).text = first.text ++ op.separator ++ e.text := by
        simp [text, hFirst, h e List.mem_cons_self, enclose, Operator.separator]
      have hRest : ∀ f ∈ rest, f.needsParens op = false :=
        fun f hf => h f (List.mem_cons_of_mem e hf)
      rw [List.foldl_cons, ih (by simp [needsParens]) hRest, hJoined]
      rfl

theorem exists_joinAll_text {op : Operator} {es : List Expr} (hSome : es ≠ [])
    (h : ∀ e ∈ es, e.needsParens op = false) :
    ∃ e, joinAll op es = .ok e ∧ e.text = op.separator.intercalate (es.map text) := by
  cases es with
  | nil => exact absurd rfl hSome
  | cons first rest =>
      exact ⟨_, rfl, text_foldl (h first List.mem_cons_self)
        fun e he => h e (List.mem_cons_of_mem first he)⟩

end Expr

theorem Term.needsParens_toExpr (t : Term) (op : Operator) : t.toExpr.needsParens op = false := by
  obtain ⟨l, x⟩ := t
  cases x with
  | none => rfl
  | some x => cases op <;> rfl

namespace Clause

/-- A clause is written as the texts of its terms with `AND` between them. -/
theorem exists_toExpr_text {c : List Term} (h : c ≠ []) :
    ∃ e, Clause.toExpr c = .ok e ∧ e.text = Operator.and.separator.intercalate (texts c) := by
  have hSome : c.map Term.toExpr ≠ [] := by simpa using h
  have hFree : ∀ e ∈ c.map Term.toExpr, e.needsParens .and = false := by
    intro e he
    obtain ⟨t, -, rfl⟩ := List.mem_map.1 he
    exact t.needsParens_toExpr .and
  obtain ⟨e, hJoined, hText⟩ := Expr.exists_joinAll_text hSome hFree
  refine ⟨e, hJoined, ?_⟩
  rw [hText, List.map_map, texts]
  congr 1
  apply List.map_congr_left
  intro t _
  exact (Expr.render_eq_text t.toExpr).symm

end Clause

namespace NormalForm

def writeFlat (clauses : List (List String)) : Except Fault String :=
  if clauses.isEmpty || clauses.any List.isEmpty then .error .nothingToJoin
  else .ok (Operator.or.separator.intercalate (clauses.map Operator.and.separator.intercalate))

/-- A clause without terms has no tree, and neither has the normal form that has it. -/
theorem mapM_toExpr_of_empty {cs : List (List Term)} (h : [] ∈ cs) :
    cs.mapM Clause.toExpr = .error .nothingToJoin := by
  induction cs with
  | nil => cases h
  | cons c rest ih =>
      rw [List.mapM_cons]
      by_cases hFirst : c = []
      · subst hFirst
        rfl
      · obtain ⟨e, hExpr, -⟩ := Clause.exists_toExpr_text hFirst
        have hRest : [] ∈ rest := by
          rcases List.mem_cons.1 h with hEmpty | hIn
          · exact absurd hEmpty.symm hFirst
          · exact hIn
        rw [hExpr, ih hRest]
        rfl

/-- A normal form is written flat, without any parentheses. -/
theorem text_eq_writeFlat (nf : NormalForm) :
    nf.text = writeFlat (nf.sortedClauses.map Clause.texts) := by
  have hEmpty : (nf.sortedClauses.map Clause.texts).any List.isEmpty = true ↔
      [] ∈ nf.sortedClauses := by
    simp [Clause.texts]
  unfold text toExpr choices writeFlat
  by_cases hTerms : [] ∈ nf.sortedClauses
  · rw [mapM_toExpr_of_empty hTerms, hEmpty.2 hTerms, Bool.or_true]
    rfl
  · have hEach : ∀ c ∈ nf.sortedClauses, ∃ e, Clause.toExpr c = .ok e ∧
        e.text = Operator.and.separator.intercalate (Clause.texts c) := by
      intro c hc
      exact Clause.exists_toExpr_text fun hNone => hTerms (hNone ▸ hc)
    obtain ⟨es, hChoices, hTexts⟩ := exists_mapM hEach
    rw [hChoices]
    by_cases hSome : nf.sortedClauses = []
    · rw [hSome] at hTexts
      cases hTexts
      rw [hSome]
      rfl
    · have hNone : es ≠ [] := by
        rintro rfl
        exact hSome (List.forall₂_nil_right_iff.1 hTexts)
      obtain ⟨e, hJoined, hText⟩ :=
        Expr.exists_joinAll_text hNone fun e _ => Expr.needsParens_or e
      rw [map_eq_of_forall₂ hTexts] at hText
      have hEach : ¬ ((nf.sortedClauses.map Clause.texts).isEmpty ||
          (nf.sortedClauses.map Clause.texts).any List.isEmpty) = true := by
        rw [Bool.or_eq_true, hEmpty, List.isEmpty_iff, List.map_eq_nil_iff]
        exact not_or.2 ⟨hSome, hTerms⟩
      rw [if_neg hEach, List.map_map]
      change (joinAll .or es).map Expr.render = _
      rw [hJoined]
      change Except.ok e.render = _
      rw [Expr.render_eq_text, hText]
      rfl

end NormalForm

end Licensing
