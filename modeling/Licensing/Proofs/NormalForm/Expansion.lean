import Licensing.Containers
import Licensing.Proofs.NormalForm.ClauseSets

/-!
Clauses written out as trees. Joining trees by one operator joins their sets of clauses and puts
their leaves in a row (`Expands`); so the tree of a normal form has the clauses of the normal form,
and the leaves of its terms.
-/

namespace Licensing

namespace Expr

structure Expands (e : Expr) (sets : Finset (Finset Term)) (ls : List Leaf) : Prop where
  isLicense : e.IsLicense
  clauseSets_eq : e.clauseSets = sets
  leaves_eq : e.leaves = ls

variable {op : Operator} {α : Type} {sets : α → Finset (Finset Term)} {ls : α → List Leaf}

theorem Expands.join (hOp : op ≠ .attach) {left right : Expr} {s r : Finset (Finset Term)}
    {ms ns : List Leaf} (hLeft : left.Expands s ms) (hRight : right.Expands r ns) :
    (Expr.join left op right).Expands (joinSets op s r) (ms ++ ns) where
  isLicense := (isLicense_join_iff hOp).2 ⟨hLeft.isLicense, hRight.isLicense⟩
  clauseSets_eq := by rw [clauseSets_join hOp, hLeft.clauseSets_eq, hRight.clauseSets_eq]
  leaves_eq := by rw [leaves, hLeft.leaves_eq, hRight.leaves_eq]

/-- A chain is joined from its first operand on. -/
theorem Expands.foldl (hOp : op ≠ .attach) {items : List α} {es : List Expr}
    (h : List.Forall₂ (fun a e => Expands e (sets a) (ls a)) items es) {first : Expr}
    {s : Finset (Finset Term)} {ms : List Leaf} (hFirst : first.Expands s ms) :
    (es.foldl (fun joined next => .join joined op next) first).Expands
      (items.foldl (fun joined a => joinSets op joined (sets a)) s) (ms ++ items.flatMap ls) := by
  induction h generalizing first s ms with
  | nil => simpa using hFirst
  | cons hNext hRest ih =>
      have hJoined := ih (hFirst.join hOp hNext)
      rwa [List.append_assoc] at hJoined

/-- A list of license expressions that is not empty can be joined. -/
theorem exists_joinAll (hOp : op ≠ .attach) {a : α} {items : List α} {es : List Expr}
    (h : List.Forall₂ (fun a e => Expands e (sets a) (ls a)) (a :: items) es) :
    ∃ e, joinAll op es = .ok e ∧
      e.Expands (items.foldl (fun joined a => joinSets op joined (sets a)) (sets a))
        ((a :: items).flatMap ls) := by
  cases h with
  | cons hFirst hRest => exact ⟨_, rfl, hFirst.foldl hOp hRest⟩

end Expr

theorem Term.expands_toExpr (t : Term) : t.toExpr.Expands {{t.bare}} t.toExpr.leaves := by
  obtain ⟨l, x⟩ := t
  cases x with
  | none => exact ⟨trivial, rfl, rfl⟩
  | some x => exact ⟨⟨trivial, rfl⟩, by simp [toExpr, Expr.clauseSets, bare, grant], rfl⟩

namespace Clause

/-- Joining the terms of a clause one by one gives the clause. -/
theorem foldl_termSet (ts : List Term) (s : Finset Term) :
    ts.foldl (fun joined t => Expr.joinSets .and joined {{t.bare}}) {s} = {s ∪ termSet ts} := by
  induction ts generalizing s with
  | nil => simp [termSet]
  | cons t rest ih =>
      have hFirst : Expr.joinSets .and {s} {{t.bare}} = {s ∪ {t.bare}} := by simp [Expr.joinSets]
      rw [List.foldl_cons, hFirst, ih]
      simp [termSet]

def leaves (c : List Term) : List Leaf :=
  c.flatMap fun t => t.toExpr.leaves

theorem exists_toExpr {c : List Term} (h : c ≠ []) :
    ∃ e, Clause.toExpr c = .ok e ∧ e.Expands {termSet c} (leaves c) := by
  cases c with
  | nil => exact absurd rfl h
  | cons t rest =>
      have hEach : List.Forall₂ (fun (t : Term) e => Expr.Expands e {{t.bare}} t.toExpr.leaves)
          (t :: rest) ((t :: rest).map Term.toExpr) := by
        rw [List.forall₂_map_right_iff, List.forall₂_same]
        exact fun u _ => u.expands_toExpr
      have hOp : Operator.and ≠ .attach := by decide
      obtain ⟨e, hJoined, hExpands⟩ := Expr.exists_joinAll hOp hEach
      refine ⟨e, hJoined, ?_⟩
      rw [foldl_termSet] at hExpands
      have hSet : {t.bare} ∪ termSet rest = termSet (t :: rest) := by simp [termSet]
      rwa [hSet] at hExpands

theorem sorted_perm (c : Clause) : c.sorted.Perm c :=
  List.mergeSort_perm c _

end Clause

namespace Clauses

theorem foldl_sets (cs : List Clause) (s : Finset (Finset Term)) :
    cs.foldl (fun joined c => Expr.joinSets .or joined {Clause.termSet c}) s = s ∪ sets cs := by
  induction cs generalizing s with
  | nil => simp [sets]
  | cons c rest ih =>
      rw [List.foldl_cons, ih]
      simp [Expr.joinSets, sets]

theorem exists_toExpr {cs : List (List Term)} (hSome : cs ≠ []) (hEach : ∀ c ∈ cs, c ≠ []) :
    ∃ es e, cs.mapM Clause.toExpr = .ok es ∧ joinAll .or es = .ok e ∧
      e.Expands (sets cs) (cs.flatMap Clause.leaves) := by
  obtain ⟨es, hChoices, hExpand⟩ := exists_mapM fun c hc => Clause.exists_toExpr (hEach c hc)
  cases cs with
  | nil => exact absurd rfl hSome
  | cons c rest =>
      have hOp : Operator.or ≠ .attach := by decide
      obtain ⟨e, hJoined, hWhole⟩ := Expr.exists_joinAll hOp hExpand
      refine ⟨es, e, hChoices, hJoined, ?_⟩
      rw [foldl_sets] at hWhole
      have hSets : {Clause.termSet c} ∪ sets rest = sets (c :: rest) := by simp [sets]
      rwa [hSets] at hWhole

end Clauses

namespace NormalForm

/-- The sorted clauses are the clauses, each with its terms in order. -/
theorem mem_sortedClauses {nf : NormalForm} {c : List Term} :
    c ∈ nf.sortedClauses ↔ ∃ d ∈ nf.clauses, d.sorted = c := by
  rw [sortedClauses, (List.mergeSort_perm _ _).mem_iff, List.mem_map]

theorem sets_sortedClauses (nf : NormalForm) : Clauses.sets nf.sortedClauses = nf.sets := by
  ext s
  rw [sets, Clauses.mem_sets, Clauses.mem_sets]
  constructor
  · intro ⟨c, hc, hSet⟩
    obtain ⟨d, hd, rfl⟩ := mem_sortedClauses.1 hc
    exact ⟨d, hd, by rw [← hSet, Clause.termSet_eq_of_perm d.sorted_perm]⟩
  · intro ⟨d, hd, hSet⟩
    refine ⟨d.sorted, mem_sortedClauses.2 ⟨d, hd, rfl⟩, ?_⟩
    rw [← hSet]
    exact Clause.termSet_eq_of_perm d.sorted_perm

/-- Something is left to choose, and every choice has something to meet. -/
structure Inhabited (nf : NormalForm) : Prop where
  clauses : nf.clauses ≠ []
  terms : ∀ c ∈ nf.clauses, c ≠ []

theorem Inhabited.ne_nil_of_mem_sortedClauses {nf : NormalForm} (h : nf.Inhabited) :
    ∀ c ∈ nf.sortedClauses, c ≠ [] := by
  intro c hc
  obtain ⟨d, hd, rfl⟩ := mem_sortedClauses.1 hc
  obtain ⟨t, ht⟩ := List.exists_mem_of_ne_nil _ (h.terms d hd)
  exact List.ne_nil_of_mem (d.sorted_perm.mem_iff.2 ht)

/-- The tree of a normal form has its clauses, and no leaf but those of its terms. -/
theorem exists_toExpr {nf : NormalForm} (h : nf.Inhabited) :
    ∃ e ls, nf.toExpr = .ok e ∧ e.Expands nf.sets ls ∧
      ∀ l ∈ ls, ∃ c ∈ nf.clauses, ∃ t ∈ c, l ∈ t.toExpr.leaves := by
  have hSome : nf.sortedClauses ≠ [] := by
    obtain ⟨d, hd⟩ := List.exists_mem_of_ne_nil _ h.clauses
    exact List.ne_nil_of_mem (mem_sortedClauses.2 ⟨d, hd, rfl⟩)
  obtain ⟨es, e, hChoices, hJoined, hExpands⟩ :=
    Clauses.exists_toExpr hSome h.ne_nil_of_mem_sortedClauses
  rw [sets_sortedClauses] at hExpands
  refine ⟨e, _, ?_, hExpands, ?_⟩
  · unfold toExpr choices
    rw [hChoices]
    exact hJoined
  · intro l hl
    obtain ⟨c, hc, hIn⟩ := List.mem_flatMap.1 hl
    obtain ⟨d, hd, rfl⟩ := mem_sortedClauses.1 hc
    obtain ⟨t, ht, hLeaf⟩ := List.mem_flatMap.1 hIn
    exact ⟨d, hd, t, d.sorted_perm.mem_iff.1 ht, hLeaf⟩

end NormalForm

namespace Expr

/-- A normal form that has the clauses of a tree. -/
theorem inhabited_of_sets_eq {e : Expr} (h : e.IsLicense) {nf : NormalForm}
    (hSets : nf.sets = e.clauseSets) : nf.Inhabited where
  clauses := by
    obtain ⟨s, hs⟩ := clauseSets_nonempty h
    rw [← hSets] at hs
    obtain ⟨c, hc, -⟩ := Clauses.mem_sets.1 hs
    exact List.ne_nil_of_mem hc
  terms := by
    intro c hc
    have hMem : c.termSet ∈ e.clauseSets := by
      rw [← hSets]
      exact Clauses.mem_sets.2 ⟨c, hc, rfl⟩
    obtain ⟨t, ht⟩ := nonempty_of_mem_clauseSets h _ hMem
    obtain ⟨u, hu, -⟩ := Clause.mem_termSet.1 ht
    exact List.ne_nil_of_mem hu

end Expr

end Licensing
