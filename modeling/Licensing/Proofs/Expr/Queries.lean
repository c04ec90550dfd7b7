import Licensing.Expr.Query
import Licensing.Proofs.Expr.Buildable

/-!
Questions about license expressions. They are answered, from the leaves of the tree; and the
operands of the chain of `AND` at the top have the leaves of the whole, are parts of it, and are
not joined by `AND` themselves. What trees that are the same have in common can be asked of all
operands or of the different ones alike.
-/

namespace Licensing

theorem License.id_bare (l : License) : l.bare.id = l.id := by
  cases l with
  | listed id orLater deprecated => rfl
  | reference raw => rfl

namespace Leaf

theorem licenseId?_bare (l : Leaf) : l.bare.licenseId? = l.licenseId? := by
  cases l with
  | license l => exact congrArg some l.id_bare
  | exception x => rfl
  | foreign v => rfl

theorem exceptionId?_bare (l : Leaf) : l.bare.exceptionId? = l.exceptionId? := by
  cases l with
  | license l => rfl
  | exception x => rfl
  | foreign v => rfl

end Leaf

namespace Expr

variable {d e : Expr}

/-- A license expression has no foreign leaf, so every question about its leaves is answered. -/
theorem collect_of_isLicense (ask : Leaf → Option String) (h : e.IsLicense) :
    collect ask [e] [] = .ok (distinctOn (· == ·) (e.leaves.filterMap ask)) := by
  have hNative : e.firstForeign? = none := by
    rw [firstForeign?, List.findSome?_eq_none_iff]
    intro l hl
    cases l with
    | foreign v => exact absurd hl (foreign_notMem_leaves_of_isLicense h v)
    | license l => rfl
    | exception x => rfl
  rw [collect_single, unlessForeign, hNative]

/-! ### Parts and operands -/

def parts : Expr → List Expr
  | leaf l => [leaf l]
  | join left op right => join left op right :: (left.parts ++ right.parts)

theorem mem_parts_self (e : Expr) : e ∈ e.parts := by
  cases e with
  | leaf l => exact List.mem_singleton_self _
  | join left op right => exact List.mem_cons_self

theorem mem_parts_of_mem_conjuncts (h : d ∈ e.conjuncts) : d ∈ e.parts := by
  fun_induction conjuncts e with
  | case1 left right ihRight ihLeft =>
      rw [parts]
      rcases List.mem_append.1 h with hIn | hIn
      · exact List.mem_cons_of_mem _ (List.mem_append_right _ (ihRight hIn))
      · exact List.mem_cons_of_mem _ (List.mem_append_left _ (ihLeft hIn))
  | case2 e hSingle =>
      obtain rfl := List.mem_singleton.1 h
      exact mem_parts_self d

theorem ne_conjunction_of_mem_conjuncts (h : d ∈ e.conjuncts) (left right : Expr) :
    d ≠ join left .and right := by
  fun_induction conjuncts e with
  | case1 first last ihLast ihFirst => exact (List.mem_append.1 h).elim ihLast ihFirst
  | case2 e hSingle =>
      obtain rfl := List.mem_singleton.1 h
      exact hSingle left right

theorem isLicense_of_mem_conjuncts (he : e.IsLicense) (h : d ∈ e.conjuncts) : d.IsLicense := by
  fun_induction conjuncts e with
  | case1 left right ihRight ihLeft =>
      exact (List.mem_append.1 h).elim (ihRight he.2) (ihLeft he.1)
  | case2 e hSingle =>
      obtain rfl := List.mem_singleton.1 h
      exact he

/-- The leaves of the operands answer what the leaves of the whole do. -/
theorem mem_filterMap_leaves_iff {ask : Leaf → Option String} {id : String} :
    id ∈ e.leaves.filterMap ask ↔ ∃ d ∈ e.conjuncts, id ∈ d.leaves.filterMap ask := by
  fun_induction conjuncts e with
  | case1 left right ihRight ihLeft =>
      rw [leaves, List.filterMap_append, List.mem_append, ihLeft, ihRight, or_comm]
      simp only [List.mem_append, or_and_right, exists_or]
  | case2 e hSingle => simp only [List.mem_singleton, exists_eq_left]

/-! ### The different operands -/

theorem mem_conjuncts_of_mem_decompose (h : d ∈ e.decompose) : d ∈ e.conjuncts := by
  rw [decompose_eq] at h
  rcases mem_of_mem_unionOn h with hNone | hIn
  · exact absurd hNone List.not_mem_nil
  · exact hIn

/-- Of the operands that are dropped an equal one stays. -/
theorem exists_same_mem_decompose (h : d ∈ e.conjuncts) : ∃ f ∈ e.decompose, d.same f = true := by
  rw [decompose_eq]
  exact exists_mem_unionOn_right (fun f => by simp [same]) h

/-- What holds of both or of none of two trees that are the same holds of some of the different
operands when it holds of some operand. -/
theorem exists_mem_decompose_iff {p : Expr → Prop}
    (hp : ∀ a b : Expr, a.same b = true → (p a ↔ p b)) :
    (∃ d ∈ e.decompose, p d) ↔ ∃ d ∈ e.conjuncts, p d := by
  constructor
  · rintro ⟨d, hd, hHolds⟩
    exact ⟨d, mem_conjuncts_of_mem_decompose hd, hHolds⟩
  · rintro ⟨d, hd, hHolds⟩
    obtain ⟨f, hf, hSame⟩ := exists_same_mem_decompose hd
    exact ⟨f, hf, (hp d f hSame).1 hHolds⟩

/-- What does not tell equal trees apart holds of all operands when it holds of the different ones.
-/
theorem forall_mem_decompose_iff {p : Expr → Prop}
    (hp : ∀ a b : Expr, a.same b = true → (p a ↔ p b)) :
    (∀ d ∈ e.decompose, p d) ↔ ∀ d ∈ e.conjuncts, p d := by
  constructor
  · intro h d hd
    obtain ⟨f, hf, hSame⟩ := exists_same_mem_decompose hd
    exact (hp d f hSame).2 (h f hf)
  · intro h d hd
    exact h d (mem_conjuncts_of_mem_decompose hd)

/-! ### Trees that are the same -/

theorem leaves_bare (e : Expr) : e.bare.leaves = e.leaves.map Leaf.bare := by
  induction e with
  | leaf l => rfl
  | join left op right ihLeft ihRight => rw [bare, leaves, ihLeft, ihRight, leaves, List.map_append]

/-- Identifiers do not depend on flags. -/
theorem filterMap_leaves_eq_of_same {ask : Leaf → Option String} (hAsk : ∀ l, ask l.bare = ask l)
    (h : d.same e = true) : d.leaves.filterMap ask = e.leaves.filterMap ask := by
  have hFlags : ask ∘ Leaf.bare = ask := funext hAsk
  have hBare (f : Expr) : f.leaves.filterMap ask = f.bare.leaves.filterMap ask := by
    rw [leaves_bare, List.filterMap_map, hFlags]
  have hSame : d.bare = e.bare := by simpa [same] using h
  rw [hBare d, hSame, ← hBare e]

end Expr

end Licensing
