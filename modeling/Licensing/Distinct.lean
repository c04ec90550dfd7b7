/-!
Lists without repetition under an equality of one's own. Of several equal elements the first one
stays, so a list of this kind keeps the order in which its elements were first met.
-/

namespace Licensing

variable {α : Type}

/-- The list with an element at its end, unless an equal one is there. -/
def addNew (same : α → α → Bool) (xs : List α) (x : α) : List α :=
  if xs.any (same x) then xs else xs ++ [x]

/-- The list with the elements of another one that it lacks. -/
def unionOn (same : α → α → Bool) (xs ys : List α) : List α :=
  ys.foldl (addNew same) xs

/-- The first of each kind of element. -/
def distinctOn (same : α → α → Bool) (xs : List α) : List α :=
  unionOn same [] xs

@[simp] theorem unionOn_nil (same : α → α → Bool) (xs : List α) : unionOn same xs [] = xs := rfl

theorem unionOn_cons (same : α → α → Bool) (xs ys : List α) (y : α) :
    unionOn same xs (y :: ys) = unionOn same (addNew same xs y) ys := rfl

theorem mem_addNew_of_mem {same : α → α → Bool} {xs : List α} {x y : α} (h : y ∈ xs) :
    y ∈ addNew same xs x := by
  unfold addNew
  split
  · exact h
  · exact List.mem_append_left _ h

theorem mem_of_mem_addNew {same : α → α → Bool} {xs : List α} {x y : α}
    (h : y ∈ addNew same xs x) : y ∈ xs ∨ y = x := by
  unfold addNew at h
  split at h
  · exact Or.inl h
  · simpa using h

/-- Nothing is in a union but what is in one of the lists. -/
theorem mem_of_mem_unionOn {same : α → α → Bool} {xs ys : List α} {y : α}
    (h : y ∈ unionOn same xs ys) : y ∈ xs ∨ y ∈ ys := by
  induction ys generalizing xs with
  | nil => exact Or.inl h
  | cons x rest ih =>
      rcases ih h with hAdd | hRest
      · rcases mem_of_mem_addNew hAdd with hLeft | hNew
        · exact Or.inl hLeft
        · exact Or.inr (hNew ▸ List.mem_cons_self)
      · exact Or.inr (List.mem_cons_of_mem _ hRest)

theorem mem_unionOn_left {same : α → α → Bool} {xs ys : List α} {y : α} (h : y ∈ xs) :
    y ∈ unionOn same xs ys := by
  induction ys generalizing xs with
  | nil => exact h
  | cons x rest ih => exact ih (mem_addNew_of_mem h)

/-- Every element of the second list has an equal one in the union. -/
theorem exists_mem_unionOn_right {same : α → α → Bool} (hRefl : ∀ x, same x x = true)
    {xs ys : List α} {y : α} (h : y ∈ ys) : ∃ z ∈ unionOn same xs ys, same y z = true := by
  induction ys generalizing xs with
  | nil => simp at h
  | cons x rest ih =>
      rcases List.mem_cons.1 h with rfl | hRest
      · by_cases hOld : xs.any (same y)
        · obtain ⟨z, hz, hSame⟩ := List.any_eq_true.1 hOld
          refine ⟨z, ?_, hSame⟩
          rw [unionOn_cons]
          exact mem_unionOn_left (mem_addNew_of_mem hz)
        · refine ⟨y, ?_, hRefl y⟩
          rw [unionOn_cons]
          exact mem_unionOn_left (by simp [addNew, hOld])
      · exact ih hRest

/-- Keeping one of each element adds none. -/
theorem mem_of_mem_distinctOn {same : α → α → Bool} {xs : List α} {x : α}
    (h : x ∈ distinctOn same xs) : x ∈ xs := by
  rcases mem_of_mem_unionOn h with hNone | hIn
  · exact absurd hNone List.not_mem_nil
  · exact hIn

/-- Keeping one of each element loses none. -/
theorem mem_distinctOn_iff [BEq α] [LawfulBEq α] {xs : List α} {x : α} :
    x ∈ distinctOn (· == ·) xs ↔ x ∈ xs := by
  refine ⟨mem_of_mem_distinctOn, fun h => ?_⟩
  have hMet : ∃ y ∈ distinctOn (· == ·) xs, (x == y) = true :=
    exists_mem_unionOn_right (fun _ => beq_self_eq_true _) h
  obtain ⟨y, hy, hSame⟩ := hMet
  rwa [eq_of_beq hSame]

theorem distinctOn_eq_nil_iff [BEq α] [LawfulBEq α] {xs : List α} :
    distinctOn (· == ·) xs = [] ↔ xs = [] := by
  simp only [List.eq_nil_iff_forall_not_mem, mem_distinctOn_iff]

end Licensing
