import Mathlib.Data.List.Forall2

/-!
Facts about lists and about results that may be errors, for elements and errors of any kind.
-/

namespace Licensing

/-! ### Runs at the beginning of a list -/

section

variable {α : Type} {p : α → Bool} {run rest xs : List α} {x : α}

/-- A run is found again in front of anything that does not go on with it. -/
theorem takeWhile_append_of_stop (hRun : ∀ x ∈ run, p x = true)
    (hRest : ∀ x ∈ rest.head?, p x = false) : (run ++ rest).takeWhile p = run := by
  rw [List.takeWhile_append_of_pos hRun]
  cases rest with
  | nil => simp
  | cons x rest => simp [hRest x (by simp)]

theorem dropWhile_append_of_stop (hRun : ∀ x ∈ run, p x = true)
    (hRest : ∀ x ∈ rest.head?, p x = false) : (run ++ rest).dropWhile p = rest := by
  rw [List.dropWhile_append_of_pos hRun]
  cases rest with
  | nil => simp
  | cons x rest => simp [hRest x (by simp)]

theorem not_of_mem_head?_dropWhile (h : x ∈ (xs.dropWhile p).head?) : p x = false := by
  have := List.head?_dropWhile_not p xs
  rw [Option.mem_def] at h
  rw [h] at this
  simpa using this

end

/-! ### Order and keys -/

section

variable {α β γ : Type} {before : α → α → Bool} {xs ys : List α} {x y : α}

/-- Sorting by a total order forgets where the elements stood before. -/
theorem mergeSort_eq_of_perm
    (trans : ∀ a b c, before a b = true → before b c = true → before a c = true)
    (total : ∀ a b, (before a b || before b a) = true)
    (antisymm : ∀ a b, before a b = true → before b a = true → a = b) (h : xs.Perm ys) :
    xs.mergeSort before = ys.mergeSort before := by
  have hPerm : (xs.mergeSort before).Perm (ys.mergeSort before) :=
    (List.mergeSort_perm xs before).trans (h.trans (List.mergeSort_perm ys before).symm)
  exact hPerm.eq_of_pairwise (fun a b _ _ => antisymm a b)
    (List.pairwise_mergeSort trans total xs) (List.pairwise_mergeSort trans total ys)

/-- What is found in a list that is in order comes before everything else that could be found. -/
theorem before_of_find? {p : α → Bool} (hSorted : xs.Pairwise fun a b => before a b = true)
    (h : xs.find? p = some x) (hy : y ∈ xs) (hp : p y = true) : y = x ∨ before x y = true := by
  obtain ⟨-, skipped, rest, rfl, hSkipped⟩ := List.find?_eq_some_iff_append.1 h
  obtain ⟨-, hRest, -⟩ := List.pairwise_append.1 hSorted
  rcases List.mem_append.1 hy with hIn | hIn
  · have hNot := hSkipped y hIn
    rw [hp] at hNot
    cases hNot
  · rcases List.mem_cons.1 hIn with hFound | hBehind
    · exact .inl hFound
    · exact .inr ((List.pairwise_cons.1 hRest).1 y hBehind)

/-- Lists are known by the keys of their elements where these keys tell the elements apart. -/
theorem eq_of_map_eq_map {key : α → β}
    (hKey : ∀ x ∈ xs, ∀ y ∈ ys, key x = key y → x = y) (h : xs.map key = ys.map key) :
    xs = ys := by
  induction xs generalizing ys with
  | nil => exact (List.map_eq_nil_iff.1 h.symm).symm
  | cons x xs ih =>
      cases ys with
      | nil => cases h
      | cons y ys =>
          obtain ⟨hHead, hTail⟩ := List.cons.inj h
          have hRest : xs = ys := by
            refine ih (fun x hx y hy => ?_) hTail
            exact hKey x (List.mem_cons_of_mem _ hx) y (List.mem_cons_of_mem _ hy)
          rw [hKey x List.mem_cons_self y List.mem_cons_self hHead, hRest]

theorem map_eq_of_forall₂ {f : β → γ} {g : α → γ} {ys : List β}
    (h : List.Forall₂ (fun x y => f y = g x) xs ys) : ys.map f = xs.map g := by
  rw [← List.forall₂_eq_eq_eq, List.forall₂_map_left_iff, List.forall₂_map_right_iff]
  exact h.flip

end

/-! ### Results that may be errors -/

section

variable {α β ε ε' : Type} {f : ε → ε'} {x : Except ε α}

@[simp] theorem mapError_ok (f : ε → ε') (a : α) : (Except.ok a).mapError f = .ok a :=
  rfl

@[simp] theorem mapError_error (f : ε → ε') (e : ε) :
    (Except.error e : Except ε α).mapError f = .error (f e) :=
  rfl

/-- Another wording of errors leaves the results as they are. -/
theorem mapError_eq_ok_iff {a : α} : x.mapError f = .ok a ↔ x = .ok a := by
  cases x <;> simp

/-- What a sequence of two parts gives was given by each of them. -/
theorem exists_of_bind_eq_ok {next : α → Except ε β} {b : β} (h : (x >>= next) = .ok b) :
    ∃ a, x = .ok a ∧ next a = .ok b := by
  cases x with
  | error e => cases h
  | ok a => exact ⟨a, rfl, h⟩

/-- A list of parts succeeds when each part does, and its results stand where the parts do. -/
theorem exists_mapM {part : α → Except ε β} {R : α → β → Prop} {xs : List α}
    (h : ∀ x ∈ xs, ∃ y, part x = .ok y ∧ R x y) :
    ∃ ys, xs.mapM part = .ok ys ∧ List.Forall₂ R xs ys := by
  induction xs with
  | nil => exact ⟨[], rfl, .nil⟩
  | cons x rest ih =>
      obtain ⟨y, hy, hFirst⟩ := h x List.mem_cons_self
      obtain ⟨ys, hys, hRest⟩ := ih fun z hz => h z (List.mem_cons_of_mem x hz)
      refine ⟨y :: ys, ?_, .cons hFirst hRest⟩
      rw [List.mapM_cons, hy, hys]
      rfl

end

end Licensing
