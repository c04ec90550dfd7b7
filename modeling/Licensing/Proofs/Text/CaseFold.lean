import Licensing.Text.Blank
import Licensing.Text.CaseFold

/-!
Characters without case. A set is caseless when the tables of case folding neither have an entry for
one of its characters nor an entry that leads to one; then folding a text leaves the characters of
the set where they are and puts no new ones into it. The blanks are such a set, and so is the
hyphen.
-/

namespace Licensing.Text

def outside (interval : Nat × Nat) (n : Nat) : Bool :=
  n < interval.1 || interval.2 < n

/-- The run neither meets the interval nor leads into it. -/
def FoldRun.avoids (run : FoldRun) (interval : Nat × Nat) : Bool :=
  (run.last < interval.1 || interval.2 < run.first) &&
    (run.last + run.shift < interval.1 || interval.2 < run.first + run.shift)

namespace Charset

/-- Folding changes no character of the set and no other one into it. -/
def caseless (set : Charset) : Bool :=
  set.all fun interval => 0 < interval.1 && foldRuns.all (·.avoids interval) &&
    foldExpansions.all fun entry => (entry.1 :: entry.2).all (outside interval)

def hyphen : Charset := [(0x2D, 0x2D)]

theorem has_hyphen_iff {c : Char} : hyphen.has c = true ↔ c = '-' := by
  simp only [has_iff, hyphen, List.mem_singleton, exists_eq_left]
  constructor
  · rintro ⟨hLow, hHigh⟩
    exact Char.toNat_inj.1 (Nat.le_antisymm hHigh hLow)
  · rintro rfl
    decide

theorem caseless_hyphen : hyphen.caseless = true := by
  decide +kernel

/-- No blank is folded, and nothing is folded to one. -/
theorem caseless_blanks : blanks.caseless = true := by
  decide +kernel

variable {set : Charset} {c d : Char}

theorem caseless_iff : set.caseless = true ↔ ∀ interval ∈ set, 0 < interval.1 ∧
    (∀ run ∈ foldRuns, run.avoids interval = true) ∧
      ∀ entry ∈ foldExpansions, ∀ n ∈ entry.1 :: entry.2, outside interval n = true := by
  simp only [caseless, List.all_eq_true, Bool.and_eq_true, decide_eq_true_eq, and_assoc]

end Charset

theorem toNat_ofNat (n : Nat) : (Char.ofNat n).toNat = n ∨ (Char.ofNat n).toNat = 0 := by
  by_cases h : n.isValidChar
  · left
    rw [Char.ofNat, dif_pos h]
    rfl
  · right
    rw [Char.ofNat, dif_neg h]
    rfl

/-- A folded character comes from an entry of one of the tables, or it is the character itself. -/
theorem foldChar_cases (c : Char) :
    (∃ expansion, (c.toNat, expansion) ∈ foldExpansions ∧
      foldChar c = expansion.map Char.ofNat) ∨
    (∃ run ∈ foldRuns, run.has c.toNat = true ∧
      foldChar c = [Char.ofNat (c.toNat + run.shift).toNat]) ∨
    foldChar c = [c] := by
  unfold foldChar
  split
  · rename_i expansion hEntry
    obtain ⟨before, behind, hTable, -⟩ := List.lookup_eq_some_iff.1 hEntry
    exact .inl ⟨expansion, by simp [hTable], rfl⟩
  · split
    · rename_i run hRun
      have hHas := List.find?_some hRun
      exact .inr (.inl ⟨run, List.mem_of_find?_eq_some hRun, hHas, rfl⟩)
    · exact .inr (.inr rfl)

theorem foldChar_ne_nil (c : Char) : foldChar c ≠ [] := by
  have hTable : (foldExpansions.all fun entry => !entry.2.isEmpty) = true := by decide +kernel
  rcases foldChar_cases c with ⟨expansion, hEntry, hFold⟩ | ⟨run, -, -, hFold⟩ | hFold
  · have hSome := List.all_eq_true.1 hTable _ hEntry
    rw [hFold]
    simpa using hSome
  · simp [hFold]
  · simp [hFold]

section

variable {set : Charset} {c d : Char} {s : List Char}

/-- A caseless character folds to itself. -/
theorem foldChar_of_has (h : set.caseless = true) (hc : set.has c = true) : foldChar c = [c] := by
  obtain ⟨interval, hInterval, hLow, hHigh⟩ := Charset.has_iff.1 hc
  obtain ⟨-, hRuns, hExpansions⟩ := Charset.caseless_iff.1 h interval hInterval
  rcases foldChar_cases c with ⟨expansion, hEntry, -⟩ | ⟨run, hRun, hHas, -⟩ | hFold
  · have hOutside := hExpansions _ hEntry c.toNat List.mem_cons_self
    simp only [outside, Bool.or_eq_true, decide_eq_true_eq] at hOutside
    omega
  · have hAvoids := hRuns run hRun
    simp only [FoldRun.avoids, Bool.and_eq_true, Bool.or_eq_true, decide_eq_true_eq] at hAvoids
    simp only [FoldRun.has, Bool.and_eq_true, decide_eq_true_eq] at hHas
    omega
  · exact hFold

/-- Nothing folds to a caseless character but the character itself. -/
theorem eq_of_mem_foldChar (h : set.caseless = true) (hd : set.has d = true)
    (hMem : d ∈ foldChar c) : d = c := by
  obtain ⟨interval, hInterval, hLow, hHigh⟩ := Charset.has_iff.1 hd
  obtain ⟨hPositive, hRuns, hExpansions⟩ := Charset.caseless_iff.1 h interval hInterval
  rcases foldChar_cases c with ⟨expansion, hEntry, hFold⟩ | ⟨run, hRun, hHas, hFold⟩ | hFold
  · rw [hFold] at hMem
    obtain ⟨n, hn, rfl⟩ := List.mem_map.1 hMem
    have hOutside := hExpansions _ hEntry n (List.mem_cons_of_mem _ hn)
    simp only [outside, Bool.or_eq_true, decide_eq_true_eq] at hOutside
    rcases toNat_ofNat n with hSame | hZero <;> omega
  · rw [hFold] at hMem
    obtain rfl := List.mem_singleton.1 hMem
    have hAvoids := hRuns run hRun
    simp only [FoldRun.avoids, Bool.and_eq_true, Bool.or_eq_true, decide_eq_true_eq] at hAvoids
    simp only [FoldRun.has, Bool.and_eq_true, decide_eq_true_eq] at hHas
    rcases toNat_ofNat (c.toNat + run.shift).toNat with hSame | hZero <;> omega
  · rw [hFold] at hMem
    exact List.mem_singleton.1 hMem

theorem all_has_foldChar (h : set.caseless = true) (c : Char) :
    (foldChar c).all set.has = set.has c := by
  cases hc : set.has c with
  | true => simp [foldChar_of_has h hc, hc]
  | false =>
      obtain ⟨d, hd⟩ := List.exists_mem_of_ne_nil _ (foldChar_ne_nil c)
      rw [List.all_eq_false]
      refine ⟨d, hd, ?_⟩
      intro hHas
      rw [eq_of_mem_foldChar h hHas hd, hc] at hHas
      cases hHas

/-- A text is made of caseless characters exactly when the folded text is. -/
theorem all_has_fold (h : set.caseless = true) (s : List Char) :
    (fold s).all set.has = s.all set.has := by
  rw [fold, List.all_flatMap]
  simp only [all_has_foldChar h]

/-- A caseless character is the first of a text exactly when it is the first of the folded one. -/
theorem head?_fold_eq_some_iff (h : set.caseless = true) (hd : set.has d = true) :
    (fold s).head? = some d ↔ s.head? = some d := by
  cases s with
  | nil => simp
  | cons c rest =>
      obtain ⟨first, others, hFold⟩ := List.exists_cons_of_ne_nil (foldChar_ne_nil c)
      rw [fold_cons, hFold, List.cons_append, List.head?_cons, List.head?_cons, Option.some.injEq,
        Option.some.injEq]
      constructor
      · rintro rfl
        exact (eq_of_mem_foldChar h hd (by simp [hFold])).symm
      · rintro rfl
        have hMem : first ∈ foldChar c := by simp [hFold]
        rw [foldChar_of_has h hd] at hMem
        exact List.mem_singleton.1 hMem

/-- A caseless character is the last of a text exactly when it is the last of the folded one. -/
theorem getLast?_fold_eq_some_iff (h : set.caseless = true) (hd : set.has d = true) :
    (fold s).getLast? = some d ↔ s.getLast? = some d := by
  rcases List.eq_nil_or_concat s with rfl | ⟨front, c, rfl⟩
  · simp
  · rcases List.eq_nil_or_concat (foldChar c) with hNil | ⟨others, last, hFold⟩
    · exact absurd hNil (foldChar_ne_nil c)
    rw [List.concat_eq_append] at hFold ⊢
    rw [fold_append, fold_cons, fold_nil, List.append_nil, hFold, ← List.append_assoc,
      List.getLast?_concat, List.getLast?_concat, Option.some.injEq, Option.some.injEq]
    constructor
    · rintro rfl
      exact (eq_of_mem_foldChar h hd (by simp [hFold])).symm
    · rintro rfl
      have hMem : last ∈ foldChar c := by simp [hFold]
      rw [foldChar_of_has h hd] at hMem
      exact List.mem_singleton.1 hMem

end

end Licensing.Text
