import Licensing.Proofs.NormalForm.Choices
import Licensing.Proofs.NormalForm.Policy

/-!
Implication between normal forms. One implies another when every list of allowed texts that
satisfies it satisfies the other, and it does exactly when each of its clauses contains a clause of
the other, both read as the texts of their terms. The texts of a clause are the list that would tell
the two apart.

Equivalence and validity of a choice compare clauses, so they are enough for implication. They are
not needed for it: a clause may absorb a smaller one, and different terms may be written alike.
-/

namespace Licensing

namespace Clause

theorem all_contains_iff {c : Clause} {allowed : List String} :
    (c.all fun t => allowed.contains t.text) = true ↔ texts c ⊆ allowed := by
  simp only [List.all_eq_true, List.contains_iff_mem, List.subset_def, texts, List.mem_map]
  constructor
  · rintro h _ ⟨t, ht, rfl⟩
    exact h t ht
  · intro h t ht
    exact h ⟨t, ht, rfl⟩

/-- Flags are not written. -/
theorem texts_subset_of_termSet_subset {c d : Clause} (h : c.termSet ⊆ d.termSet) :
    texts c ⊆ texts d := by
  intro s hs
  obtain ⟨t, ht, rfl⟩ := List.mem_map.1 hs
  obtain ⟨u, hu, hBare⟩ := mem_termSet.1 (h (mem_termSet.2 ⟨t, ht, rfl⟩))
  have hText : u.text = t.text := by rw [← Term.text_bare, hBare, Term.text_bare]
  exact List.mem_map.2 ⟨u, hu, hText⟩

end Clause

namespace NormalForm

variable {nf other : NormalForm}

/-- A list satisfies a normal form when it has all texts of some clause. -/
theorem isSatisfiedBy_iff_texts {allowed : List String} :
    nf.isSatisfiedBy allowed = true ↔ ∃ c ∈ nf.clauses, Clause.texts c ⊆ allowed := by
  simp only [isSatisfiedBy, List.any_eq_true, Clause.all_contains_iff]

def Implies (nf other : NormalForm) : Prop :=
  ∀ allowed, nf.isSatisfiedBy allowed = true → other.isSatisfiedBy allowed = true

/-- Each clause of the first normal form contains one of the second, as far as texts tell. -/
def AbsorbedBy (nf other : NormalForm) : Prop :=
  ∀ c ∈ nf.clauses, ∃ d ∈ other.clauses, Clause.texts d ⊆ Clause.texts c

instance (nf other : NormalForm) : Decidable (nf.AbsorbedBy other) :=
  inferInstanceAs
    (Decidable (∀ c ∈ nf.clauses, ∃ d ∈ other.clauses, Clause.texts d ⊆ Clause.texts c))

/-- Each clause is tested by the list of its own texts, which satisfies the first normal form. -/
theorem implies_iff_absorbedBy : nf.Implies other ↔ nf.AbsorbedBy other := by
  constructor
  · intro h c hc
    -- The clause allows itself, and nothing beyond it.
    exact isSatisfiedBy_iff_texts.1 (h _ (isSatisfiedBy_iff_texts.2 ⟨c, hc, List.Subset.refl _⟩))
  · intro h allowed hAllowed
    obtain ⟨c, hc, hTexts⟩ := isSatisfiedBy_iff_texts.1 hAllowed
    obtain ⟨d, hd, hInside⟩ := h c hc
    exact isSatisfiedBy_iff_texts.2 ⟨d, hd, List.Subset.trans hInside hTexts⟩

theorem absorbedBy_of_sets_subset (h : nf.sets ⊆ other.sets) : nf.AbsorbedBy other := by
  intro c hc
  obtain ⟨d, hd, hSet⟩ := Clauses.mem_sets.1 (h (Clauses.mem_sets.2 ⟨c, hc, rfl⟩))
  exact ⟨d, hd, Clause.texts_subset_of_termSet_subset hSet.subset⟩

/-- No list of allowed texts tells two normal forms apart when they imply each other. -/
theorem isSatisfiedBy_eq_iff :
    (∀ allowed, nf.isSatisfiedBy allowed = other.isSatisfiedBy allowed) ↔
      nf.Implies other ∧ other.Implies nf := by
  constructor
  · intro h
    exact ⟨fun allowed hAllowed => h allowed ▸ hAllowed,
      fun allowed hAllowed => h allowed ▸ hAllowed⟩
  · intro ⟨hFirst, hSecond⟩ allowed
    exact Bool.eq_iff_iff.2 ⟨hFirst allowed, hSecond allowed⟩

end NormalForm

namespace Expr

variable {a b : Expr}

/-- The lists of allowed texts that satisfy an expression satisfy another one exactly when its
clauses are absorbed by those of the other, and the same lists satisfy both exactly when each
absorbs the other's. A valid choice implies the whole, and no list separates equivalent
expressions. -/
theorem implication_iff_absorption (ha : a.Proper) (hb : b.Proper) :
    ∃ nf other valid equivalent,
      (∀ threshold, (a.normalize threshold).run.value = .ok nf) ∧
      (∀ threshold, (b.normalize threshold).run.value = .ok other) ∧
      (a.isValidChoice b).run.value = .ok valid ∧
      (a.isEquivalent b).run.value = .ok equivalent ∧
      (nf.Implies other ↔ nf.AbsorbedBy other) ∧
      ((∀ allowed, nf.isSatisfiedBy allowed = other.isSatisfiedBy allowed) ↔
        nf.AbsorbedBy other ∧ other.AbsorbedBy nf) ∧
      (valid = true → nf.Implies other) ∧
      (equivalent = true →
        ∀ allowed, nf.isSatisfiedBy allowed = other.isSatisfiedBy allowed) := by
  rw [← isLicense_iff_proper] at ha hb
  obtain ⟨nf, hNormal, hSets, -⟩ := exists_normalForm ha
  obtain ⟨other, hOther, hOtherSets, -⟩ := exists_normalForm hb
  refine ⟨nf, other, _, _, fun threshold => by rw [value_normalize, hNormal],
    fun threshold => by rw [value_normalize, hOther], value_isValidChoice ha hb,
    value_isEquivalent ha hb, NormalForm.implies_iff_absorbedBy, ?_, ?_, ?_⟩
  · rw [NormalForm.isSatisfiedBy_eq_iff, NormalForm.implies_iff_absorbedBy,
      NormalForm.implies_iff_absorbedBy]
  · intro hValid
    rw [decide_eq_true_iff, ← hSets, ← hOtherSets] at hValid
    exact NormalForm.implies_iff_absorbedBy.2 (NormalForm.absorbedBy_of_sets_subset hValid)
  · intro hEquivalent
    rw [decide_eq_true_iff, ← hSets, ← hOtherSets] at hEquivalent
    rw [NormalForm.isSatisfiedBy_eq_iff, NormalForm.implies_iff_absorbedBy,
      NormalForm.implies_iff_absorbedBy]
    exact ⟨NormalForm.absorbedBy_of_sets_subset hEquivalent.subset,
      NormalForm.absorbedBy_of_sets_subset hEquivalent.superset⟩

/-- A license absorbs itself together with another one, and a reference that is written like it
allows the same. No list separates the two expressions, though their clauses differ. -/
theorem implication_iff_absorption_unequal :
    let mit := license (.listed "MIT" false false)
    let custom := license (.reference "LicenseRef-a")
    let a := join mit .or (join mit .and custom)
    let b := license (.reference "MIT")
    a.Proper ∧ b.Proper ∧ (a.isValidChoice b).run.value = .ok false ∧
      (a.isEquivalent b).run.value = .ok false ∧
      ∃ nf other, (a.normalize 64).run.value = .ok nf ∧ (b.normalize 64).run.value = .ok other ∧
        ∀ allowed, nf.isSatisfiedBy allowed = other.isSatisfiedBy allowed := by
  intro mit custom a b
  have ha : a.Proper := isLicense_iff_proper.1 ⟨trivial, trivial, trivial⟩
  have hb : b.Proper := isLicense_iff_proper.1 trivial
  obtain ⟨nf, other, -, -, hNormal, hOther, -, -, -, hSeparates, -, -⟩ :=
    implication_iff_absorption ha hb
  have hLeft : (a.normalize 64).run.value = .ok ⟨[[⟨.listed "MIT" false false, none⟩],
      [⟨.listed "MIT" false false, none⟩, ⟨.reference "LicenseRef-a", none⟩]]⟩ := by
    decide +kernel
  have hRight : (b.normalize 64).run.value = .ok ⟨[[⟨.reference "MIT", none⟩]]⟩ := by
    decide +kernel
  obtain rfl := Except.ok.inj ((hNormal 64).symm.trans hLeft)
  obtain rfl := Except.ok.inj ((hOther 64).symm.trans hRight)
  refine ⟨ha, hb, by decide +kernel, by decide +kernel, _, _, hNormal 64, hOther 64, ?_⟩
  exact hSeparates.2 ⟨by decide +kernel, by decide +kernel⟩

end Expr

end Licensing
