import Licensing.Containers
import Licensing.Reference

/-!
The target of a reference. Sorting the names and taking the first that is referred to gives the best
of them: the longest, and of several that are as long the one that comes first by its characters.
That is one name at most, so it does not matter in which order the names are given, or how often.
-/

namespace Licensing.Reference

/-- The candidate refers to the name, to no longer one of the list, and to none of the same length
that comes before it. -/
structure IsTarget (candidate : String) (names : List String) (ignoreCase : Bool)
    (namespaces : List String) (name : String) : Prop where
  listed : name ∈ names
  refers : refersTo candidate name ignoreCase namespaces = true
  longest : ∀ other ∈ names, refersTo candidate other ignoreCase namespaces = true →
    other.length ≤ name.length
  first : ∀ other ∈ names, refersTo candidate other ignoreCase namespaces = true →
    other.length = name.length → name ≤ other

/-! ### The order in which names are tried -/

theorem triedBefore_iff {a b : String} :
    triedBefore a b = true ↔ b.length < a.length ∨ a.length = b.length ∧ a ≤ b := by
  simp [triedBefore]

theorem triedBefore_trans (a b c : String) (h : triedBefore a b = true)
    (hOther : triedBefore b c = true) : triedBefore a c = true := by
  rw [triedBefore_iff] at h hOther ⊢
  rcases h with hShorter | ⟨hSame, hBefore⟩
  · left
    omega
  · rcases hOther with hShorter | ⟨hOtherSame, hOtherBefore⟩
    · left
      omega
    · exact .inr ⟨hSame.trans hOtherSame, String.le_trans hBefore hOtherBefore⟩

theorem triedBefore_total (a b : String) : (triedBefore a b || triedBefore b a) = true := by
  rw [Bool.or_eq_true, triedBefore_iff, triedBefore_iff]
  rcases Nat.lt_trichotomy a.length b.length with hShorter | hSame | hLonger
  · exact .inr (.inl hShorter)
  · rcases String.le_total a b with hBefore | hBehind
    · exact .inl (.inr ⟨hSame, hBefore⟩)
    · exact .inr (.inr ⟨hSame.symm, hBehind⟩)
  · exact .inl (.inl hLonger)

/-! ### The best name -/

section

variable {candidate : String} {names : List String} {ignoreCase : Bool} {namespaces : List String}
  {name : String}

theorem findTarget?_eq_none_iff :
    findTarget? candidate names ignoreCase namespaces = none ↔
      ∀ name ∈ names, refersTo candidate name ignoreCase namespaces = false := by
  rw [findTarget?, List.find?_eq_none]
  simp only [List.mem_mergeSort, Bool.not_eq_true]

/-- The first name that fits in this order is the best one. -/
theorem isTarget_of_findTarget?
    (h : findTarget? candidate names ignoreCase namespaces = some name) :
    IsTarget candidate names ignoreCase namespaces name := by
  unfold findTarget? at h
  have hSorted := List.pairwise_mergeSort triedBefore_trans triedBefore_total names
  have hTried {other : String} (hListed : other ∈ names)
      (hRefers : refersTo candidate other ignoreCase namespaces = true) :
      other = name ∨ triedBefore name other = true :=
    before_of_find? hSorted h (List.mem_mergeSort.2 hListed) hRefers
  have hListed := List.mem_mergeSort.1 (List.mem_of_find?_eq_some h)
  have hRefers := List.find?_some h
  refine ⟨hListed, hRefers, ?_, ?_⟩
  · intro other hListed hRefers
    rcases hTried hListed hRefers with rfl | hBefore
    · exact Nat.le_refl _
    · rw [triedBefore_iff] at hBefore
      omega
  · intro other hListed hRefers hLength
    rcases hTried hListed hRefers with rfl | hBefore
    · exact String.le_refl _
    · rcases triedBefore_iff.1 hBefore with hShorter | ⟨-, hFirst⟩
      · omega
      · exact hFirst

/-- Two names that are both the best are the same. -/
theorem IsTarget.unique {other : String} (h : IsTarget candidate names ignoreCase namespaces name)
    (hOther : IsTarget candidate names ignoreCase namespaces other) : name = other := by
  have hLength : name.length = other.length :=
    Nat.le_antisymm (hOther.longest name h.listed h.refers)
      (h.longest other hOther.listed hOther.refers)
  exact String.le_antisymm (h.first other hOther.listed hOther.refers hLength.symm)
    (hOther.first name h.listed h.refers hLength)

/-- The target is known by what it is, not by how it is found. -/
theorem findTarget?_eq_some_iff :
    findTarget? candidate names ignoreCase namespaces = some name ↔
      IsTarget candidate names ignoreCase namespaces name := by
  constructor
  · exact isTarget_of_findTarget?
  · intro h
    cases hFound : findTarget? candidate names ignoreCase namespaces with
    | none =>
        have hRefused := findTarget?_eq_none_iff.1 hFound name h.listed
        exact absurd (h.refers.symm.trans hRefused) (by decide)
    | some other => rw [(isTarget_of_findTarget? hFound).unique h]

/-- Where some name is referred to there is a target, and it is not shorter. -/
theorem exists_findTarget?_of_refersTo (hListed : name ∈ names)
    (hRefers : refersTo candidate name ignoreCase namespaces = true) :
    ∃ target, findTarget? candidate names ignoreCase namespaces = some target ∧
      name.length ≤ target.length := by
  cases hFound : findTarget? candidate names ignoreCase namespaces with
  | none =>
      have hRefused := findTarget?_eq_none_iff.1 hFound name hListed
      exact absurd (hRefers.symm.trans hRefused) (by decide)
  | some target =>
      have hTarget := isTarget_of_findTarget? hFound
      exact ⟨target, rfl, hTarget.longest name hListed hRefers⟩

end

/-- A candidate has no target in a list when it refers to none of its names, and otherwise its
target is the best of them. The order of the names and their repetition do not matter, and with more
names there is still a target, which is not shorter. -/
theorem findTarget?_best (candidate : String) (ignoreCase : Bool) (namespaces : List String) :
    (∀ names, findTarget? candidate names ignoreCase namespaces = none ↔
      ∀ name ∈ names, refersTo candidate name ignoreCase namespaces = false) ∧
    (∀ names name, findTarget? candidate names ignoreCase namespaces = some name ↔
      IsTarget candidate names ignoreCase namespaces name) ∧
    (∀ names others, (∀ name, name ∈ names ↔ name ∈ others) →
      findTarget? candidate names ignoreCase namespaces =
        findTarget? candidate others ignoreCase namespaces) ∧
    ∀ names others, (∀ name ∈ names, name ∈ others) → ∀ name,
      findTarget? candidate names ignoreCase namespaces = some name →
        ∃ target, findTarget? candidate others ignoreCase namespaces = some target ∧
          name.length ≤ target.length := by
  refine ⟨fun names => findTarget?_eq_none_iff, fun names name => findTarget?_eq_some_iff, ?_, ?_⟩
  · intro names others hSame
    apply Option.ext
    intro name
    have hMoved {xs ys : List String} (hSub : ∀ name, name ∈ xs ↔ name ∈ ys)
        (h : IsTarget candidate xs ignoreCase namespaces name) :
        IsTarget candidate ys ignoreCase namespaces name :=
      ⟨(hSub name).1 h.listed, h.refers, fun other hIn => h.longest other ((hSub other).2 hIn),
        fun other hIn => h.first other ((hSub other).2 hIn)⟩
    rw [findTarget?_eq_some_iff, findTarget?_eq_some_iff]
    exact ⟨hMoved hSame, hMoved fun name => (hSame name).symm⟩
  · intro names others hMore name hFound
    have hTarget := isTarget_of_findTarget? hFound
    exact exists_findTarget?_of_refersTo (hMore name hTarget.listed) hTarget.refers

/-- Two spellings of one name, of which capitals come first, and a longer name that is added. -/
theorem findTarget?_best_spellings :
    let candidate := "LicenseRef-scancode-public-domain"
    let names := ["public-domain", "domain", "Public-Domain"]
    let others := "ScanCode-Public-Domain" :: names
    IsTarget candidate names true defaultNamespaces "Public-Domain" ∧
      findTarget? candidate names = some "Public-Domain" ∧
      findTarget? candidate (names.reverse ++ names) = some "Public-Domain" ∧
      ∃ target, findTarget? candidate others = some target ∧
        "Public-Domain".length ≤ target.length := by
  intro candidate names others
  obtain ⟨-, hBest, hOrder, hMore⟩ := findTarget?_best candidate true defaultNamespaces
  have hTarget : IsTarget candidate names true defaultNamespaces "Public-Domain" := by
    refine ⟨by decide, by decide +kernel, ?_, ?_⟩
    · intro other hListed _
      simp only [names, List.mem_cons, List.not_mem_nil, or_false] at hListed
      rcases hListed with rfl | rfl | rfl <;> decide
    · intro other hListed hRefers _
      simp only [names, List.mem_cons, List.not_mem_nil, or_false] at hListed
      rcases hListed with rfl | rfl | rfl
      · decide
      · exact absurd hRefers (by decide +kernel)
      · decide
  have hFound := (hBest names "Public-Domain").2 hTarget
  refine ⟨hTarget, hFound, ?_, ?_⟩
  · rw [← hFound]
    exact hOrder _ _ fun name => by simp
  · exact hMore names others (fun name hIn => List.mem_cons_of_mem _ hIn) _ hFound

end Licensing.Reference
