/-!
Text before and after a fixed beginning or ending.
-/

namespace Licensing.Text

/-- A text without an ending that it has. -/
def dropSuffix? (s ending : String) : Option String :=
  if ending.toList.isSuffixOf s.toList then
    some (String.ofList (s.toList.take (s.toList.length - ending.toList.length)))
  else none

/-- A text without a beginning that it has. -/
def dropPrefix? (s beginning : String) : Option String :=
  if beginning.toList.isPrefixOf s.toList then
    some (String.ofList (s.toList.drop beginning.toList.length))
  else none

theorem dropSuffix?_eq_some_iff {s ending rest : String} :
    dropSuffix? s ending = some rest ↔ s = rest ++ ending := by
  simp only [dropSuffix?, Option.ite_none_right_eq_some, Option.some.injEq,
    List.isSuffixOf_iff_suffix]
  constructor
  · rintro ⟨⟨before, hBefore⟩, rfl⟩
    apply String.toList_injective
    simp [← hBefore]
  · rintro rfl
    simp

theorem dropSuffix?_append (stem ending : String) :
    dropSuffix? (stem ++ ending) ending = some stem :=
  dropSuffix?_eq_some_iff.2 rfl

theorem dropSuffix?_eq_none_iff {s ending : String} :
    dropSuffix? s ending = none ↔ ∀ stem, s ≠ stem ++ ending := by
  rw [Option.eq_none_iff_forall_ne_some]
  exact forall_congr' fun stem => not_congr dropSuffix?_eq_some_iff

theorem dropPrefix?_eq_some_iff {s beginning rest : String} :
    dropPrefix? s beginning = some rest ↔ s = beginning ++ rest := by
  simp only [dropPrefix?, Option.ite_none_right_eq_some, Option.some.injEq,
    List.isPrefixOf_iff_prefix]
  constructor
  · rintro ⟨⟨after, hAfter⟩, rfl⟩
    apply String.toList_injective
    simp [← hAfter]
  · rintro rfl
    simp

def hasSuffix (s ending : String) : Bool :=
  (dropSuffix? s ending).isSome

def hasPrefix (s beginning : String) : Bool :=
  (dropPrefix? s beginning).isSome

theorem hasSuffix_iff {s ending : String} :
    hasSuffix s ending = true ↔ ∃ rest, s = rest ++ ending := by
  simp [hasSuffix, Option.isSome_iff_exists, dropSuffix?_eq_some_iff]

theorem hasPrefix_iff {s beginning : String} :
    hasPrefix s beginning = true ↔ ∃ rest, s = beginning ++ rest := by
  simp [hasPrefix, Option.isSome_iff_exists, dropPrefix?_eq_some_iff]

/-- Two endings of which neither ends in the other have no text in common. -/
theorem append_ne_append (ending other : String)
    (h : ending.toList.isSuffixOf other.toList = false)
    (h' : other.toList.isSuffixOf ending.toList = false) (stem rest : String) :
    stem ++ ending ≠ rest ++ other := by
  intro hSame
  have hLists : stem.toList ++ ending.toList = rest.toList ++ other.toList := by
    rw [← String.toList_append, hSame, String.toList_append]
  have hFirst : ending.toList <:+ rest.toList ++ other.toList := ⟨_, hLists⟩
  have hSecond : other.toList <:+ rest.toList ++ other.toList := List.suffix_append _ _
  rcases List.suffix_or_suffix_of_suffix hFirst hSecond with hIn | hIn
  · exact absurd (List.isSuffixOf_iff_suffix.2 hIn) (by simp [h])
  · exact absurd (List.isSuffixOf_iff_suffix.2 hIn) (by simp [h'])

end Licensing.Text
