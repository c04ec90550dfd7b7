import Licensing.Reference

/-!
What a reference looks like. A candidate refers to a name when it can be split into the mark, a
known scanner with a hyphen behind it, if one is named, and a tail that is the name. The tail is as
long as the name, so a candidate is split in one way at most, whatever hyphens and marks stand in
the name and in the scanner.
-/

namespace Licensing.Reference

/-- A name that can be referred to: something in it is no blank, and it has no hyphen at either
end. -/
structure Referable (name : String) : Prop where
  visible : ∃ c ∈ name.toList, Text.isBlank c = false
  first : ∀ rest, name ≠ "-" ++ rest
  last : ∀ rest, name ≠ rest ++ "-"

def Alike (ignoreCase : Bool) (a b : String) : Prop :=
  if ignoreCase then Text.fold a.toList = Text.fold b.toList else a = b

def Known (namespaces : List String) (scanner : String) : Prop :=
  ∃ known ∈ namespaces, Text.fold scanner.toList = Text.fold known.toList

/-- The parts of a reference behind the mark. -/
@[ext]
structure Split where
  scanner : Option String
  tail : String

namespace Split

def lead (s : Split) : String :=
  match s.scanner with
  | none => ""
  | some scanner => scanner ++ "-"

def text (s : Split) : String :=
  mark ++ (s.lead ++ s.tail)

/-- The tail is the name, and the scanner is a known one. -/
structure Denotes (s : Split) (name : String) (ignoreCase : Bool) (namespaces : List String) :
    Prop where
  length : s.tail.length = name.length
  tail : Alike ignoreCase s.tail name
  scanner : ∀ scanner ∈ s.scanner, Known namespaces scanner

end Split

variable {candidate name : String} {ignoreCase : Bool} {namespaces : List String}

theorem isName_iff : isName name.toList = true ↔ Referable name := by
  have hFirst : name.toList.head? = some '-' ↔ ∃ rest, name = "-" ++ rest := by
    rw [List.head?_eq_some_iff]
    constructor
    · rintro ⟨rest, hRest⟩
      exact ⟨String.ofList rest, String.toList_injective (by simpa using hRest)⟩
    · rintro ⟨rest, rfl⟩
      exact ⟨rest.toList, by simp⟩
  have hLast : name.toList.getLast? = some '-' ↔ ∃ rest, name = rest ++ "-" := by
    rw [List.getLast?_eq_some_iff]
    constructor
    · rintro ⟨rest, hRest⟩
      exact ⟨String.ofList rest, String.toList_injective (by simpa using hRest)⟩
    · rintro ⟨rest, rfl⟩
      exact ⟨rest.toList, by simp⟩
  simp only [isName, Bool.and_eq_true, Bool.not_eq_true', List.all_eq_false, bne_iff_ne, ne_eq,
    hFirst, hLast, not_exists, Bool.not_eq_true]
  constructor
  · rintro ⟨⟨visible, first⟩, last⟩
    exact ⟨visible, first, last⟩
  · rintro ⟨visible, first, last⟩
    exact ⟨⟨visible, first⟩, last⟩

theorem sameName_iff {a b : String} :
    sameName ignoreCase a.toList b.toList = true ↔ Alike ignoreCase a b := by
  cases ignoreCase with
  | true => simp [sameName, Alike]
  | false => simp [sameName, Alike, String.toList_inj]

/-- In front of a name stands nothing but a known scanner and a hyphen. -/
theorem isNamespace_iff {before : List Char} :
    isNamespace namespaces before = true ↔
      ∃ scanner : String, before = scanner.toList ++ ['-'] ∧ Known namespaces scanner := by
  simp only [isNamespace, Bool.and_eq_true, beq_iff_eq, List.any_eq_true]
  constructor
  · rintro ⟨hLast, known, hKnown, hFold⟩
    obtain ⟨scanner, rfl⟩ := List.getLast?_eq_some_iff.1 hLast
    rw [List.dropLast_concat] at hFold
    exact ⟨String.ofList scanner, by simp, known, hKnown, by simpa using hFold.symm⟩
  · rintro ⟨scanner, rfl, known, hKnown, hFold⟩
    exact ⟨by simp, known, hKnown, by simpa using hFold.symm⟩

/-- What stands behind the mark is cut where as many characters are left as the name has. -/
theorem restMatches_iff {rest name : List Char} :
    restMatches ignoreCase namespaces rest name = true ↔
      ∃ before tail, rest = before ++ tail ∧ tail.length = name.length ∧
        sameName ignoreCase tail name = true ∧
        (before = [] ∨ isNamespace namespaces before = true) := by
  simp only [restMatches, Bool.and_eq_true, Bool.or_eq_true, decide_eq_true_eq,
    List.isEmpty_iff]
  constructor
  · rintro ⟨⟨hLength, hSame⟩, hBefore⟩
    refine ⟨_, _, (List.take_append_drop _ rest).symm, ?_, hSame, hBefore⟩
    rw [List.length_drop]
    omega
  · rintro ⟨before, tail, rfl, hLength, hSame, hBefore⟩
    have hCount : (before ++ tail).length - name.length = before.length := by
      rw [List.length_append]
      omega
    rw [hCount, List.take_left, List.drop_left]
    refine ⟨⟨?_, hSame⟩, hBefore⟩
    rw [List.length_append]
    omega

/-- Behind the mark stand the parts of a split. -/
theorem restMatches_iff_denotes {rest : String} :
    restMatches ignoreCase namespaces rest.toList name.toList = true ↔
      ∃ s : Split, rest = s.lead ++ s.tail ∧ s.Denotes name ignoreCase namespaces := by
  rw [restMatches_iff]
  constructor
  · rintro ⟨before, tail, hRest, hLength, hSame, hBefore⟩
    have hTail : tail = (String.ofList tail).toList := String.toList_ofList.symm
    rw [hTail, sameName_iff] at hSame
    rw [hTail, String.length_toList, String.length_toList] at hLength
    rcases hBefore with rfl | hScanner
    · refine ⟨⟨none, String.ofList tail⟩, ?_, hLength, hSame, nofun⟩
      exact String.toList_injective (by simpa [Split.lead] using hRest)
    · obtain ⟨scanner, rfl, hKnown⟩ := isNamespace_iff.1 hScanner
      refine ⟨⟨some scanner, String.ofList tail⟩, ?_, hLength, hSame, ?_⟩
      · exact String.toList_injective (by simpa [Split.lead] using hRest)
      · intro other hOther
        obtain rfl := Option.some.inj hOther
        exact hKnown
  · rintro ⟨⟨scanner, tail⟩, rfl, hLength, hSame, hScanner⟩
    rw [← sameName_iff] at hSame
    rw [← String.length_toList, ← String.length_toList] at hLength
    cases scanner with
    | none => exact ⟨[], tail.toList, by simp [Split.lead], hLength, hSame, .inl rfl⟩
    | some scanner =>
        have hKnown := isNamespace_iff.2 ⟨scanner, rfl, hScanner scanner rfl⟩
        exact ⟨_, tail.toList, by simp [Split.lead], hLength, hSame, .inr hKnown⟩

/-- A reference is the mark with the parts of a split behind it. -/
theorem refersTo_iff_denotes :
    refersTo candidate name ignoreCase namespaces = true ↔
      Referable name ∧ ∃ s : Split, candidate = s.text ∧ s.Denotes name ignoreCase namespaces := by
  rw [refersTo, Bool.and_eq_true, isName_iff]
  refine and_congr_right fun _ => ?_
  cases hRest : Text.dropPrefix? candidate mark with
  | none =>
      refine iff_of_false Bool.false_ne_true ?_
      rintro ⟨s, hText, -⟩
      rw [Text.dropPrefix?_eq_some_iff.2 hText] at hRest
      cases hRest
  | some rest =>
      have hText (s : Split) : candidate = s.text ↔ rest = s.lead ++ s.tail := by
        rw [Text.dropPrefix?_eq_some_iff.1 hRest, Split.text, String.append_right_inj]
      simp only [hText]
      exact restMatches_iff_denotes

theorem Split.scanner_eq_of_lead_eq {s t : Split} (h : s.lead = t.lead) :
    s.scanner = t.scanner := by
  have hNonempty (scanner : String) : "" ≠ scanner ++ "-" := by
    intro hEmpty
    have hLength := congrArg String.length hEmpty
    rw [String.length_append] at hLength
    exact absurd hLength (Nat.succ_ne_zero _).symm
  unfold lead at h
  cases hs : s.scanner with
  | none =>
      cases ht : t.scanner with
      | none => rfl
      | some scanner =>
          rw [hs, ht] at h
          exact absurd h (hNonempty scanner)
  | some scanner =>
      cases ht : t.scanner with
      | none =>
          rw [hs, ht] at h
          exact absurd h.symm (hNonempty scanner)
      | some other =>
          rw [hs, ht] at h
          rw [(String.append_left_inj "-").1 h]

/-- Tails of one length leave no choice where to cut. -/
theorem Split.eq_of_text_eq {s t : Split} (h : s.text = t.text)
    (hLength : s.tail.length = t.tail.length) : s = t := by
  rw [text, text, String.append_right_inj, ← String.toList_inj, String.toList_append,
    String.toList_append] at h
  rw [← String.length_toList, ← String.length_toList] at hLength
  obtain ⟨hLead, hTail⟩ := List.append_inj' h hLength
  apply Split.ext
  · exact scanner_eq_of_lead_eq (String.toList_injective hLead)
  · exact String.toList_injective hTail

/-- A scanner stays known when others are added. -/
theorem Split.Denotes.mono {s : Split} {others : List String}
    (h : s.Denotes name ignoreCase namespaces) (hMore : ∀ ns ∈ namespaces, ns ∈ others) :
    s.Denotes name ignoreCase others where
  length := h.length
  tail := h.tail
  scanner scanner hScanner := by
    obtain ⟨known, hKnown, hFold⟩ := h.scanner scanner hScanner
    exact ⟨known, hMore known hKnown, hFold⟩

theorem refersTo_mono {others : List String} (hMore : ∀ ns ∈ namespaces, ns ∈ others)
    (h : refersTo candidate name ignoreCase namespaces = true) :
    refersTo candidate name ignoreCase others = true := by
  obtain ⟨hName, s, hText, hDenotes⟩ := refersTo_iff_denotes.1 h
  exact refersTo_iff_denotes.2 ⟨hName, s, hText, hDenotes.mono hMore⟩

/-- A candidate refers to a name exactly when the name is one that can be referred to and the
candidate splits into parts that denote it; it splits into them in one way at most. Of the scanners
it matters only which ones are known, and knowing more of them loses no reference. -/
theorem refersTo_iff_split (candidate name : String) (ignoreCase : Bool) :
    (∀ namespaces, refersTo candidate name ignoreCase namespaces = true ↔
      Referable name ∧ ∃ s : Split, candidate = s.text ∧ s.Denotes name ignoreCase namespaces) ∧
    (∀ namespaces (s t : Split), candidate = s.text → s.Denotes name ignoreCase namespaces →
      candidate = t.text → t.Denotes name ignoreCase namespaces → s = t) ∧
    (∀ namespaces others, (∀ ns, ns ∈ namespaces ↔ ns ∈ others) →
      refersTo candidate name ignoreCase namespaces =
        refersTo candidate name ignoreCase others) ∧
    ∀ namespaces others, (∀ ns ∈ namespaces, ns ∈ others) →
      refersTo candidate name ignoreCase namespaces = true →
        refersTo candidate name ignoreCase others = true := by
  refine ⟨fun namespaces => refersTo_iff_denotes, ?_, ?_, fun _ _ => refersTo_mono⟩
  · intro namespaces s t hText hDenotes hOther hOtherDenotes
    apply Split.eq_of_text_eq (hText.symm.trans hOther)
    rw [hDenotes.length, hOtherDenotes.length]
  · intro namespaces others hSame
    rw [Bool.eq_iff_iff]
    constructor
    · exact refersTo_mono fun ns hIn => (hSame ns).1 hIn
    · exact refersTo_mono fun ns hIn => (hSame ns).2 hIn

/-- A scanner with a hyphen in its name, in front of a name that has the mark in it. -/
theorem refersTo_iff_split_hyphenated :
    let candidate := "LicenseRef-My-Tool-LicenseRef-A"
    let name := "licenseref-a"
    let s : Split := ⟨some "My-Tool", "LicenseRef-A"⟩
    candidate = s.text ∧ s.Denotes name true ["my-tool"] ∧
      refersTo candidate name true ["my-tool"] = true ∧
      (∀ t : Split, candidate = t.text → t.Denotes name true ["my-tool"] → t = s) ∧
      refersTo candidate name true ["ORT", "my-tool", "ORT"] =
        refersTo candidate name true ["my-tool", "ORT"] ∧
      refersTo candidate name true ["ORT", "my-tool"] = true := by
  intro candidate name s
  have hText : candidate = s.text := by decide +kernel
  have hDenotes : s.Denotes name true ["my-tool"] := by
    refine ⟨by decide, ?_, ?_⟩
    · show Text.fold s.tail.toList = Text.fold name.toList
      decide +kernel
    intro scanner hScanner
    obtain rfl := Option.some.inj hScanner
    exact ⟨"my-tool", List.mem_singleton_self _, by decide +kernel⟩
  have hName : Referable name := isName_iff.1 (by decide +kernel)
  obtain ⟨hExact, hUnique, hOrder, hMore⟩ := refersTo_iff_split candidate name true
  have hRefers := (hExact ["my-tool"]).2 ⟨hName, s, hText, hDenotes⟩
  refine ⟨hText, hDenotes, hRefers, ?_, ?_, ?_⟩
  · intro t hOther hOtherDenotes
    exact hUnique ["my-tool"] t s hOther hOtherDenotes hText hDenotes
  · exact hOrder _ _ fun ns => by simp [or_comm]
  · exact hMore ["my-tool"] _ (fun ns hIn => List.mem_cons_of_mem _ hIn) hRefers

end Licensing.Reference
