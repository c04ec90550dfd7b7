import Licensing.Proofs.Reference.Split
import Licensing.Proofs.Text.CaseFold

/-!
Names that differ in letter case. Without regard to case a name is compared by its folded text, but
the candidate is cut by the length that the name has before it is folded, and folding may turn one
character into several. So names that fold alike are referred to alike exactly when they have the
same length; scanners are compared whole, and for them no length counts.
-/

namespace Licensing.Reference

open Text (fold)

/-- Folding a text neither blanks it nor moves a hyphen to one of its ends. -/
theorem isName_fold (name : List Char) : isName (fold name) = isName name := by
  have hHyphen : Text.Charset.hyphen.has '-' = true := Text.Charset.has_hyphen_iff.2 rfl
  have hBlank : (fold name).all Text.isBlank = name.all Text.isBlank :=
    Text.all_has_fold Text.Charset.caseless_blanks name
  have hFirst := Text.head?_fold_eq_some_iff (s := name) Text.Charset.caseless_hyphen hHyphen
  have hLast := Text.getLast?_fold_eq_some_iff (s := name) Text.Charset.caseless_hyphen hHyphen
  rw [Bool.eq_iff_iff]
  simp only [isName, hBlank, Bool.and_eq_true, bne_iff_ne, ne_eq, hFirst, hLast]

variable {a b : String}

theorem referable_iff_of_fold_eq (h : fold a.toList = fold b.toList) :
    Referable a ↔ Referable b := by
  rw [← isName_iff, ← isName_iff, ← isName_fold a.toList, h, isName_fold]

/-- Beside its length only the folded text of a name is looked at. -/
theorem Split.denotes_iff_of_fold_eq (h : fold a.toList = fold b.toList)
    (hLength : a.length = b.length) (s : Split) (namespaces : List String) :
    s.Denotes a true namespaces ↔ s.Denotes b true namespaces := by
  have hTail : Alike true s.tail a ↔ Alike true s.tail b := by
    simp only [Alike, if_true, h]
  constructor
  · intro hDenotes
    exact ⟨hDenotes.length.trans hLength, hTail.1 hDenotes.tail, hDenotes.scanner⟩
  · intro hDenotes
    exact ⟨hDenotes.length.trans hLength.symm, hTail.2 hDenotes.tail, hDenotes.scanner⟩

/-- The mark and a name that can be referred to are a reference to it. -/
theorem refersTo_mark_append {name : String} (h : Referable name) (ignoreCase : Bool)
    (namespaces : List String) : refersTo (mark ++ name) name ignoreCase namespaces = true := by
  refine refersTo_iff_denotes.2 ⟨h, ⟨none, name⟩, ?_, rfl, ?_, nofun⟩
  · rw [Split.text, Split.lead, String.empty_append]
  · cases ignoreCase <;> simp [Alike]

/-- Where no scanner is known, what stands behind the mark is as long as the name. -/
theorem length_eq_of_refersTo {rest name : String} {ignoreCase : Bool}
    (h : refersTo (mark ++ rest) name ignoreCase [] = true) : rest.length = name.length := by
  obtain ⟨-, ⟨scanner, tail⟩, hText, hDenotes⟩ := refersTo_iff_denotes.1 h
  rw [Split.text, String.append_right_inj] at hText
  cases scanner with
  | none =>
      rw [hText, Split.lead, String.empty_append]
      exact hDenotes.length
  | some scanner =>
      obtain ⟨known, hKnown, -⟩ := hDenotes.scanner scanner rfl
      exact absurd hKnown List.not_mem_nil

/-- Characters that do not expand keep the length of a text. -/
theorem length_fold_of_single {s : List Char} (h : ∀ c ∈ s, (Text.foldChar c).length = 1) :
    (fold s).length = s.length := by
  induction s with
  | nil => rfl
  | cons c rest ih =>
      rw [Text.fold_cons, List.length_append, h c List.mem_cons_self,
        ih fun d hd => h d (List.mem_cons_of_mem c hd), List.length_cons]
      omega

/-- Names that fold to one text are referred to by the same candidates when they have the same
length, and only then, as far as they can be referred to at all. Names in which no character folds
to more than one have it. -/
theorem refersTo_eq_iff_length_eq (h : fold a.toList = fold b.toList) :
    ((∀ candidate namespaces, refersTo candidate a true namespaces =
        refersTo candidate b true namespaces) ↔ (Referable a → a.length = b.length)) ∧
      ((∀ c ∈ a.toList ++ b.toList, (Text.foldChar c).length = 1) →
        ∀ candidate namespaces, refersTo candidate a true namespaces =
          refersTo candidate b true namespaces) := by
  have hSame (hLength : Referable a → a.length = b.length) (candidate : String)
      (namespaces : List String) :
      refersTo candidate a true namespaces = refersTo candidate b true namespaces := by
    rw [Bool.eq_iff_iff, refersTo_iff_denotes, refersTo_iff_denotes, referable_iff_of_fold_eq h]
    refine and_congr_right fun hName => exists_congr fun s => and_congr_right fun _ => ?_
    exact s.denotes_iff_of_fold_eq h (hLength ((referable_iff_of_fold_eq h).2 hName)) namespaces
  refine ⟨⟨fun hAlike hName => ?_, hSame⟩, fun hSingle => hSame fun _ => ?_⟩
  · have hRefers := refersTo_mark_append hName true []
    rw [hAlike] at hRefers
    exact length_eq_of_refersTo hRefers
  · have hFirst := length_fold_of_single fun c hc => hSingle c (List.mem_append_left _ hc)
    have hSecond := length_fold_of_single fun c hc => hSingle c (List.mem_append_right _ hc)
    rw [← String.length_toList, ← String.length_toList, ← hFirst, ← hSecond, h]

/-- The Kelvin sign folds to one letter, the sharp s to two. -/
theorem refersTo_eq_iff_length_eq_letters :
    fold "\u212Aermit".toList = fold "KERMIT".toList ∧
      (∀ candidate namespaces, refersTo candidate "\u212Aermit" true namespaces =
        refersTo candidate "KERMIT" true namespaces) ∧
      fold "Straße".toList = fold "STRASSE".toList ∧
      ¬ ∀ candidate namespaces, refersTo candidate "Straße" true namespaces =
        refersTo candidate "STRASSE" true namespaces := by
  have hKelvin : fold "\u212Aermit".toList = fold "KERMIT".toList := by decide +kernel
  have hSharp : fold "Straße".toList = fold "STRASSE".toList := by decide +kernel
  have hSingle : ∀ c ∈ "\u212Aermit".toList ++ "KERMIT".toList,
      (Text.foldChar c).length = 1 := by
    have hAll : (("\u212Aermit".toList ++ "KERMIT".toList).all fun c =>
        (Text.foldChar c).length == 1) = true := by
      decide +kernel
    intro c hc
    exact eq_of_beq (List.all_eq_true.1 hAll c hc)
  have hName : Referable "Straße" := isName_iff.1 (by decide +kernel)
  refine ⟨hKelvin, (refersTo_eq_iff_length_eq hKelvin).2 hSingle, hSharp, ?_⟩
  intro hAlike
  exact absurd ((refersTo_eq_iff_length_eq hSharp).1.1 hAlike hName) (by decide)

/-- A name with a sharp s is referred to, and the same name in capitals, which is one letter longer,
is not. Scanners that differ so are the same one. -/
theorem refersTo_ne_of_fold_eq :
    fold "Straße".toList = fold "STRASSE".toList ∧
      refersTo "LicenseRef-Straße" "Straße" = true ∧
      refersTo "LicenseRef-Straße" "STRASSE" = false ∧
      refersTo "LicenseRef-Straße-MIT" "MIT" true ["STRASSE"] = true := by
  refine ⟨?_, ?_, ?_, ?_⟩ <;> decide +kernel

end Licensing.Reference
