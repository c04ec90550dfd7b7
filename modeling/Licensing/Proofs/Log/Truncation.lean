import Mathlib.Data.List.Forall2
import Licensing.Log.Truncation

/-!
Cutting long texts. A text that was cut is longer than the limit again, for the mark stands behind
all the characters that are kept. Cut a second time it loses the mark, no more and no less, and gets
it back; so a message that is cut again stays as it is.
-/

namespace Licensing.Log

structure CutShort (s t : String) : Prop where
  keeps : t.toList.take maxFieldLength = s.toList.take maxFieldLength
  marked : truncationMark.toList <:+ t.toList
  length_eq : t.length = maxFieldLength + truncationMark.length

theorem CutShort.long {s t : String} (h : CutShort s t) : maxFieldLength < t.length := by
  have hMark : 0 < truncationMark.length := by decide
  have hLength := h.length_eq
  omega

section Text

variable {s : String}

theorem truncateText_of_length_le (h : s.length ≤ maxFieldLength) : truncateText s = s := by
  rw [truncateText, if_neg (Nat.not_lt.2 h)]

theorem toList_truncateText (h : maxFieldLength < s.length) :
    (truncateText s).toList = s.toList.take maxFieldLength ++ truncationMark.toList := by
  rw [truncateText, if_pos h, String.toList_append, String.toList_ofList]

theorem length_take_toList (h : maxFieldLength < s.length) :
    (s.toList.take maxFieldLength).length = maxFieldLength := by
  rw [List.length_take, String.length_toList]
  omega

/-- The characters before the mark are those that a second cut keeps. -/
theorem take_toList_truncateText (h : maxFieldLength < s.length) :
    (truncateText s).toList.take maxFieldLength = s.toList.take maxFieldLength := by
  rw [toList_truncateText h]
  exact List.take_left' (length_take_toList h)

/-- A text that was cut is as long as any other one that was. -/
theorem length_truncateText (h : maxFieldLength < s.length) :
    (truncateText s).length = maxFieldLength + truncationMark.length := by
  rw [← String.length_toList, toList_truncateText h, List.length_append, length_take_toList h,
    String.length_toList]

theorem cutShort_truncateText (h : maxFieldLength < s.length) : CutShort s (truncateText s) where
  keeps := take_toList_truncateText h
  marked := by
    rw [toList_truncateText h]
    exact List.suffix_append _ _
  length_eq := length_truncateText h

/-- A text that was cut may still be too long and is then cut again, to the same text. -/
theorem truncateText_truncateText (s : String) :
    truncateText (truncateText s) = truncateText s := by
  rcases Nat.lt_or_ge maxFieldLength s.length with hLong | hFits
  · have hAgain : maxFieldLength < (truncateText s).length := (cutShort_truncateText hLong).long
    apply String.toList_injective
    rw [toList_truncateText hAgain, take_toList_truncateText hLong, ← toList_truncateText hLong]
  · rw [truncateText_of_length_le hFits, truncateText_of_length_le hFits]

end Text

variable {ω : Type}

theorem Field.truncate_truncate (value : Field ω) : value.truncate.truncate = value.truncate := by
  cases value with
  | text s => exact congrArg Field.text (truncateText_truncateText s)
  | other value => rfl

/-- What becomes of the value under a name: it stays, unless it is a long text and not the name of
the event. -/
inductive Becomes (name : String) : Field ω → Field ω → Prop where
  | event (value : Field ω) (named : name = eventKey) : Becomes name value value
  | other (value : ω) : Becomes name (.other value) (.other value)
  | whole (s : String) (fits : s.length ≤ maxFieldLength) : Becomes name (.text s) (.text s)
  | short (s t : String) (named : name ≠ eventKey) (long : maxFieldLength < s.length)
      (cut : CutShort s t) : Becomes name (.text s) (.text t)

theorem becomes_truncate (name : String) (value : Field ω) :
    Becomes name value (if name = eventKey then value else value.truncate) := by
  by_cases hEvent : name = eventKey
  · rw [if_pos hEvent]
    exact .event value hEvent
  · rw [if_neg hEvent]
    cases value with
    | other value => exact .other value
    | text s =>
        show Becomes name (.text s) (.text (truncateText s))
        rcases Nat.lt_or_ge maxFieldLength s.length with hLong | hFits
        · exact .short s _ hEvent hLong (cutShort_truncateText hLong)
        · rw [truncateText_of_length_le hFits]
          exact .whole s hFits

/-- No text is longer than the limit and the mark together, save the name of the event. -/
theorem Becomes.length_le {name : String} {value : Field ω} {s : String}
    (h : Becomes name value (.text s)) (hEvent : name ≠ eventKey) :
    s.length ≤ maxFieldLength + truncationMark.length := by
  cases h with
  | event value named => exact absurd named hEvent
  | whole s fits => omega
  | short r s named long cut => exact Nat.le_of_eq cut.length_eq

theorem names_truncate (fields : Listing (Field ω)) : (truncate fields).names = fields.names := by
  rw [truncate, Listing.names, List.map_map]
  rfl

theorem forall₂_truncate (fields : Listing (Field ω)) :
    List.Forall₂ (fun before after => Becomes before.1 before.2 after.2) fields
      (truncate fields) := by
  rw [truncate, List.forall₂_map_right_iff, List.forall₂_same]
  intro field hField
  exact becomes_truncate field.1 field.2

/-- Cutting the long texts of a message keeps its names in their order and all that is short, no
text or the name of the event. What it cuts are the first characters with the mark after them, no
longer than that and yet over the limit, and cutting the message again changes nothing. -/
theorem truncation_repeatable (fields : Listing (Field ω)) :
    (truncate fields).names = fields.names ∧
    List.Forall₂ (fun before after => Becomes before.1 before.2 after.2) fields
      (truncate fields) ∧
    (∀ name s, (name, .text s) ∈ truncate fields → name ≠ eventKey →
      s.length ≤ maxFieldLength + truncationMark.length) ∧
    (∀ s : String, maxFieldLength < s.length → maxFieldLength < (truncateText s).length) ∧
    truncate (truncate fields) = truncate fields := by
  refine ⟨names_truncate fields, forall₂_truncate fields, ?_,
    fun s hLong => (cutShort_truncateText hLong).long, ?_⟩
  · intro name s hField hEvent
    obtain ⟨before, hBefore, hAfter⟩ := List.mem_map.1 hField
    obtain ⟨rfl, hText⟩ := Prod.mk.inj hAfter
    have hBecomes := becomes_truncate before.1 before.2
    rw [hText] at hBecomes
    exact hBecomes.length_le hEvent
  · rw [truncate, truncate, List.map_map]
    apply List.map_congr_left
    intro field hField
    by_cases hEvent : field.1 = eventKey
    · simp [hEvent]
    · simp [hEvent, Field.truncate_truncate]

end Licensing.Log
