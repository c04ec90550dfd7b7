import Mathlib.Data.Set.Subsingleton
import Licensing.Grammar.Reading
import Licensing.Proofs.Expr.Buildable

/-!
What is accepted. A text is parsed exactly when it is written by the grammar, which gives it one
tree; everything else is an error about that text. The tree of a text is a license expression, and
each of its leaves is named by an identifier that can be written.
-/

namespace Licensing

open Grammar (Derives Level)
open Token (Spells Splits Kind)

namespace Grammar

/-- The text splits into tokens from which the grammar derives the tree. -/
def Writes (k : Lookup) (text : String) (e : Expr) : Prop :=
  ∃ tokens, Splits 0 text.toList tokens ∧ Derives k .disjunction tokens e

end Grammar

/-- An error is about the text that was given. -/
theorem text_of_parse_error {k : Lookup} {text : String} {error : ParseError}
    (h : (parse k text).value = .error error) : error.text = text := by
  have hMapped {x : Except ParseError.Objection Expr}
      (hError : x.mapError (ParseError.ofObjection text) = .error error) : error.text = text := by
    cases x with
    | ok e => cases hError
    | error objection =>
        cases hError
        rfl
  unfold parse at h
  split at h
  · cases h
    rfl
  · split at h
    · cases h
      rfl
    · exact hMapped h

/-- Parsing gives a tree exactly when the grammar writes it as the text; a text is written for one
tree at most, and every text that is written for none is refused with an error about it. -/
theorem parse_accepts_grammar (k : Lookup) (text : String) :
    (∀ e, (parse k text).value = .ok e ↔ Grammar.Writes k text e) ∧
      {e | Grammar.Writes k text e}.Subsingleton ∧
      ((∃ error, (parse k text).value = .error error ∧ error.text = text) ↔
        ∀ e, ¬ Grammar.Writes k text e) := by
  have hWrites (e : Expr) : (parse k text).value = .ok e ↔ Grammar.Writes k text e :=
    parse_eq_ok_iff
  refine ⟨hWrites, ?_, ?_⟩
  · intro e he f hf
    have hBoth := ((hWrites e).2 he).symm.trans ((hWrites f).2 hf)
    exact Except.ok.inj hBoth
  · constructor
    · intro ⟨error, hError, _⟩ e he
      have hBoth := hError.symm.trans ((hWrites e).2 he)
      cases hBoth
    · intro hNone
      cases hParse : (parse k text).value with
      | ok e => exact absurd ((hWrites e).1 hParse) (hNone e)
      | error error => exact ⟨error, rfl, text_of_parse_error hParse⟩

namespace Grammar

/-- The grammar derives license expressions only, at each of its levels. -/
theorem isLicense_of_derives {k : Lookup} {level : Level} {tokens : List Token} {e : Expr}
    (h : Derives k level tokens e) : e.IsLicense := by
  induction h with
  | license names => trivial
  | attach left free names ih => exact ⟨ih, free⟩
  | and left right ihLeft ihRight => exact ⟨ihLeft, ihRight⟩
  | or left right ihLeft ihRight => exact ⟨ihLeft, ihRight⟩
  | group inner ih => exact ih
  | primary inner ih => exact ih
  | granted inner ih => exact ih
  | conjunction inner ih => exact ih

end Grammar

theorem Token.exists_spells_of_splits {position : Nat} {cs : List Char} {tokens : List Token}
    (h : Splits position cs tokens) : ∀ t ∈ tokens, ∃ word, Spells t.kind word := by
  induction h with
  | done position => simp
  | blank isBlank after ih => exact ih
  | @token position kind word rest tokens spelled complete after ih =>
      intro t ht
      rcases List.mem_cons.1 ht with rfl | hRest
      · exact ⟨word, spelled⟩
      · exact ih t hRest

namespace Lookup

/-- The leaf is what an identifier that can be written names in its place. -/
inductive Names (k : Lookup) : Leaf → Prop where
  | license {value : String} {orLater : Bool} {l : License} {word : List Char}
      (spelled : Spells (.identifier value orLater) word) (names : k.NamesLicense value orLater l) :
      Names k (.license l)
  | exception {value : String} {x : LicenseException} {word : List Char}
      (spelled : Spells (.identifier value false) word) (names : k.NamesException value x) :
      Names k (.exception x)

/-- Every leaf of a derived tree is named by the token that it was derived from. -/
theorem names_of_derives {k : Lookup} {level : Level} {tokens : List Token} {e : Expr}
    (h : Derives k level tokens e) (hSpelled : ∀ t ∈ tokens, ∃ word, Spells t.kind word) :
    ∀ l ∈ e.leaves, k.Names l := by
  induction h with
  | @license value orLater position l names =>
      intro leaf hLeaf
      obtain rfl := List.mem_singleton.1 hLeaf
      obtain ⟨word, hWord⟩ := hSpelled _ List.mem_cons_self
      exact .license hWord names
  | group inner ih =>
      apply ih
      intro t ht
      exact hSpelled t (by simp [ht])
  | @attach at₁ at₂ value tokens e x left free names ih =>
      intro leaf hLeaf
      rcases List.mem_append.1 hLeaf with hLeft | hRight
      · exact ih (fun t ht => hSpelled t (by simp [ht])) leaf hLeft
      · obtain rfl := List.mem_singleton.1 hRight
        obtain ⟨word, hWord⟩ := hSpelled ⟨.identifier value false, at₂⟩ (by simp)
        exact .exception hWord names
  | and left right ihLeft ihRight =>
      intro leaf hLeaf
      rcases List.mem_append.1 hLeaf with hLeft | hRight
      · exact ihLeft (fun t ht => hSpelled t (by simp [ht])) leaf hLeft
      · exact ihRight (fun t ht => hSpelled t (by simp [ht])) leaf hRight
  | or left right ihLeft ihRight =>
      intro leaf hLeaf
      rcases List.mem_append.1 hLeaf with hLeft | hRight
      · exact ihLeft (fun t ht => hSpelled t (by simp [ht])) leaf hLeft
      · exact ihRight (fun t ht => hSpelled t (by simp [ht])) leaf hRight
  | primary inner ih => exact ih hSpelled
  | granted inner ih => exact ih hSpelled
  | conjunction inner ih => exact ih hSpelled

def Yields (k : Lookup) (l : Leaf) : Prop :=
  ∃ text e, (parse k text).value = .ok e ∧ l ∈ e.leaves

/-- A leaf that some text yields is one that an identifier names. -/
theorem names_of_yields {k : Lookup} {l : Leaf} (h : k.Yields l) : k.Names l := by
  obtain ⟨text, e, hParse, hLeaf⟩ := h
  obtain ⟨tokens, hSplits, hDerives⟩ := parse_eq_ok_iff.1 hParse
  exact names_of_derives hDerives (Token.exists_spells_of_splits hSplits) l hLeaf

end Lookup

/-- What is parsed is a license expression, so whatever asks for one can be asked of it. -/
theorem isLicense_of_parse {k : Lookup} {text : String} {e : Expr}
    (h : (parse k text).value = .ok e) : e.IsLicense := by
  obtain ⟨tokens, -, hDerives⟩ := parse_eq_ok_iff.1 h
  exact Grammar.isLicense_of_derives hDerives

end Licensing
