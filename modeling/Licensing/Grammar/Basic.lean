import Licensing.Resolution

/-!
The grammar of expressions, as a relation between tokens and trees. It is said without a reader: an
identifier stands for what its place and the catalog make of it, and each of the four levels is
built from the next tighter one. `AND` and `OR` lean to the left because their left operands are of
their own level and their right operands of the next one.
-/

namespace Licensing

namespace Lookup

/-- The license that an identifier names, with or without a `+`. -/
inductive NamesLicense (k : Lookup) : String → Bool → License → Prop where
  | listed {value : String} {entry : LicenseEntry} (free : k.catalog.exception? value = none)
      (found : k.catalog.license? value = some entry)
      (accepted : entry.deprecated = true → k.strictness ≠ .allowCurrent) :
      NamesLicense k value false entry.leaf
  | unlisted {value : String} (free : k.catalog.exception? value = none)
      (missing : k.catalog.license? value = none) (accepted : k.acceptsUnknown value = true) :
      NamesLicense k value false (.reference value)
  /-- The catalog lists the identifier with the `+` as deprecated. -/
  | marked {value : String} {entry : LicenseEntry}
      (found : k.catalog.license? (value ++ plusSuffix) = some entry)
      (deprecated : entry.deprecated = true) (accepted : k.strictness ≠ .allowCurrent) :
      NamesLicense k value true entry.leaf
  /-- The catalog lists only the identifier without the `+` as deprecated. -/
  | plain {value : String} {entry : LicenseEntry}
      (unmarked : ∀ other, k.catalog.license? (value ++ plusSuffix) = some other →
        other.deprecated = false)
      (found : k.catalog.license? value = some entry) (deprecated : entry.deprecated = true)
      (accepted : k.strictness ≠ .allowCurrent) :
      NamesLicense k value true (.listed entry.id true true)

/-- The exception that an identifier without a `+` names. -/
inductive NamesException (k : Lookup) : String → LicenseException → Prop where
  | listed {value : String} {entry : ExceptionEntry} (free : k.catalog.license? value = none)
      (found : k.catalog.exception? value = some entry)
      (accepted : entry.deprecated = true → k.strictness ≠ .allowCurrent) :
      NamesException k value entry.leaf
  | unlisted {value : String} (free : k.catalog.license? value = none)
      (missing : k.catalog.exception? value = none) (accepted : k.acceptsUnknown value = true) :
      NamesException k value ⟨value, false⟩

end Lookup

namespace Grammar

/-- The levels of expressions, the tightest first. -/
inductive Level where
  /-- An identifier or a group in parentheses. -/
  | primary
  /-- A primary, possibly with an exception. -/
  | granted
  | conjunction
  | disjunction
  deriving DecidableEq, Repr

/-- The tokens derive a tree at a level. -/
inductive Derives (k : Lookup) : Level → List Token → Expr → Prop where
  | license {value : String} {orLater : Bool} {position : Nat} {l : License}
      (names : k.NamesLicense value orLater l) :
      Derives k .primary [⟨.identifier value orLater, position⟩] (.license l)
  | group {opened closed : Nat} {tokens : List Token} {e : Expr}
      (inner : Derives k .disjunction tokens e) :
      Derives k .primary (⟨.opening, opened⟩ :: tokens ++ [⟨.closing, closed⟩]) e
  | primary {tokens : List Token} {e : Expr} (inner : Derives k .primary tokens e) :
      Derives k .granted tokens e
  | attach {at₁ at₂ : Nat} {value : String} {tokens : List Token} {e : Expr}
      {x : LicenseException} (left : Derives k .primary tokens e)
      (free : e.hasAttachment = false) (names : k.NamesException value x) :
      Derives k .granted
        (tokens ++ [⟨.operator .attach, at₁⟩, ⟨.identifier value false, at₂⟩])
        (.join e .attach (.exception x))
  | granted {tokens : List Token} {e : Expr} (inner : Derives k .granted tokens e) :
      Derives k .conjunction tokens e
  | and {position : Nat} {tokens others : List Token} {e f : Expr}
      (left : Derives k .conjunction tokens e) (right : Derives k .granted others f) :
      Derives k .conjunction (tokens ++ ⟨.operator .and, position⟩ :: others) (.join e .and f)
  | conjunction {tokens : List Token} {e : Expr} (inner : Derives k .conjunction tokens e) :
      Derives k .disjunction tokens e
  | or {position : Nat} {tokens others : List Token} {e f : Expr}
      (left : Derives k .disjunction tokens e) (right : Derives k .conjunction others f) :
      Derives k .disjunction (tokens ++ ⟨.operator .or, position⟩ :: others) (.join e .or f)

end Grammar

end Licensing
