import Mathlib.Data.List.Forall2
import Licensing.Grammar.Reading

/-!
The identifiers of a text and the leaves of its tree. Whether an identifier stands right of `WITH`
can be seen from the tokens alone; resolved in their order, the identifiers are the leaves from left
to right.
-/

namespace Licensing

open Grammar (Derives Level)
open ParseError (Objection)

/-- An identifier among tokens, and whether it stands right after `WITH`. -/
structure Mention where
  value : String
  orLater : Bool
  position : Nat
  attached : Bool
  deriving DecidableEq, Repr

/-- The identifiers among tokens, the first of which may stand right after `WITH`. -/
def mentions (attached : Bool) : List Token → List Mention
  | [] => []
  | ⟨.identifier value orLater, position⟩ :: rest =>
    ⟨value, orLater, position, attached⟩ :: mentions false rest
  | ⟨kind, _⟩ :: rest => mentions (kind == .operator .attach) rest

@[simp] theorem mentions_opening (attached : Bool) (position : Nat) (rest : List Token) :
    mentions attached (⟨.opening, position⟩ :: rest) = mentions false rest := rfl

@[simp] theorem mentions_operator (attached : Bool) (op : Operator) (position : Nat)
    (rest : List Token) :
    mentions attached (⟨.operator op, position⟩ :: rest) = mentions (op == .attach) rest := by
  cases op <;> rfl

def Lookup.resolve (k : Lookup) (m : Mention) : Except Objection Leaf :=
  if m.attached then
    (k.resolveException m.value m.orLater m.position).map fun found => .exception found.1
  else (k.resolveLicense m.value m.orLater m.position).map fun found => .license found.1

namespace Lookup

theorem resolve_license {k : Lookup} {value : String} {orLater : Bool} {l : License}
    (position : Nat) (h : k.NamesLicense value orLater l) :
    k.resolve ⟨value, orLater, position, false⟩ = .ok (.license l) := by
  have hFound : ∃ event, k.resolveLicense value orLater position = .ok (l, event) :=
    exists_resolveLicense_iff.2 h
  obtain ⟨event, hResolved⟩ := hFound
  simp [resolve, hResolved, Except.map]

theorem resolve_exception {k : Lookup} {value : String} {x : LicenseException}
    (position : Nat) (h : k.NamesException value x) :
    k.resolve ⟨value, false, position, true⟩ = .ok (.exception x) := by
  have hFound : ∃ event, k.resolveException value false position = .ok (x, event) :=
    exists_resolveException_iff.2 ⟨rfl, h⟩
  obtain ⟨event, hResolved⟩ := hFound
  simp [resolve, hResolved, Except.map]

/-- Outside of `WITH` nothing but licenses is resolved. -/
theorem namesLicense_of_resolve {k : Lookup} {value : String} {orLater : Bool} {position : Nat}
    {leaf : Leaf} (h : k.resolve ⟨value, orLater, position, false⟩ = .ok leaf) :
    ∃ l, leaf = .license l ∧ k.NamesLicense value orLater l := by
  cases hResolved : k.resolveLicense value orLater position with
  | error o => simp [resolve, hResolved, Except.map] at h
  | ok found =>
      obtain rfl : .license found.1 = leaf := by simpa [resolve, hResolved, Except.map] using h
      exact ⟨found.1, rfl, exists_resolveLicense_iff.1 ⟨found.2, hResolved⟩⟩

/-- Behind a `WITH` only an exception is resolved, and no `+` belongs to it. -/
theorem namesException_of_resolve {k : Lookup} {value : String} {orLater : Bool} {position : Nat}
    {leaf : Leaf} (h : k.resolve ⟨value, orLater, position, true⟩ = .ok leaf) :
    ∃ x, leaf = .exception x ∧ orLater = false ∧ k.NamesException value x := by
  cases hResolved : k.resolveException value orLater position with
  | error o => simp [resolve, hResolved, Except.map] at h
  | ok found =>
      obtain rfl : .exception found.1 = leaf := by simpa [resolve, hResolved, Except.map] using h
      exact ⟨found.1, rfl, exists_resolveException_iff.1 ⟨found.2, hResolved⟩⟩

end Lookup

/-- Outside of `WITH` the tokens mention what is resolved to the leaves of a tree, and what follows
them is again outside of `WITH`. -/
def Supplies (k : Lookup) (tokens : List Token) (ls : List Leaf) : Prop :=
  ∃ found, (∀ rest, mentions false (tokens ++ rest) = found ++ mentions false rest) ∧
    List.Forall₂ (fun m l => k.resolve m = .ok l) found ls

/-- An operator joins what its operands mention. -/
theorem Supplies.joined {k : Lookup} {left right : List Token} {ls ls' : List Leaf} {op : Operator}
    (position : Nat) (hOp : op ≠ .attach) (hLeft : Supplies k left ls)
    (hRight : Supplies k right ls') :
    Supplies k (left ++ ⟨.operator op, position⟩ :: right) (ls ++ ls') := by
  obtain ⟨before, hBefore, hFirst⟩ := hLeft
  obtain ⟨after, hAfter, hLast⟩ := hRight
  refine ⟨before ++ after, fun rest => ?_, List.rel_append hFirst hLast⟩
  calc mentions false (left ++ ⟨.operator op, position⟩ :: right ++ rest)
      = before ++ mentions false (⟨.operator op, position⟩ :: (right ++ rest)) := by
        rw [List.append_assoc, hBefore, List.cons_append]
    _ = before ++ mentions false (right ++ rest) := by
        rw [mentions_operator, beq_eq_false_iff_ne.2 hOp]
    _ = before ++ after ++ mentions false rest := by rw [hAfter, List.append_assoc]

/-- Tokens that derive a tree mention its leaves from left to right. -/
theorem supplies_of_derives {k : Lookup} {level : Level} {tokens : List Token} {e : Expr}
    (h : Derives k level tokens e) : Supplies k tokens e.leaves := by
  induction h with
  | @license value orLater position l names =>
      exact ⟨[⟨value, orLater, position, false⟩], fun rest => rfl,
        .cons (Lookup.resolve_license position names) .nil⟩
  | @group opened closed tokens e inner ih =>
      obtain ⟨found, hFound, hLeaves⟩ := ih
      refine ⟨found, fun rest => ?_, hLeaves⟩
      rw [List.cons_append, List.cons_append, mentions_opening, List.append_assoc, hFound]
      rfl
  | primary inner ih => exact ih
  | @attach at₁ at₂ value tokens e x left free names ih =>
      obtain ⟨found, hFound, hLeaves⟩ := ih
      refine ⟨found ++ [⟨value, false, at₂, true⟩], fun rest => ?_,
        List.rel_append hLeaves (.cons (Lookup.resolve_exception at₂ names) .nil)⟩
      rw [List.append_assoc, hFound, List.append_assoc]
      rfl
  | granted inner ih => exact ih
  | @and position tokens others e f left right ihLeft ihRight =>
      exact ihLeft.joined position (by decide) ihRight
  | conjunction inner ih => exact ih
  | @or position tokens others e f left right ihLeft ihRight =>
      exact ihLeft.joined position (by decide) ihRight

/-- The identifiers of a text and the leaves of its tree match one by one, in order. -/
theorem mentions_of_derives {k : Lookup} {level : Level} {tokens : List Token} {e : Expr}
    (h : Derives k level tokens e) :
    List.Forall₂ (fun m l => k.resolve m = .ok l) (mentions false tokens) e.leaves := by
  obtain ⟨found, hFound, hLeaves⟩ := supplies_of_derives h
  have hAll : mentions false tokens = found := by
    simpa [mentions] using hFound []
  rwa [hAll]

end Licensing
