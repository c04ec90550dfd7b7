import Licensing.Expr.Chain
import Licensing.Expr.Render
import Licensing.Proofs.Expr.Buildable

/-!
Nesting chains to the left moves the brackets of chains and nothing else (`Rebracketed`), so the
text of a tree, its leaves in their order and its attachments stay; afterwards no chain has one of
the same operator on its right.
-/

namespace Licensing.Expr

/-- No right operand of `AND` or `OR` is joined by the same operator. -/
def LeansLeft : Expr → Prop
  | leaf _ => True
  | join left op right =>
    left.LeansLeft ∧ right.LeansLeft ∧ (op ≠ .attach → ∀ first last, right ≠ join first op last)

theorem leftNested_join {op : Operator} (hOp : op ≠ .attach) (left right : Expr) :
    (join left op right).leftNested = joinFront op left.leftNested right.leftNested := by
  cases op with
  | attach => exact absurd rfl hOp
  | or => rfl
  | and => rfl

theorem joinFront_join_self (op : Operator) (left first last : Expr) :
    joinFront op left (join first op last) = join (joinFront op left first) op last := by
  simp [joinFront]

/-- Something that is no chain of the operator becomes one operand. -/
theorem joinFront_eq_join {op : Operator} {e : Expr} (h : ∀ first last, e ≠ join first op last)
    (left : Expr) : joinFront op left e = join left op e := by
  cases e with
  | leaf l => rfl
  | join first middle last =>
      have hMiddle : middle ≠ op := fun hSame => h first last (by rw [hSame])
      simp [joinFront, hMiddle]

/-- Induction on the chain of an operator at the top of a tree, from its first operand on. -/
theorem chain_induction (op : Operator) {motive : Expr → Prop}
    (single : ∀ e, (∀ first last, e ≠ join first op last) → motive e)
    (next : ∀ first last, motive first → motive (join first op last)) (e : Expr) : motive e := by
  induction e with
  | leaf l => exact single _ (by simp)
  | join first middle last ihFirst _ =>
      by_cases hMiddle : middle = op
      · subst hMiddle
        exact next first last ihFirst
      · exact single _ (by simp [hMiddle])

theorem exists_joinFront_eq (op : Operator) (left e : Expr) :
    ∃ first last, joinFront op left e = join first op last := by
  induction e using chain_induction op with
  | single e hSingle => exact ⟨left, e, joinFront_eq_join hSingle left⟩
  | next first last _ => exact ⟨_, last, joinFront_join_self op left first last⟩

theorem joinFront_assoc (op : Operator) (a b c : Expr) :
    joinFront op (joinFront op a b) c = joinFront op a (joinFront op b c) := by
  induction c using chain_induction op with
  | single e hSingle =>
      rw [joinFront_eq_join hSingle, joinFront_eq_join hSingle, joinFront_join_self]
  | next first last ih => rw [joinFront_join_self, joinFront_join_self, joinFront_join_self, ih]

theorem leansLeft_joinFront {op : Operator} {left e : Expr} (hLeft : left.LeansLeft)
    (h : e.LeansLeft) : (joinFront op left e).LeansLeft := by
  induction e using chain_induction op with
  | single e hSingle =>
      rw [joinFront_eq_join hSingle]
      exact ⟨hLeft, h, fun _ => hSingle⟩
  | next first last ih =>
      rw [joinFront_join_self]
      exact ⟨ih h.1, h.2⟩

/-- Nesting to the left leaves no chain that goes on at its right. -/
theorem leansLeft_leftNested (e : Expr) : e.leftNested.LeansLeft := by
  induction e with
  | leaf l => trivial
  | join left op right ihLeft ihRight =>
      by_cases hOp : op = .attach
      · subst hOp
        exact ⟨ihLeft, ihRight, fun h => absurd rfl h⟩
      · rw [leftNested_join hOp]
        exact leansLeft_joinFront ihLeft ihRight

/-- The second tree is the first with brackets moved to the left inside chains of `AND` and inside
chains of `OR`, anywhere in the tree. -/
inductive Rebracketed : Expr → Expr → Prop where
  | refl (e : Expr) : Rebracketed e e
  | rotate {op : Operator} (chain : op ≠ .attach) (a b c : Expr) :
      Rebracketed (join a op (join b op c)) (join (join a op b) op c)
  | inside {left right left' right' : Expr} (op : Operator) (first : Rebracketed left left')
      (second : Rebracketed right right') :
      Rebracketed (join left op right) (join left' op right')
  | trans {a b c : Expr} (first : Rebracketed a b) (second : Rebracketed b c) : Rebracketed a c

theorem rebracketed_joinFront {op : Operator} (hOp : op ≠ .attach) (left e : Expr) :
    Rebracketed (join left op e) (joinFront op left e) := by
  induction e using chain_induction op with
  | single e hSingle =>
      rw [joinFront_eq_join hSingle]
      exact .refl _
  | next first last ih =>
      rw [joinFront_join_self]
      exact .trans (.rotate hOp left first last) (.inside op ih (.refl last))

/-- Nesting to the left moves brackets and does nothing else. -/
theorem rebracketed_leftNested (e : Expr) : Rebracketed e e.leftNested := by
  induction e with
  | leaf l => exact .refl _
  | join left op right ihLeft ihRight =>
      have hInside := Rebracketed.inside op ihLeft ihRight
      by_cases hOp : op = .attach
      · subst hOp
        exact hInside
      · rw [leftNested_join hOp]
        exact hInside.trans (rebracketed_joinFront hOp _ _)

theorem hasAttachment_join {op : Operator} (hOp : op ≠ .attach) (left right : Expr) :
    (join left op right).hasAttachment = (left.hasAttachment || right.hasAttachment) := by
  cases op with
  | attach => exact absurd rfl hOp
  | or => rfl
  | and => rfl

theorem needsParens_or (e : Expr) : e.needsParens .or = false := by
  cases e with
  | leaf l => rfl
  | join left op right => simp [needsParens, Operator.strength]

namespace Rebracketed

variable {e f : Expr}

theorem eq_leaf {l : Leaf} (h : Rebracketed e f) (hLeaf : e = leaf l) : f = leaf l := by
  induction h with
  | refl e => exact hLeaf
  | rotate chain a b c => cases hLeaf
  | inside op first second ihFirst ihSecond => cases hLeaf
  | trans first second ihFirst ihSecond => exact ihSecond (ihFirst hLeaf)

theorem leaves_eq (h : Rebracketed e f) : f.leaves = e.leaves := by
  induction h with
  | refl e => rfl
  | rotate chain a b c => simp only [leaves, List.append_assoc]
  | inside op first second ihFirst ihSecond => rw [leaves, ihFirst, ihSecond, leaves]
  | trans first second ihFirst ihSecond => rw [ihSecond, ihFirst]

theorem hasAttachment_eq (h : Rebracketed e f) : f.hasAttachment = e.hasAttachment := by
  induction h with
  | refl e => rfl
  | rotate chain a b c => simp only [hasAttachment_join chain, Bool.or_assoc]
  | inside op first second ihFirst ihSecond =>
      by_cases hOp : op = .attach
      · subst hOp
        rfl
      · rw [hasAttachment_join hOp, ihFirst, ihSecond, hasAttachment_join hOp]
  | trans first second ihFirst ihSecond => rw [ihSecond, ihFirst]

theorem isLicense (h : Rebracketed e f) (hLicense : e.IsLicense) : f.IsLicense := by
  induction h with
  | refl e => exact hLicense
  | rotate chain a b c =>
      simp only [isLicense_join_iff chain] at hLicense ⊢
      exact ⟨⟨hLicense.1, hLicense.2.1⟩, hLicense.2.2⟩
  | inside op first second ihFirst ihSecond =>
      by_cases hOp : op = .attach
      · subst hOp
        obtain ⟨x, hRight, hLeft, hFree⟩ := isLicense_attach_iff.1 hLicense
        rw [← first.hasAttachment_eq] at hFree
        exact isLicense_attach_iff.2 ⟨x, second.eq_leaf hRight, ihFirst hLeft, hFree⟩
      · obtain ⟨hLeft, hRight⟩ := (isLicense_join_iff hOp).1 hLicense
        exact (isLicense_join_iff hOp).2 ⟨ihFirst hLeft, ihSecond hRight⟩
  | trans first second ihFirst ihSecond => exact ihSecond (ihFirst hLicense)

/-- Moving brackets does not decide whether a tree needs parentheses as an operand. -/
theorem needsParens_eq (h : Rebracketed e f) (parent : Operator) :
    f.needsParens parent = e.needsParens parent := by
  induction h with
  | refl e => rfl
  | rotate chain a b c => rfl
  | inside op first second ihFirst ihSecond => rfl
  | trans first second ihFirst ihSecond => rw [ihSecond, ihFirst]

/-- A chain needs no parentheses in front of its own operator, so it is written flat. -/
theorem text_eq (h : Rebracketed e f) : f.text = e.text := by
  induction h with
  | refl e => rfl
  | @rotate op chain a b c =>
      have hFlat (first last : Expr) : (join first op last).needsParens op = false := by
        simp [needsParens]
      simp only [text, hFlat, enclose, Bool.false_eq_true, if_false, String.append_assoc]
  | inside op first second ihFirst ihSecond =>
      simp only [text, ihFirst, ihSecond, first.needsParens_eq, second.needsParens_eq]
  | trans first second ihFirst ihSecond => rw [ihSecond, ihFirst]

end Rebracketed

end Licensing.Expr
