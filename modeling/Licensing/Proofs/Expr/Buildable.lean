import Licensing.Expr.Build
import Licensing.Expr.Meaning

/-!
The trees that can be built. A tree without foreign values that is no bare exception can be built
exactly when it is a license expression in the sense of `Expr.IsLicense`, which follows the tree.
-/

namespace Licensing.Expr

/-- `WITH` accepts what has no exception on its left, and only an exception on its right. -/
theorem join?_attach_eq_ok_iff {left right e : Expr} :
    left.join? .attach right = .ok e ↔
      (∀ x, left ≠ exception x) ∧ left.hasAttachment = false ∧ (∃ x, right = exception x) ∧
        e = join left .attach right := by
  have hRight : checkAttached right = .ok () ↔ ∃ x, right = exception x := by
    cases right with
    | leaf l => cases l <;> simp [checkAttached]
    | join first op last => simp [checkAttached]
  have hLeft : checkGranted left = .ok () ↔
      (∀ x, left ≠ exception x) ∧ left.hasAttachment = false := by
    cases left with
    | leaf l => cases l <;> simp [checkGranted, hasAttachment]
    | join first op last => simp [checkGranted]
  constructor
  · intro h
    cases hGranted : checkGranted left with
    | error fault => simp [join?, hGranted, bind, Except.bind] at h
    | ok _ =>
        cases hAttached : checkAttached right with
        | error fault => simp [join?, hGranted, hAttached, bind, Except.bind] at h
        | ok _ =>
            obtain ⟨hFree, hAttachment⟩ := hLeft.1 hGranted
            simp [join?, hGranted, hAttached, bind, Except.bind, pure, Except.pure] at h
            exact ⟨hFree, hAttachment, hRight.1 hAttached, h.symm⟩
  · rintro ⟨hFree, hAttachment, hException, rfl⟩
    simp [join?, hLeft.2 ⟨hFree, hAttachment⟩, hRight.2 hException, bind, Except.bind, pure,
      Except.pure]

theorem checkOperand_eq_ok_iff {op : Operator} {e : Expr} :
    checkOperand op e = .ok () ↔ ∀ x, e ≠ exception x := by
  cases e with
  | leaf l => cases l <;> simp [checkOperand]
  | join first middle last => simp [checkOperand]

/-- `AND` and `OR` accept everything but bare exceptions. -/
theorem join?_eq_ok_iff {op : Operator} (hOp : op ≠ .attach) {left right e : Expr} :
    left.join? op right = .ok e ↔
      (∀ x, left ≠ exception x) ∧ (∀ x, right ≠ exception x) ∧ e = join left op right := by
  have hUnfold : left.join? op right =
      (checkOperand op left).bind fun _ =>
        (checkOperand op right).bind fun _ => .ok (join left op right) := by
    cases op with
    | attach => exact absurd rfl hOp
    | or => rfl
    | and => rfl
  rw [hUnfold]
  constructor
  · intro h
    cases hLeft : checkOperand op left with
    | error fault => simp [hLeft, Except.bind] at h
    | ok _ =>
        cases hRight : checkOperand op right with
        | error fault => simp [hLeft, hRight, Except.bind] at h
        | ok _ =>
            simp [hLeft, hRight, Except.bind] at h
            exact ⟨checkOperand_eq_ok_iff.1 hLeft, checkOperand_eq_ok_iff.1 hRight, h.symm⟩
  · rintro ⟨hLeft, hRight, rfl⟩
    simp [checkOperand_eq_ok_iff.2 hLeft, checkOperand_eq_ok_iff.2 hRight, Except.bind]

theorem isLicense_join_iff {op : Operator} (hOp : op ≠ .attach) {left right : Expr} :
    (join left op right).IsLicense ↔ left.IsLicense ∧ right.IsLicense := by
  cases op with
  | attach => exact absurd rfl hOp
  | or => rfl
  | and => rfl

/-- What `WITH` builds is an expression with an exception on its right and none below it on its
left. -/
theorem isLicense_attach_iff {left right : Expr} :
    (join left .attach right).IsLicense ↔
      ∃ x, right = exception x ∧ left.IsLicense ∧ left.hasAttachment = false := by
  cases right with
  | leaf l => cases l <;> simp [IsLicense]
  | join first op last => simp [IsLicense]

/-- Induction on license expressions: a license, an exception attached to an expression that has
none, and two expressions joined by `AND` or `OR`. -/
@[elab_as_elim]
theorem isLicense_induction {motive : (e : Expr) → e.IsLicense → Prop}
    (single : ∀ l, motive (license l) trivial)
    (attach : ∀ left x (hLeft : left.IsLicense) (hFree : left.hasAttachment = false),
      motive left hLeft → motive (join left .attach (exception x)) ⟨hLeft, hFree⟩)
    (join : ∀ left op right (hOp : op ≠ .attach) (hLeft : left.IsLicense)
      (hRight : right.IsLicense), motive left hLeft → motive right hRight →
        motive (join left op right) ((isLicense_join_iff hOp).2 ⟨hLeft, hRight⟩))
    (e : Expr) (h : e.IsLicense) : motive e h := by
  induction e with
  | leaf l =>
      cases l with
      | license l => exact single l
      | exception x => exact absurd h id
      | foreign v => exact absurd h id
  | join left op right ihLeft ihRight =>
      by_cases hOp : op = .attach
      · subst hOp
        obtain ⟨x, rfl, hLeft, hFree⟩ := isLicense_attach_iff.1 h
        exact attach left x hLeft hFree (ihLeft hLeft)
      · obtain ⟨hLeft, hRight⟩ := (isLicense_join_iff hOp).1 h
        exact join left op right hOp hLeft hRight (ihLeft hLeft) (ihRight hRight)

theorem ne_exception_of_isLicense {e : Expr} (h : e.IsLicense) (x : LicenseException) :
    e ≠ exception x := by
  rintro rfl
  exact h

/-- A tree that can be built from licenses and exceptions and is no bare exception. -/
structure Proper (e : Expr) : Prop where
  buildable : e.Buildable
  native : ∀ v, Leaf.foreign v ∉ e.leaves
  whole : ∀ x, e ≠ exception x

theorem buildable_of_isLicense {e : Expr} (h : e.IsLicense) : e.Buildable := by
  induction e, h using isLicense_induction with
  | single l => trivial
  | attach left x hLeft hFree ih =>
      have hJoin := join?_attach_eq_ok_iff.2
        ⟨ne_exception_of_isLicense hLeft, hFree, ⟨x, rfl⟩, rfl⟩
      exact ⟨ih, trivial, hJoin⟩
  | join left op right hOp hLeft hRight ihLeft ihRight =>
      have hJoin := (join?_eq_ok_iff hOp).2
        ⟨ne_exception_of_isLicense hLeft, ne_exception_of_isLicense hRight, rfl⟩
      exact ⟨ihLeft, ihRight, hJoin⟩

theorem foreign_notMem_leaves_of_isLicense {e : Expr} (h : e.IsLicense) (v : Foreign) :
    Leaf.foreign v ∉ e.leaves := by
  induction e, h using isLicense_induction with
  | single l => simp [leaves]
  | attach left x hLeft hFree ih => simp [leaves, ih]
  | join left op right hOp hLeft hRight ihLeft ihRight => simp [leaves, ihLeft, ihRight]

/-- The checks of the constructors are enough: a tree that passed them is a license expression,
unless it is a bare exception or has a foreign leaf. -/
theorem isLicense_of_buildable {e : Expr} (hBuildable : e.Buildable)
    (hNative : ∀ v, Leaf.foreign v ∉ e.leaves) (hWhole : ∀ x, e ≠ exception x) : e.IsLicense := by
  induction e with
  | leaf l =>
      cases l with
      | license l => trivial
      | exception x => exact hWhole x rfl
      | foreign v => exact hNative v (by simp [leaves])
  | join left op right ihLeft ihRight =>
      obtain ⟨hLeft, hRight, hJoin⟩ := hBuildable
      simp only [leaves, List.mem_append, not_or] at hNative
      have hNativeLeft v := (hNative v).1
      have hNativeRight v := (hNative v).2
      by_cases hOp : op = .attach
      · subst hOp
        obtain ⟨hFree, hAttachment, ⟨x, rfl⟩, -⟩ := join?_attach_eq_ok_iff.1 hJoin
        exact isLicense_attach_iff.2 ⟨x, rfl, ihLeft hLeft hNativeLeft hFree, hAttachment⟩
      · obtain ⟨hFreeLeft, hFreeRight, -⟩ := (join?_eq_ok_iff hOp).1 hJoin
        exact (isLicense_join_iff hOp).2
          ⟨ihLeft hLeft hNativeLeft hFreeLeft, ihRight hRight hNativeRight hFreeRight⟩

/-- License expressions are described by their shape and, equally, by how they are built. -/
theorem isLicense_iff_proper {e : Expr} : e.IsLicense ↔ e.Proper := by
  constructor
  · intro h
    exact ⟨buildable_of_isLicense h, foreign_notMem_leaves_of_isLicense h,
      ne_exception_of_isLicense h⟩
  · intro h
    exact isLicense_of_buildable h.buildable h.native h.whole

end Licensing.Expr
