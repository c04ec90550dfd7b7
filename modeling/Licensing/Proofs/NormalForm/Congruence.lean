import Licensing.Proofs.NormalForm.ClauseSets

/-!
Equivalence as an algebra. `AND` and `OR` obey on equivalent expressions the laws of products and
unions of sets of clauses, and `WITH` distributes over both. Equivalent expressions can stand for
each other in any `Context`: where an exception is to be attached this needs that they agree on
having one already, which their clauses show.
-/

namespace Licensing.Expr

/-- Both expressions can be built, and they are found to be equivalent. -/
structure Equivalent (a b : Expr) : Prop where
  left : a.Proper
  right : b.Proper
  decided : (a.isEquivalent b).run.value = .ok true

/-- Equivalence is equality of the sets of clauses, so that the laws below are laws of sets. -/
theorem equivalent_iff {a b : Expr} :
    a.Equivalent b ↔ a.IsLicense ∧ b.IsLicense ∧ a.clauseSets = b.clauseSets := by
  constructor
  · intro h
    have hLeft := isLicense_iff_proper.2 h.left
    have hRight := isLicense_iff_proper.2 h.right
    have hDecided := h.decided
    rw [value_isEquivalent hLeft hRight, Except.ok.injEq, decide_eq_true_iff] at hDecided
    exact ⟨hLeft, hRight, hDecided⟩
  · intro ⟨hLeft, hRight, hSets⟩
    refine ⟨isLicense_iff_proper.1 hLeft, isLicense_iff_proper.1 hRight, ?_⟩
    rw [value_isEquivalent hLeft hRight, decide_eq_true hSets]

/-! ### Laws of the operators -/

theorem joinSets_comm (op : Operator) (s r : Finset (Finset Term)) :
    joinSets op s r = joinSets op r s := by
  cases op with
  | or => exact Finset.union_comm s r
  | and => exact Finset.image₂_comm Finset.union_comm
  | attach => exact Finset.image₂_comm Finset.union_comm

theorem joinSets_or_distrib_left (s r q : Finset (Finset Term)) :
    joinSets .and s (joinSets .or r q) = joinSets .or (joinSets .and s r) (joinSets .and s q) :=
  Finset.image₂_union_right

theorem joinSets_or_distrib_right (s r q : Finset (Finset Term)) :
    joinSets .and (joinSets .or s r) q = joinSets .or (joinSets .and s q) (joinSets .and r q) :=
  Finset.image₂_union_left

/-- An exception that is attached to every term of two sets of clauses is attached to what an
operator makes of them. -/
theorem image_joinSets (op : Operator) (f : Term → Term) (s r : Finset (Finset Term)) :
    (joinSets op s r).image (Finset.image f) =
      joinSets op (s.image (Finset.image f)) (r.image (Finset.image f)) := by
  cases op with
  | or => exact Finset.image_union s r
  | and => exact Finset.image_image₂_distrib Finset.image_union
  | attach => exact Finset.image_image₂_distrib Finset.image_union

variable {a b c : Expr} {op : Operator}

theorem equivalent_join_comm (hOp : op ≠ .attach) (ha : a.IsLicense) (hb : b.IsLicense) :
    (join a op b).Equivalent (join b op a) := by
  refine equivalent_iff.2
    ⟨(isLicense_join_iff hOp).2 ⟨ha, hb⟩, (isLicense_join_iff hOp).2 ⟨hb, ha⟩, ?_⟩
  rw [clauseSets_join hOp, clauseSets_join hOp, joinSets_comm]

theorem equivalent_join_assoc (hOp : op ≠ .attach) (ha : a.IsLicense) (hb : b.IsLicense)
    (hc : c.IsLicense) : (join (join a op b) op c).Equivalent (join a op (join b op c)) := by
  refine equivalent_iff.2 ⟨?_, ?_, ?_⟩
  · simp only [isLicense_join_iff hOp]
    exact ⟨⟨ha, hb⟩, hc⟩
  · simp only [isLicense_join_iff hOp]
    exact ⟨ha, hb, hc⟩
  · simp only [clauseSets_join hOp, joinSets_assoc]

/-- An exception may be attached to the whole or to each of the operands, where these have none. -/
theorem equivalent_attach_join (hOp : op ≠ .attach) (ha : a.IsLicense) (hb : b.IsLicense)
    (hFreeLeft : a.hasAttachment = false) (hFreeRight : b.hasAttachment = false)
    (x : LicenseException) :
    (join (join a op b) .attach (exception x)).Equivalent
      (join (join a .attach (exception x)) op (join b .attach (exception x))) := by
  have hFree : (join a op b).hasAttachment = false := by
    rw [hasAttachment_join hOp, hFreeLeft, hFreeRight]
    rfl
  refine equivalent_iff.2 ⟨⟨(isLicense_join_iff hOp).2 ⟨ha, hb⟩, hFree⟩, ?_, ?_⟩
  · exact (isLicense_join_iff hOp).2 ⟨⟨ha, hFreeLeft⟩, ⟨hb, hFreeRight⟩⟩
  · rw [clauseSets_join hOp, clauseSets, clauseSets, clauseSets, clauseSets_join hOp,
      image_joinSets]

/-! ### Equivalent expressions in a context -/

def Excepted (sets : Finset (Finset Term)) : Prop :=
  ∃ s ∈ sets, ∃ t ∈ s, t.exception ≠ none

theorem excepted_iff {sets : Finset (Finset Term)} :
    Excepted sets ↔ ∃ t ∈ allTerms sets, t.exception ≠ none := by
  simp only [Excepted, mem_allTerms]
  constructor
  · rintro ⟨s, hs, t, ht, hException⟩
    exact ⟨t, ⟨s, hs, ht⟩, hException⟩
  · rintro ⟨t, ⟨s, hs, ht⟩, hException⟩
    exact ⟨s, hs, t, ht, hException⟩

/-- An exception of either side is one of what an operator makes of both. -/
theorem excepted_joinSets_iff (op : Operator) {s r : Finset (Finset Term)} (hs : s.Nonempty)
    (hr : r.Nonempty) : Excepted (joinSets op s r) ↔ Excepted s ∨ Excepted r := by
  simp only [excepted_iff, allTerms_joinSets op hs hr, Finset.mem_union, or_and_right, exists_or]

/-- An expression has an exception attached exactly when one of its terms has it. -/
theorem hasAttachment_iff_excepted (h : a.IsLicense) :
    a.hasAttachment = true ↔ Excepted a.clauseSets := by
  induction a, h using isLicense_induction with
  | single l => simp [hasAttachment, clauseSets, Excepted]
  | attach left x hLeft hFree ih =>
      obtain ⟨s, hs⟩ := clauseSets_nonempty hLeft
      obtain ⟨t, ht⟩ := nonempty_of_mem_clauseSets hLeft s hs
      have hGranted : Excepted (join left .attach (exception x)).clauseSets :=
        ⟨_, Finset.mem_image_of_mem _ hs, _, Finset.mem_image_of_mem _ ht, by simp [Term.grant]⟩
      simp [hasAttachment, hGranted]
  | join left op right hOp hLeft hRight ihLeft ihRight =>
      rw [hasAttachment_join hOp, Bool.or_eq_true, ihLeft, ihRight, clauseSets_join hOp,
        excepted_joinSets_iff op (clauseSets_nonempty hLeft) (clauseSets_nonempty hRight)]

/-- Equivalence shows whether an exception is attached, so `WITH` accepts equivalent expressions
alike. -/
theorem Equivalent.hasAttachment_eq (h : a.Equivalent b) : a.hasAttachment = b.hasAttachment := by
  obtain ⟨ha, hb, hSets⟩ := equivalent_iff.1 h
  rw [Bool.eq_iff_iff, hasAttachment_iff_excepted ha, hasAttachment_iff_excepted hb, hSets]

/-- An expression with one place left open where a license expression can stand: anywhere but right
of a `WITH`. -/
inductive Context where
  | hole
  | left (inner : Context) (op : Operator) (last : Expr)
  | right (first : Expr) (op : Operator) (chain : op ≠ .attach) (inner : Context)

def Context.fill (e : Expr) : Context → Expr
  | hole => e
  | left inner op last => .join (inner.fill e) op last
  | right first op _ inner => .join first op (inner.fill e)

/-- Equivalent expressions may stand for each other in any context. Where the one can stand the
other can. -/
theorem Equivalent.fill (h : a.Equivalent b) (context : Context)
    (hWhole : (context.fill a).IsLicense) : (context.fill a).Equivalent (context.fill b) := by
  induction context with
  | hole => exact h
  | left inner op last ih =>
      by_cases hOp : op = .attach
      · subst hOp
        obtain ⟨x, rfl, hInner, hFree⟩ := isLicense_attach_iff.1 hWhole
        have hFilled := ih hInner
        obtain ⟨-, hOther, hSets⟩ := equivalent_iff.1 hFilled
        rw [hFilled.hasAttachment_eq] at hFree
        refine equivalent_iff.2 ⟨hWhole, ⟨hOther, hFree⟩, ?_⟩
        rw [Context.fill, clauseSets, hSets, Context.fill, clauseSets]
      · obtain ⟨hInner, hLast⟩ := (isLicense_join_iff hOp).1 hWhole
        obtain ⟨-, hOther, hSets⟩ := equivalent_iff.1 (ih hInner)
        refine equivalent_iff.2 ⟨hWhole, (isLicense_join_iff hOp).2 ⟨hOther, hLast⟩, ?_⟩
        rw [Context.fill, clauseSets_join hOp, hSets, Context.fill, clauseSets_join hOp]
  | right first op chain inner ih =>
      obtain ⟨hFirst, hInner⟩ := (isLicense_join_iff chain).1 hWhole
      obtain ⟨-, hOther, hSets⟩ := equivalent_iff.1 (ih hInner)
      refine equivalent_iff.2 ⟨hWhole, (isLicense_join_iff chain).2 ⟨hFirst, hOther⟩, ?_⟩
      rw [Context.fill, clauseSets_join chain, hSets, Context.fill, clauseSets_join chain]

/-- What `AND`, `OR` and `WITH` obey up to equivalence. `AND` is not idempotent: joined with itself,
a choice of two also leaves both together. -/
structure Laws (a b c : Expr) : Prop where
  and_comm : (join a .and b).Equivalent (join b .and a)
  or_comm : (join a .or b).Equivalent (join b .or a)
  and_assoc : (join (join a .and b) .and c).Equivalent (join a .and (join b .and c))
  or_assoc : (join (join a .or b) .or c).Equivalent (join a .or (join b .or c))
  or_self : (join a .or a).Equivalent a
  and_or : (join a .and (join b .or c)).Equivalent (join (join a .and b) .or (join a .and c))
  or_and : (join (join a .or b) .and c).Equivalent (join (join a .and c) .or (join b .and c))
  attach_and : a.hasAttachment = false → b.hasAttachment = false → ∀ x : LicenseException,
    (join (join a .and b) .attach (exception x)).Equivalent
      (join (join a .attach (exception x)) .and (join b .attach (exception x)))
  attach_or : a.hasAttachment = false → b.hasAttachment = false → ∀ x : LicenseException,
    (join (join a .or b) .attach (exception x)).Equivalent
      (join (join a .attach (exception x)) .or (join b .attach (exception x)))

/-- All laws hold of all license expressions. -/
theorem laws_of_isLicense (ha : a.IsLicense) (hb : b.IsLicense) (hc : c.IsLicense) :
    Laws a b c where
  and_comm := equivalent_join_comm (by decide) ha hb
  or_comm := equivalent_join_comm (by decide) ha hb
  and_assoc := equivalent_join_assoc (by decide) ha hb hc
  or_assoc := equivalent_join_assoc (by decide) ha hb hc
  or_self := equivalent_iff.2 ⟨⟨ha, ha⟩, ha, Finset.union_self _⟩
  and_or := equivalent_iff.2 ⟨⟨ha, hb, hc⟩, ⟨⟨ha, hb⟩, ⟨ha, hc⟩⟩, joinSets_or_distrib_left _ _ _⟩
  or_and := equivalent_iff.2 ⟨⟨⟨ha, hb⟩, hc⟩, ⟨⟨ha, hc⟩, ⟨hb, hc⟩⟩, joinSets_or_distrib_right _ _ _⟩
  attach_and hLeft hRight x := equivalent_attach_join (by decide) ha hb hLeft hRight x
  attach_or hLeft hRight x := equivalent_attach_join (by decide) ha hb hLeft hRight x

/-- Equivalence is an equivalence relation on the expressions that can be built, the operators obey
their laws up to it, and an expression stays buildable and equivalent when one in license position
is replaced by an equivalent one. -/
theorem equivalent_congruence :
    (∀ a b c : Expr, a.Proper → b.Proper → c.Proper →
      a.Equivalent a ∧ (a.Equivalent b → b.Equivalent a) ∧
        (a.Equivalent b → b.Equivalent c → a.Equivalent c) ∧ Laws a b c) ∧
    ∀ (context : Context) (a b : Expr), (context.fill a).Proper → a.Equivalent b →
      (context.fill a).Equivalent (context.fill b) := by
  constructor
  · intro a b c ha hb hc
    rw [← isLicense_iff_proper] at ha hb hc
    refine ⟨equivalent_iff.2 ⟨ha, ha, rfl⟩, ?_, ?_, laws_of_isLicense ha hb hc⟩
    · intro h
      obtain ⟨-, -, hSets⟩ := equivalent_iff.1 h
      exact equivalent_iff.2 ⟨hb, ha, hSets.symm⟩
    · intro hFirst hSecond
      obtain ⟨-, -, hSets⟩ := equivalent_iff.1 hFirst
      obtain ⟨-, -, hOther⟩ := equivalent_iff.1 hSecond
      exact equivalent_iff.2 ⟨ha, hc, hSets.trans hOther⟩
  · intro context a b hWhole h
    exact h.fill context (isLicense_iff_proper.2 hWhole)

/-- Two licenses change places below an exception, which stays attached to both. -/
theorem equivalent_congruence_below_exception :
    let mit := license (.listed "MIT" false false)
    let custom := license (.reference "LicenseRef-a")
    let below : Context :=
      .right custom .or (by decide) (.left .hole .attach (exception ⟨"LLVM-exception", false⟩))
    Laws mit custom mit ∧ (below.fill (join mit .and custom)).Proper ∧
      (below.fill (join mit .and custom)).Equivalent (below.fill (join custom .and mit)) := by
  intro mit custom below
  have hMit : mit.Proper := isLicense_iff_proper.1 trivial
  have hCustom : custom.Proper := isLicense_iff_proper.1 trivial
  obtain ⟨hLaws, hFill⟩ := equivalent_congruence
  obtain ⟨-, -, -, hBoth⟩ := hLaws mit custom mit hMit hCustom hMit
  have hWhole : (below.fill (join mit .and custom)).Proper :=
    isLicense_iff_proper.1 ⟨trivial, ⟨trivial, trivial⟩, rfl⟩
  exact ⟨hBoth, hWhole, hFill below _ _ hWhole hBoth.and_comm⟩

end Licensing.Expr
