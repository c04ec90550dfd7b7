import Licensing.Proofs.NormalForm.Distinct

/-!
The walk over an expression, one visit at a time. Above any stack and any clauses it is put together
from the walks over the operands (`reaches_of_clauses`). The visits that an expression asks for take
what they left themselves and nothing from below it (`Step.above`), and there is but one step from
any moment, so these are all the visits that are made until the expression is worked off
(`Reaches.passes`). A visit that finds too few clauses has no step, and none is met on the way.
-/

namespace Licensing.Expr

/-- A moment of the walk: the visits still to be made, and the clauses that were left. -/
structure Walk where
  stack : List Visit
  done : List (List Clause)

namespace Walk

/-- One visit that is not refused. -/
inductive Step : Walk → Walk → Prop where
  | leaf {l : Leaf} {found : List Clause} (read : leafClauses l = .ok found) (again : Bool)
      (rest : List Visit) (done : List (List Clause)) :
      Step ⟨⟨leaf l, again⟩ :: rest, done⟩ ⟨rest, found :: done⟩
  | enterGranted (left right : Expr) (rest : List Visit) (done : List (List Clause)) :
      Step ⟨⟨join left .attach right, false⟩ :: rest, done⟩
        ⟨⟨left, false⟩ :: ⟨join left .attach right, true⟩ :: rest, done⟩
  | enterOperands {op : Operator} (hOp : op ≠ .attach) (left right : Expr) (rest : List Visit)
      (done : List (List Clause)) :
      Step ⟨⟨join left op right, false⟩ :: rest, done⟩
        ⟨⟨left, false⟩ :: ⟨right, false⟩ :: ⟨join left op right, true⟩ :: rest, done⟩
  | attach {right : Expr} {granted found : List Clause}
      (read : grantClauses right granted = .ok found) (left : Expr) (rest : List Visit)
      (done : List (List Clause)) :
      Step ⟨⟨join left .attach right, true⟩ :: rest, granted :: done⟩ ⟨rest, found :: done⟩
  | join {op : Operator} (hOp : op ≠ .attach) (left right : Expr) (rest : List Visit)
      (ofRight ofLeft : List Clause) (done : List (List Clause)) :
      Step ⟨⟨join left op right, true⟩ :: rest, ofRight :: ofLeft :: done⟩
        ⟨rest, joinClauses op ofLeft ofRight :: done⟩

/-- The visit on top looks for clauses that were not left. -/
inductive Starved : Walk → Prop where
  | attach (left right : Expr) (rest : List Visit) :
      Starved ⟨⟨.join left .attach right, true⟩ :: rest, []⟩
  | join {op : Operator} (hOp : op ≠ .attach) (left right : Expr) (rest : List Visit)
      {done : List (List Clause)} (few : done.length < 2) :
      Starved ⟨⟨.join left op right, true⟩ :: rest, done⟩

abbrev Reaches : Walk → Walk → Prop := Relation.ReflTransGen Step

def above (w : Walk) (rest : List Visit) (done : List (List Clause)) : Walk :=
  ⟨w.stack ++ rest, w.done ++ done⟩

variable {u v w : Walk}

theorem walk_eq_of_step (h : Step v w) : walk v.stack v.done = walk w.stack w.done := by
  cases h with
  | leaf read again rest done => rw [walk, read]
  | enterGranted left right rest done => rw [walk]
  | enterOperands hOp left right rest done =>
      rw [walk]
      exact hOp
  | attach read left rest done => rw [walk, read]
  | join hOp left right rest ofRight ofLeft done =>
      rw [walk]
      exact hOp

/-- A visit that looks for clauses in vain ends the walk. -/
theorem walk_of_starved (h : Starved w) : walk w.stack w.done = .error .unfinishedOperands := by
  cases h with
  | attach left right rest => rw [walk]
  | @join op hOp left right rest done few =>
      rw [walk]
      · exact hOp
      · intro ofRight ofLeft others hDone
        obtain rfl : done = ofRight :: ofLeft :: others := hDone
        simp only [List.length_cons] at few
        omega

/-- A moment of the walk has one next moment at most. -/
theorem Step.unique (h : Step u v) (hOther : Step u w) : v = w := by
  cases h with
  | leaf read again rest done =>
      cases hOther with
      | leaf readOther => rw [Except.ok.inj (read.symm.trans readOther)]
  | enterGranted left right rest done =>
      cases hOther with
      | enterGranted => rfl
      | enterOperands hOp => exact absurd rfl hOp
  | enterOperands hOp left right rest done =>
      cases hOther with
      | enterGranted => exact absurd rfl hOp
      | enterOperands => rfl
  | attach read left rest done =>
      cases hOther with
      | attach readOther => rw [Except.ok.inj (read.symm.trans readOther)]
      | join hOp => exact absurd rfl hOp
  | join hOp left right rest ofRight ofLeft done =>
      cases hOther with
      | attach => exact absurd rfl hOp
      | join => rfl

theorem Step.not_starved (h : Step v w) : ¬ v.Starved := by
  intro hStarved
  cases h with
  | leaf => cases hStarved
  | enterGranted => cases hStarved
  | enterOperands => cases hStarved
  | attach =>
      cases hStarved with
      | join hOp => exact hOp rfl
  | join hOp =>
      cases hStarved with
      | join _ _ _ _ few =>
          simp only [List.length_cons] at few
          omega

/-- What lies below a visit has no part in it. -/
theorem Step.above (h : Step v w) (rest : List Visit) (done : List (List Clause)) :
    Step (v.above rest done) (w.above rest done) := by
  cases h with
  | leaf read again own left => exact .leaf read again _ _
  | enterGranted left right own given => exact .enterGranted left right _ _
  | enterOperands hOp left right own given => exact .enterOperands hOp left right _ _
  | attach read left own given => exact .attach read left _ _
  | join hOp left right own ofRight ofLeft given => exact .join hOp left right _ ofRight ofLeft _

theorem walk_eq_of_reaches (h : Reaches v w) : walk v.stack v.done = walk w.stack w.done := by
  induction h with
  | refl => rfl
  | tail prior last ih => exact ih.trans (walk_eq_of_step last)

/-- What a walk passes when it is made above other visits and clauses: the moments of the walk
itself, and from its end on what comes after it. -/
theorem Reaches.passes {start finish : Walk} (h : Reaches start finish) {rest : List Visit}
    {done : List (List Clause)} (hReached : Reaches (start.above rest done) w) :
    Reaches (finish.above rest done) w ∨
      ∃ v next, w = v.above rest done ∧ Step v next ∧ Reaches next finish := by
  induction h using Relation.ReflTransGen.head_induction_on with
  | refl => exact Or.inl hReached
  | @head first next hStep hRest ih =>
      rcases hReached.cases_head with hHere | ⟨other, hFirst, hOthers⟩
      · exact Or.inr ⟨first, next, hHere.symm, hStep, hRest⟩
      · obtain rfl := (hStep.above rest done).unique hFirst
        exact ih hOthers

end Walk

open Walk (Reaches Step)

variable {e : Expr} {found : List Clause}

/-- Whatever lies below, an expression on top is worked off, and its clauses are left. -/
theorem reaches_of_clauses (h : e.clauses = .ok found) (rest : List Visit)
    (done : List (List Clause)) :
    Reaches ⟨⟨e, false⟩ :: rest, done⟩ ⟨rest, found :: done⟩ := by
  induction e generalizing found rest done with
  | leaf l => exact .single (.leaf h false rest done)
  | join left op right ihLeft ihRight =>
      by_cases hOp : op = .attach
      · subst hOp
        obtain ⟨granted, hLeft, hGranted⟩ := clauses_attach_eq_ok_iff.1 h
        have hOperand := ihLeft hLeft (⟨join left .attach right, true⟩ :: rest) done
        apply Relation.ReflTransGen.head (.enterGranted left right rest done)
        exact hOperand.tail (.attach hGranted left rest done)
      · obtain ⟨ofLeft, ofRight, hLeft, hRight, rfl⟩ := (clauses_join_eq_ok_iff hOp).1 h
        have hFirst := ihLeft hLeft (⟨right, false⟩ :: ⟨join left op right, true⟩ :: rest) done
        have hSecond := ihRight hRight (⟨join left op right, true⟩ :: rest) (ofLeft :: done)
        apply Relation.ReflTransGen.head (.enterOperands hOp left right rest done)
        exact (hFirst.trans hSecond).tail (.join hOp left right rest ofRight ofLeft done)

/-- Made above any visits and any clauses, the walk over an expression ends with its clauses left on
top. Until then no visit looks for clauses in vain, and each of them is one that is made without
anything below. -/
structure WorksOff (e : Expr) (found : List Clause) : Prop where
  ends (rest : List Visit) (done : List (List Clause)) :
    Reaches ⟨⟨e, false⟩ :: rest, done⟩ ⟨rest, found :: done⟩
  keeps (rest : List Visit) (done : List (List Clause)) (w : Walk) :
    Reaches ⟨⟨e, false⟩ :: rest, done⟩ w → Reaches ⟨rest, found :: done⟩ w ∨
      ¬ w.Starved ∧ ∃ v next, w = v.above rest done ∧ Step v next ∧ Reaches next ⟨[], [found]⟩

/-- The walk works off every expression that has clauses. -/
theorem worksOff_of_clauses (h : e.clauses = .ok found) : WorksOff e found where
  ends := reaches_of_clauses h
  keeps rest done w hReached := by
    rcases (reaches_of_clauses h [] []).passes hReached with hBehind | ⟨v, next, rfl, hStep, hRest⟩
    · exact Or.inl hBehind
    · exact Or.inr ⟨(hStep.above rest done).not_starved, v, next, rfl, hStep, hRest⟩

/-- Both walks with a stack of their own do what the recursion along the tree does. The one for the
clauses works every expression off above any stack and leaves its clauses, one set of them, with no
visit in vain; the one for the text adds the text, in which a joined operand stands in parentheses
just when it binds less tightly than what it is an operand of. -/
theorem walks_follow_tree (h : e.Proper) :
    (∃ found, e.clauses = .ok found ∧ Clauses.sets found = e.clauseSets ∧
      Clauses.Distinct found ∧ WorksOff e found ∧
      (∀ rest done, walk (⟨e, false⟩ :: rest) done = walk rest (found :: done)) ∧
      (∀ w, Reaches ⟨[⟨e, false⟩], []⟩ w → ¬ w.Starved) ∧ e.walkedClauses = .ok found) ∧
    (∀ out rest, write out (.node e :: rest) = write (out ++ e.text) rest) ∧ e.render = e.text ∧
    ∀ parent, e.needsParens parent = true ↔
      ∃ left op right, e = join left op right ∧ op.strength < parent.strength := by
  refine ⟨?_, write_node e, render_eq_text e, fun parent => needsParens_eq_true_iff⟩
  obtain ⟨found, hClauses, hSets, -⟩ := exists_clauses (isLicense_iff_proper.2 h)
  have hWorksOff := worksOff_of_clauses hClauses
  have hWalk (rest : List Visit) (done : List (List Clause)) :
      walk (⟨e, false⟩ :: rest) done = walk rest (found :: done) :=
    Walk.walk_eq_of_reaches (hWorksOff.ends rest done)
  refine ⟨found, hClauses, hSets, distinct_of_clauses hClauses, hWorksOff, hWalk, ?_, ?_⟩
  · intro w hReached hStarved
    have hEnd : walk w.stack w.done = .ok [found] := by
      rw [← Walk.walk_eq_of_reaches hReached, hWalk, walk]
    rw [Walk.walk_of_starved hStarved] at hEnd
    cases hEnd
  · rw [walkedClauses_eq, hClauses]

/-- An `OR` below a `WITH` and an `OR` below the `AND` around it, with a visit and clauses below
that are kept. -/
theorem walks_follow_tree_granted :
    let mit := license (.listed "MIT" false false)
    let custom := license (.reference "LicenseRef-a")
    let x : LicenseException := ⟨"LLVM-exception", false⟩
    let e := join (join (join mit .or custom) .attach (exception x)) .and (join mit .or custom)
    let granted (l : License) (m : License) : Clause := [⟨l, some x⟩, ⟨m, none⟩]
    let found := [granted (.listed "MIT" false false) (.listed "MIT" false false),
      granted (.listed "MIT" false false) (.reference "LicenseRef-a"),
      granted (.reference "LicenseRef-a") (.listed "MIT" false false),
      granted (.reference "LicenseRef-a") (.reference "LicenseRef-a")]
    e.Proper ∧ e.walkedClauses = .ok found ∧
      Reaches ⟨[⟨e, false⟩, ⟨mit, false⟩], [[]]⟩ ⟨[⟨mit, false⟩], [found, []]⟩ ∧
      e.render = "(MIT OR LicenseRef-a) WITH LLVM-exception AND (MIT OR LicenseRef-a)" := by
  intro mit custom x e granted found
  have hProper : e.Proper := isLicense_iff_proper.1 ⟨⟨⟨trivial, trivial⟩, rfl⟩, trivial, trivial⟩
  obtain ⟨⟨cs, hClauses, -, -, hWorksOff, -, -, hWalked⟩, -, hText, -⟩ := walks_follow_tree hProper
  have hFound : e.clauses = .ok found := by decide +kernel
  obtain rfl : found = cs := Except.ok.inj (hFound.symm.trans hClauses)
  refine ⟨hProper, hWalked, hWorksOff.ends _ _, ?_⟩
  rw [hText]
  decide +kernel

end Licensing.Expr
