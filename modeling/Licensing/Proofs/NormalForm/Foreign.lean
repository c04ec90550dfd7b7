import Licensing.Proofs.Expr.Queries
import Licensing.Proofs.NormalForm.ClauseSets

/-!
Foreign leaves. A tree is built without a look at what its leaves are, so values that mean nothing
may stand anywhere in it. Normalizing it and asking for its identifiers visit the leaves in
different ways, one of them never the right operand of a `WITH`; that operand is an exception in
every tree that can be built, so all of them come upon the same foreign leaf first and refuse the
tree for it. The refusal shows the value, so it fails in its turn over an integer that has too many
digits to be shown. Nothing else is wrong with a tree that can be built, and a tree without foreign
leaves is answered in full.
-/

namespace Licensing.Expr

def Native (e : Expr) : Prop :=
  ∀ v, Leaf.foreign v ∉ e.leaves

def LeftmostForeign (e : Expr) (v : Foreign) : Prop :=
  ∃ before after, e.leaves = before ++ Leaf.foreign v :: after ∧ ∀ w, Leaf.foreign w ∉ before

/-- An expression is answered just when it has no foreign leaf, and then with the whole answer. It
is refused for the leftmost foreign leaf and for nothing else: as no expression, and by name, just
when that value can be shown. -/
structure Settled {α : Type} (e : Expr) (Whole : α → Prop) (outcome : Except Fault α) : Prop where
  answered_iff : (∃ answer, outcome = .ok answer) ↔ e.Native
  whole : ∀ answer, outcome = .ok answer → Whole answer
  refused_iff : ∀ fault, outcome = .error fault ↔
    ∃ v, e.LeftmostForeign v ∧ fault = v.refusal
  named_iff : ∀ quoted, outcome = .error (.notAnExpression quoted) ↔
    ∃ v, e.LeftmostForeign v ∧ v.showable = true ∧ quoted = v.quoted

variable {e : Expr}

/-- A value that cannot be shown is refused while it is being shown. -/
theorem refusal_of_not_showable {v : Foreign} (h : v.showable = false) :
    v.refusal = .unshowable := by
  simp [Foreign.refusal, h]

/-- A value is refused by name just when it can be shown, and by the text that shows it. -/
theorem refusal_eq_notAnExpression_iff {v : Foreign} {quoted : String} :
    v.refusal = .notAnExpression quoted ↔ v.showable = true ∧ quoted = v.quoted := by
  unfold Foreign.refusal
  split
  · rename_i hShown
    simp [hShown, eq_comm]
  · rename_i hShown
    simp [hShown]

theorem foreign?_eq_some_iff {l : Leaf} {v : Foreign} : l.foreign? = some v ↔ l = .foreign v := by
  cases l with
  | foreign w => simp [Leaf.foreign?]
  | license l => simp [Leaf.foreign?]
  | exception x => simp [Leaf.foreign?]

theorem forall_foreign?_eq_none_iff {ls : List Leaf} :
    (∀ l ∈ ls, l.foreign? = none) ↔ ∀ v, Leaf.foreign v ∉ ls := by
  constructor
  · intro h v hv
    exact absurd (h _ hv) (by simp [Leaf.foreign?])
  · intro h l hl
    rw [Option.eq_none_iff_forall_ne_some]
    intro v hv
    exact h v (foreign?_eq_some_iff.1 hv ▸ hl)

theorem firstForeign?_eq_none_iff : e.firstForeign? = none ↔ e.Native := by
  rw [firstForeign?, List.findSome?_eq_none_iff, forall_foreign?_eq_none_iff]
  rfl

theorem firstForeign?_eq_some_iff {v : Foreign} :
    e.firstForeign? = some v ↔ e.LeftmostForeign v := by
  rw [firstForeign?, List.findSome?_eq_some_iff]
  constructor
  · rintro ⟨before, l, after, hLeaves, hFound, hNone⟩
    obtain rfl := foreign?_eq_some_iff.1 hFound
    exact ⟨before, after, hLeaves, forall_foreign?_eq_none_iff.1 hNone⟩
  · rintro ⟨before, after, hLeaves, hNone⟩
    exact ⟨before, .foreign v, after, hLeaves, rfl, forall_foreign?_eq_none_iff.2 hNone⟩

namespace Settled

variable {α : Type} {Whole : α → Prop} {outcome : Except Fault α}

/-- For which values a tree is refused by name follows from what it is refused for at all. -/
theorem of_refused_iff (hAnswered : (∃ answer, outcome = .ok answer) ↔ e.Native)
    (hWhole : ∀ answer, outcome = .ok answer → Whole answer)
    (hRefused : ∀ fault, outcome = .error fault ↔
      ∃ v, e.LeftmostForeign v ∧ fault = v.refusal) :
    e.Settled Whole outcome where
  answered_iff := hAnswered
  whole := hWhole
  refused_iff := hRefused
  named_iff quoted := by
    rw [hRefused]
    refine exists_congr fun v => and_congr_right fun _ => ?_
    rw [eq_comm, refusal_eq_notAnExpression_iff]

/-- An answer settles an expression without foreign leaves. -/
theorem of_ok {answer : α} (hNone : e.firstForeign? = none) (hWhole : Whole answer)
    (h : outcome = .ok answer) : e.Settled Whole outcome := by
  refine .of_refused_iff ⟨fun _ => firstForeign?_eq_none_iff.1 hNone, fun _ => ⟨answer, h⟩⟩
    (fun other hOther => Except.ok.inj (h.symm.trans hOther) ▸ hWhole) fun fault => ?_
  constructor
  · intro hRefused
    cases h.symm.trans hRefused
  · rintro ⟨v, hv, -⟩
    cases hNone.symm.trans (firstForeign?_eq_some_iff.2 hv)

/-- Its refusal settles an expression with one. -/
theorem of_error {v : Foreign} (hSome : e.firstForeign? = some v)
    (h : outcome = .error v.refusal) : e.Settled Whole outcome := by
  refine .of_refused_iff ?_ (fun answer hAnswer => by cases h.symm.trans hAnswer) fun fault => ?_
  · constructor
    · rintro ⟨answer, hAnswer⟩
      cases h.symm.trans hAnswer
    · intro hNative
      cases hSome.symm.trans (firstForeign?_eq_none_iff.2 hNative)
  · constructor
    · intro hRefused
      exact ⟨v, firstForeign?_eq_some_iff.1 hSome, Except.error.inj (hRefused.symm.trans h)⟩
    · rintro ⟨w, hw, rfl⟩
      obtain rfl := Option.some.inj (hSome.symm.trans (firstForeign?_eq_some_iff.2 hw))
      exact h

end Settled

/-- Asking all leaves is settled by them, whatever is asked. -/
theorem settled_collect (e : Expr) (ask : Leaf → Option String) :
    e.Settled (fun ids => ∀ id, id ∈ ids ↔ ∃ l ∈ e.leaves, ask l = some id)
      (collect ask [e] []) := by
  rw [collect_single, unlessForeign]
  cases hFirst : e.firstForeign? with
  | none =>
      refine .of_ok hFirst (fun id => ?_) rfl
      rw [mem_distinctOn_iff, List.mem_filterMap]
  | some v => exact .of_error hFirst rfl

/-! ### The normal form -/

/-- The left operand is searched before the right one. -/
theorem firstForeign?_join (left right : Expr) (op : Operator) :
    (join left op right).firstForeign? = left.firstForeign?.or right.firstForeign? := by
  rw [firstForeign?, leaves, List.findSome?_append]
  rfl

/-- The clauses of a tree that can be built are refused for its first foreign leaf. The left operand
is worked out first, and a foreign leaf of the right one is met when the left one has none. -/
theorem clauses_eq_error (hBuildable : e.Buildable) (hWhole : ∀ x, e ≠ exception x) {v : Foreign}
    (h : e.firstForeign? = some v) : e.clauses = .error v.refusal := by
  induction e with
  | leaf l =>
      have hLeaf : l = .foreign v := by
        cases l with
        | foreign w => exact foreign?_eq_some_iff.1 (by simpa [firstForeign?, leaves] using h)
        | license l => cases h
        | exception x => cases h
      subst hLeaf
      rfl
  | join left op right ihLeft ihRight =>
      obtain ⟨hLeft, hRight, hJoin⟩ := hBuildable
      rw [firstForeign?_join] at h
      by_cases hOp : op = .attach
      · subst hOp
        obtain ⟨hFree, -, ⟨x, rfl⟩, -⟩ := join?_attach_eq_ok_iff.1 hJoin
        have hNone : (exception x).firstForeign? = none := rfl
        rw [hNone, Option.or_none] at h
        rw [clauses, ihLeft hLeft hFree h]
        rfl
      · obtain ⟨hFreeLeft, hFreeRight, -⟩ := (join?_eq_ok_iff hOp).1 hJoin
        rw [clauses]
        · cases hFirst : left.firstForeign? with
          | some w =>
              obtain rfl : w = v := by simpa [hFirst] using h
              rw [ihLeft hLeft hFreeLeft hFirst]
              rfl
          | none =>
              have hSecond : right.firstForeign? = some v := by simpa [hFirst] using h
              have hLicense := isLicense_of_buildable hLeft (firstForeign?_eq_none_iff.1 hFirst)
                hFreeLeft
              obtain ⟨found, hFound, -⟩ := exists_clauses hLicense
              rw [hFound, ihRight hRight hFreeRight hSecond]
              rfl
        · exact hOp

/-- A tree that can be built and is no bare exception has a normal form, with the clauses that it
means, unless it has a foreign leaf. -/
theorem settled_normalForm (hBuildable : e.Buildable) (hWhole : ∀ x, e ≠ exception x) :
    e.Settled (fun nf => nf.sets = e.clauseSets) e.normalForm := by
  cases hFirst : e.firstForeign? with
  | none =>
      have hNative := firstForeign?_eq_none_iff.1 hFirst
      obtain ⟨nf, hNormal, hSets, -⟩ :=
        exists_normalForm (isLicense_of_buildable hBuildable hNative hWhole)
      exact .of_ok hFirst hSets hNormal
  | some v =>
      refine .of_error hFirst ?_
      rw [normalForm, walkedClauses_eq, clauses_eq_error hBuildable hWhole hFirst]
      rfl

/-- An expression that is refused is refused before anything is reported. -/
theorem events_normalize_of_error {fault : Fault} (h : e.normalForm = .error fault)
    (threshold : Int) : (e.normalize threshold).run.events = [] := by
  unfold normalize
  rw [h]
  rfl

theorem exists_licenseId?_iff {id : String} :
    (∃ l ∈ e.leaves, l.licenseId? = some id) ↔ ∃ l, Leaf.license l ∈ e.leaves ∧ l.id = id := by
  constructor
  · rintro ⟨l, hl, hId⟩
    cases l with
    | license l => exact ⟨l, hl, Option.some.inj hId⟩
    | exception x => cases hId
    | foreign v => cases hId
  · rintro ⟨l, hl, rfl⟩
    exact ⟨.license l, hl, rfl⟩

theorem exists_exceptionId?_iff {id : String} :
    (∃ l ∈ e.leaves, l.exceptionId? = some id) ↔
      ∃ x, Leaf.exception x ∈ e.leaves ∧ x.id = id := by
  constructor
  · rintro ⟨l, hl, hId⟩
    cases l with
    | license l => cases hId
    | exception x => exact ⟨x, hl, Option.some.inj hId⟩
    | foreign v => cases hId
  · rintro ⟨x, hx, rfl⟩
    exact ⟨.exception x, hx, rfl⟩

/-- Normalizing a tree and asking for its identifiers are answered in full when no leaf is foreign.
Otherwise all three are refused for the same value, the leftmost foreign leaf, and nothing is
reported before that. They are refused for not being given an expression, with the value in the
message, unless the value has an integer with too many digits. -/
theorem foreign_refused_alike (hBuildable : e.Buildable) (hWhole : ∀ x, e ≠ exception x)
    (threshold : Int) :
    e.Settled (fun nf => nf.sets = e.clauseSets) (e.normalize threshold).run.value ∧
    e.Settled (fun ids => ∀ id, id ∈ ids ↔ ∃ l, Leaf.license l ∈ e.leaves ∧ l.id = id)
      e.licenseIds ∧
    e.Settled (fun ids => ∀ id, id ∈ ids ↔ ∃ x, Leaf.exception x ∈ e.leaves ∧ x.id = id)
      e.exceptionIds ∧
    (¬ e.Native → (e.normalize threshold).run.events = []) := by
  have hNormal := settled_normalForm hBuildable hWhole
  refine ⟨by rwa [value_normalize], ?_, ?_, fun hForeign => ?_⟩
  · have hIds := e.settled_collect Leaf.licenseId?
    simp only [exists_licenseId?_iff] at hIds
    exact hIds
  · have hIds := e.settled_collect Leaf.exceptionId?
    simp only [exists_exceptionId?_iff] at hIds
    exact hIds
  · cases hOutcome : e.normalForm with
    | ok nf => exact absurd (hNormal.answered_iff.1 ⟨nf, hOutcome⟩) hForeign
    | error fault => exact events_normalize_of_error hOutcome threshold

/-- Two foreign leaves, the first of them below a `WITH`, and the tree with licenses in their
place. -/
theorem foreign_refused_alike_granted :
    let tree (first last : Expr) :=
      join (join (join (license (.reference "LicenseRef-a")) .or first) .attach
        (exception ⟨"LLVM-exception", false⟩)) .and last
    let e := tree (foreign ⟨"str", "MIT", "'MIT'", true⟩) (foreign (.ofInt 7))
    let d := tree (license (.listed "MIT" false false)) (license (.listed "GPL-2.0" true true))
    e.Buildable ∧ (e.normalize 64).run.value = .error (.notAnExpression "'MIT'") ∧
      e.licenseIds = .error (.notAnExpression "'MIT'") ∧
      e.exceptionIds = .error (.notAnExpression "'MIT'") ∧
      d.Buildable ∧ (∃ nf, (d.normalize 64).run.value = .ok nf) ∧ (∃ ids, d.licenseIds = .ok ids) ∧
      ∃ ids, d.exceptionIds = .ok ids := by
  intro tree e d
  have hForeign : e.Buildable := ⟨⟨⟨trivial, trivial, rfl⟩, trivial, rfl⟩, trivial, rfl⟩
  have hLicenses : d.Buildable := ⟨⟨⟨trivial, trivial, rfl⟩, trivial, rfl⟩, trivial, rfl⟩
  have hLeftmost : e.LeftmostForeign ⟨"str", "MIT", "'MIT'", true⟩ :=
    firstForeign?_eq_some_iff.1 rfl
  have hNative : d.Native := firstForeign?_eq_none_iff.1 rfl
  obtain ⟨hNormal, hIds, hExceptions, -⟩ := foreign_refused_alike hForeign (by simp [e, tree]) 64
  obtain ⟨hForm, hNames, hOthers, -⟩ := foreign_refused_alike hLicenses (by simp [d, tree]) 64
  exact ⟨hForeign, (hNormal.named_iff _).2 ⟨_, hLeftmost, rfl, rfl⟩,
    (hIds.named_iff _).2 ⟨_, hLeftmost, rfl, rfl⟩,
    (hExceptions.named_iff _).2 ⟨_, hLeftmost, rfl, rfl⟩, hLicenses,
    hForm.answered_iff.2 hNative, hNames.answered_iff.2 hNative, hOthers.answered_iff.2 hNative⟩

/-- A license or the least integer that cannot be shown. -/
def oversized : Expr :=
  join (license (.reference "LicenseRef-a")) .or (foreign (.ofInt Decimal.leastOversized))

/-- The tree can be built and has a foreign leaf, and nothing that is asked of it is refused for not
being given an expression. -/
theorem unnamed_oversized :
    oversized.Buildable ∧ oversized.LeftmostForeign (.ofInt Decimal.leastOversized) ∧
      (oversized.normalize 64).run.value = .error .unshowable ∧
      oversized.licenseIds = .error .unshowable ∧ oversized.exceptionIds = .error .unshowable := by
  have hBuildable : oversized.Buildable := ⟨trivial, trivial, rfl⟩
  have hFirst : oversized.firstForeign? = some (.ofInt Decimal.leastOversized) := rfl
  have hRefusal : .unshowable = (Foreign.ofInt Decimal.leastOversized).refusal :=
    (refusal_of_not_showable Decimal.showable_leastOversized).symm
  have hLeftmost := firstForeign?_eq_some_iff.1 hFirst
  have hNormal := settled_normalForm hBuildable (by simp [oversized])
  refine ⟨hBuildable, hLeftmost, ?_, ?_, ?_⟩
  · rw [value_normalize]
    exact (hNormal.refused_iff _).2 ⟨_, hLeftmost, hRefusal⟩
  · exact ((settled_collect _ _).refused_iff _).2 ⟨_, hLeftmost, hRefusal⟩
  · exact ((settled_collect _ _).refused_iff _).2 ⟨_, hLeftmost, hRefusal⟩

end Licensing.Expr
