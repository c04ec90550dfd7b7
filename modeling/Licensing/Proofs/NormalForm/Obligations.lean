import Licensing.Proofs.Expr.Queries
import Licensing.Proofs.NormalForm.Policy

/-!
Obligations. The different operands of the chain of `AND` at the top of an expression are
obligations of their own: a list of allowed texts satisfies the expression exactly when it satisfies
each of them, and they have the identifiers of the whole. An operand that is written twice is one
obligation, which changes the clauses of an expression and not what satisfies it. A chain below a
`WITH` stays together.
-/

namespace Licensing.Expr

variable {d e : Expr}

/-- Flags do not decide what is permitted, neither those of the tree nor one attached to it. -/
theorem permits_bare (e : Expr) (allowed : List String) (attached : Option LicenseException) :
    e.bare.permits allowed (attached.map LicenseException.bare) = e.permits allowed attached := by
  induction e generalizing attached with
  | leaf l =>
      cases l with
      | license l =>
          cases attached with
          | none => simp [bare, Leaf.bare, permits, License.text_bare]
          | some x => simp [bare, Leaf.bare, permits, License.text_bare, LicenseException.bare]
      | exception x => rfl
      | foreign v => rfl
  | join left op right ihLeft ihRight =>
      cases op with
      | or => rw [bare, permits, ihLeft, ihRight, permits]
      | and => rw [bare, permits, ihLeft, ihRight, permits]
      | attach =>
          cases right with
          | leaf l =>
              cases l with
              | exception x => exact ihLeft (some x)
              | license l => rfl
              | foreign v => rfl
          | join first middle last => rfl

theorem permits_eq_of_same (h : d.same e = true) (allowed : List String) :
    d.permits allowed none = e.permits allowed none := by
  have hSame : d.bare = e.bare := by simpa [same] using h
  calc
    d.permits allowed none = d.bare.permits allowed none := (permits_bare d allowed none).symm
    _ = e.bare.permits allowed none := by rw [hSame]
    _ = e.permits allowed none := permits_bare e allowed none

/-- A chain of `AND` is permitted when all of its operands are. -/
theorem permits_iff_conjuncts (e : Expr) (allowed : List String)
    (attached : Option LicenseException) :
    e.permits allowed attached = true ↔
      ∀ d ∈ e.conjuncts, d.permits allowed attached = true := by
  fun_induction conjuncts e with
  | case1 left right ihRight ihLeft =>
      rw [permits, Bool.and_eq_true, ihLeft, ihRight, List.forall_mem_append, and_comm]
  | case2 e hSingle => simp

/-- The normal form of a tree answers what the tree permits. -/
theorem isSatisfiedBy_iff_permits {nf : NormalForm} (h : e.IsLicense)
    (hSets : nf.sets = e.clauseSets) (allowed : List String) :
    nf.isSatisfiedBy allowed = true ↔ e.permits allowed none = true := by
  rw [nf.isSatisfiedBy_iff, hSets, permits_iff h allowed none fun hSome => absurd rfl hSome]
  rfl

/-- An expression is satisfied by what satisfies each of its different operands. -/
theorem isSatisfiedBy_iff_decompose {nf : NormalForm} (h : e.IsLicense)
    (hSets : nf.sets = e.clauseSets) (allowed : List String) (threshold : Int) :
    nf.isSatisfiedBy allowed = true ↔ ∀ d ∈ e.decompose, ∃ part,
      (d.normalize threshold).run.value = .ok part ∧ part.isSatisfiedBy allowed = true := by
  have hSame (a b : Expr) (hab : a.same b = true) :
      a.permits allowed none = true ↔ b.permits allowed none = true := by
    rw [permits_eq_of_same hab]
  rw [isSatisfiedBy_iff_permits h hSets, permits_iff_conjuncts, ← forall_mem_decompose_iff hSame]
  refine forall₂_congr fun d hd => ?_
  have hOperand := isLicense_of_mem_conjuncts h (mem_conjuncts_of_mem_decompose hd)
  obtain ⟨part, hNormal, hPartSets, -⟩ := exists_normalForm hOperand
  rw [value_normalize, hNormal, ← isSatisfiedBy_iff_permits hOperand hPartSets]
  constructor
  · intro hPart
    exact ⟨part, rfl, hPart⟩
  · rintro ⟨_, hEqual, hPart⟩
    obtain rfl := Except.ok.inj hEqual
    exact hPart

/-- A question is answered for each of the different operands, and all their answers together are
the answer for the whole. -/
structure Gathers (question : Expr → Except Fault (List String)) (e : Expr) : Prop where
  each : ∀ d ∈ e.decompose, ∃ part, question d = .ok part
  whole : ∃ ids, question e = .ok ids ∧
    ∀ id, id ∈ ids ↔ ∃ d ∈ e.decompose, ∃ part, question d = .ok part ∧ id ∈ part

theorem gathers_collect {ask : Leaf → Option String} (hAsk : ∀ l, ask l.bare = ask l)
    (h : e.IsLicense) : Gathers (fun f => collect ask [f] []) e where
  each d hd := ⟨_, collect_of_isLicense ask
    (isLicense_of_mem_conjuncts h (mem_conjuncts_of_mem_decompose hd))⟩
  whole := by
    refine ⟨_, collect_of_isLicense ask h, fun id => ?_⟩
    have hSame (a b : Expr) (hab : a.same b = true) :
        id ∈ a.leaves.filterMap ask ↔ id ∈ b.leaves.filterMap ask := by
      rw [filterMap_leaves_eq_of_same hAsk hab]
    rw [mem_distinctOn_iff, mem_filterMap_leaves_iff, ← exists_mem_decompose_iff hSame]
    refine exists_congr fun d => and_congr_right fun hd => ?_
    have hOperand := isLicense_of_mem_conjuncts h (mem_conjuncts_of_mem_decompose hd)
    rw [collect_of_isLicense ask hOperand]
    constructor
    · intro hIn
      exact ⟨_, rfl, mem_distinctOn_iff.2 hIn⟩
    · rintro ⟨_, hEqual, hIn⟩
      obtain rfl := Except.ok.inj hEqual
      exact mem_distinctOn_iff.1 hIn

/-- An expression is one of the operands that `AND` joins at the top of another one. -/
structure Obligation (d e : Expr) : Prop where
  proper : d.Proper
  part : d ∈ e.parts
  single : ∀ left right, d ≠ join left .and right
  normal : ∀ threshold, ∃ nf, (d.normalize threshold).run.value = .ok nf

theorem obligation_of_mem_decompose (h : e.IsLicense) (hd : d ∈ e.decompose) : d.Obligation e := by
  have hOperand := mem_conjuncts_of_mem_decompose hd
  have hLicense := isLicense_of_mem_conjuncts h hOperand
  obtain ⟨nf, hNormal, -⟩ := exists_normalForm hLicense
  exact ⟨isLicense_iff_proper.1 hLicense, mem_parts_of_mem_conjuncts hOperand,
    ne_conjunction_of_mem_conjuncts hOperand,
    fun threshold => ⟨nf, by rw [value_normalize, hNormal]⟩⟩

/-- An expression splits into obligations, which are parts of it and no conjunctions themselves. The
lists that satisfy it are those that satisfy them all, and its identifiers are theirs together. -/
theorem decompose_obligations (he : e.Proper) :
    (∀ d ∈ e.decompose, d.Obligation e) ∧
      (∀ threshold, ∃ nf, (e.normalize threshold).run.value = .ok nf ∧
        ∀ allowed, nf.isSatisfiedBy allowed = true ↔ ∀ d ∈ e.decompose, ∃ part,
          (d.normalize threshold).run.value = .ok part ∧ part.isSatisfiedBy allowed = true) ∧
      Gathers licenseIds e ∧ Gathers exceptionIds e := by
  have hLicense := isLicense_iff_proper.2 he
  obtain ⟨nf, hNormal, hSets, -⟩ := exists_normalForm hLicense
  refine ⟨fun d hd => obligation_of_mem_decompose hLicense hd, fun threshold => ⟨nf, ?_, ?_⟩,
    gathers_collect Leaf.licenseId?_bare hLicense, gathers_collect Leaf.exceptionId?_bare hLicense⟩
  · rw [value_normalize, hNormal]
  · exact fun allowed => isSatisfiedBy_iff_decompose hLicense hSets allowed threshold

/-- An operand that occurs twice, with different flags, is one obligation, and what is granted an
exception is not taken apart. -/
theorem decompose_obligations_repeated :
    let old := license (.listed "GPL-2.0" true true)
    let mit := license (.listed "MIT" false false)
    let custom := license (.reference "LicenseRef-a")
    let granted := join (join mit .and custom) .attach (exception ⟨"LLVM-exception", false⟩)
    let again := license (.listed "GPL-2.0" true false)
    let e := join (join old .and granted) .and (join (join mit .or custom) .and again)
    e.Proper ∧ e.decompose = [again, join mit .or custom, granted] ∧
      (∀ d ∈ e.decompose, d.Obligation e) ∧ Gathers licenseIds e ∧ Gathers exceptionIds e ∧
      ∃ nf, (e.normalize 64).run.value = .ok nf ∧
        ∀ allowed, nf.isSatisfiedBy allowed = true ↔ ∀ d ∈ e.decompose, ∃ part,
          (d.normalize 64).run.value = .ok part ∧ part.isSatisfiedBy allowed = true := by
  intro old mit custom granted again e
  have hProper : e.Proper := isLicense_iff_proper.1
    ⟨⟨trivial, ⟨trivial, trivial⟩, rfl⟩, ⟨trivial, trivial⟩, trivial⟩
  obtain ⟨hObligations, hSatisfied, hLicenses, hExceptions⟩ := decompose_obligations hProper
  exact ⟨hProper, by decide +kernel, hObligations, hLicenses, hExceptions, hSatisfied 64⟩

end Licensing.Expr
