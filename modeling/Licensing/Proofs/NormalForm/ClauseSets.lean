import Mathlib.Data.Finset.NAry
import Mathlib.Data.Finset.Union
import Licensing.NormalForm.Basic
import Licensing.Proofs.Expr.LeftNested

/-!
Clauses as sets. Lists of terms and of clauses stand for finite sets of terms without flags, and the
operations on the lists for the operations on the sets, so what holds of a normal form can be said
of `Expr.clauseSets`, which follows the tree.
-/

namespace Licensing

section Distinct

variable {α β : Type} [DecidableEq β] {same : α → α → Bool} {key : α → β}

/-- Lists without repetition under an equality that compares keys are joined as the sets of their
keys. -/
theorem toFinset_map_unionOn (hSame : ∀ x y, same x y = true ↔ key x = key y) (xs ys : List α) :
    ((unionOn same xs ys).map key).toFinset = (xs.map key).toFinset ∪ (ys.map key).toFinset := by
  induction ys generalizing xs with
  | nil => simp
  | cons y rest ih =>
      have hAdd : ((addNew same xs y).map key).toFinset = insert (key y) (xs.map key).toFinset := by
        unfold addNew
        split
        · rename_i hOld
          obtain ⟨x, hx, hEqual⟩ := List.any_eq_true.1 hOld
          have hMem : key y ∈ (xs.map key).toFinset := by
            rw [(hSame y x).1 hEqual, List.mem_toFinset]
            exact List.mem_map_of_mem hx
          rw [Finset.insert_eq_of_mem hMem]
        · ext b
          simp [eq_comm]
      rw [unionOn_cons, ih, hAdd, List.map_cons, List.toFinset_cons, Finset.union_insert,
        Finset.insert_union]

theorem toFinset_map_distinctOn (hSame : ∀ x y, same x y = true ↔ key x = key y) (xs : List α) :
    ((distinctOn same xs).map key).toFinset = (xs.map key).toFinset := by
  rw [distinctOn, toFinset_map_unionOn hSame]
  simp

end Distinct

theorem Term.same_iff (t u : Term) : t.same u = true ↔ t.bare = u.bare := by
  simp [Term.same]

theorem Term.bare_grant (x : LicenseException) (t : Term) :
    (t.grant x).bare = t.bare.grant x.bare := rfl

namespace Clause

def termSet (c : Clause) : Finset Term :=
  (c.map Term.bare).toFinset

theorem mem_termSet {c : Clause} {t : Term} : t ∈ c.termSet ↔ ∃ u ∈ c, u.bare = t := by
  simp [termSet]

/-- Clauses are compared term by term, without their flags. -/
theorem termSet_subset_iff {c d : Clause} :
    c.termSet ⊆ d.termSet ↔ c.all (fun t => d.any t.same) = true := by
  simp only [List.all_eq_true, List.any_eq_true, Term.same_iff]
  constructor
  · intro h t ht
    obtain ⟨u, hu, hBare⟩ := mem_termSet.1 (h (mem_termSet.2 ⟨t, ht, rfl⟩))
    exact ⟨u, hu, hBare.symm⟩
  · intro h t ht
    obtain ⟨u, hu, rfl⟩ := mem_termSet.1 ht
    obtain ⟨v, hv, hBare⟩ := h u hu
    exact mem_termSet.2 ⟨v, hv, hBare.symm⟩

theorem same_iff (c d : Clause) : Clause.same c d = true ↔ c.termSet = d.termSet := by
  rw [Clause.same, Bool.and_eq_true, ← termSet_subset_iff, ← termSet_subset_iff]
  constructor
  · intro h
    exact Finset.Subset.antisymm h.1 h.2
  · intro h
    exact ⟨h.subset, h.superset⟩

@[simp] theorem termSet_union (c d : Clause) : (c.union d).termSet = c.termSet ∪ d.termSet :=
  toFinset_map_unionOn Term.same_iff c d

theorem termSet_map_grant (x : LicenseException) (c : Clause) :
    termSet (c.map (Term.grant x)) = c.termSet.image (Term.grant x.bare) := by
  ext t
  simp [mem_termSet, Term.bare_grant]

@[simp] theorem termSet_grant (x : LicenseException) (c : Clause) :
    (c.grant x).termSet = c.termSet.image (Term.grant x.bare) := by
  rw [termSet, grant, toFinset_map_distinctOn Term.same_iff]
  exact termSet_map_grant x c

theorem termSet_eq_of_perm {c d : Clause} (h : c.Perm d) : c.termSet = d.termSet :=
  List.toFinset_eq_of_perm _ _ (h.map Term.bare)

end Clause

namespace Clauses

/-- The set of the clauses, each as a set of terms. -/
def sets (cs : List Clause) : Finset (Finset Term) :=
  (cs.map Clause.termSet).toFinset

theorem mem_sets {cs : List Clause} {s : Finset Term} : s ∈ sets cs ↔ ∃ c ∈ cs, c.termSet = s := by
  simp [sets]

theorem subset_iff {cs ds : List Clause} : subset cs ds = true ↔ sets cs ⊆ sets ds := by
  simp only [subset, List.all_eq_true, List.any_eq_true, Clause.same_iff]
  constructor
  · intro h s hs
    obtain ⟨c, hc, rfl⟩ := mem_sets.1 hs
    obtain ⟨d, hd, hEqual⟩ := h c hc
    exact mem_sets.2 ⟨d, hd, hEqual.symm⟩
  · intro h c hc
    obtain ⟨d, hd, hEqual⟩ := mem_sets.1 (h (mem_sets.2 ⟨c, hc, rfl⟩))
    exact ⟨d, hd, hEqual.symm⟩

@[simp] theorem sets_union (cs ds : List Clause) : sets (union cs ds) = sets cs ∪ sets ds :=
  toFinset_map_unionOn Clause.same_iff cs ds

@[simp] theorem sets_product (cs ds : List Clause) :
    sets (product cs ds) = Finset.image₂ (· ∪ ·) (sets cs) (sets ds) := by
  rw [sets, product, toFinset_map_distinctOn Clause.same_iff]
  ext s
  simp only [List.mem_toFinset, List.mem_map, List.mem_flatMap, Finset.mem_image₂, mem_sets]
  constructor
  · intro ⟨_, ⟨c, hc, d, hd, rfl⟩, hUnion⟩
    exact ⟨_, ⟨c, hc, rfl⟩, _, ⟨d, hd, rfl⟩, by rw [← hUnion, Clause.termSet_union]⟩
  · intro ⟨_, ⟨c, hc, rfl⟩, _, ⟨d, hd, rfl⟩, hUnion⟩
    exact ⟨_, ⟨c, hc, d, hd, rfl⟩, by rw [← hUnion, Clause.termSet_union]⟩

@[simp] theorem sets_grant (x : LicenseException) (cs : List Clause) :
    sets (grant x cs) = (sets cs).image (Finset.image (Term.grant x.bare)) := by
  rw [sets, grant, toFinset_map_distinctOn Clause.same_iff]
  ext s
  simp [mem_sets]

/-- No term of the clauses has a leaf but the given ones. -/
def DrawnFrom (ls : List Leaf) (cs : List Clause) : Prop :=
  ∀ c ∈ cs, ∀ t ∈ c, ∀ l ∈ t.toExpr.leaves, l ∈ ls

variable {ls ms : List Leaf} {cs ds : List Clause}

theorem DrawnFrom.union (hLeft : DrawnFrom ls cs) (hRight : DrawnFrom ms ds) :
    DrawnFrom (ls ++ ms) (union cs ds) := by
  intro c hc t ht l hl
  rcases mem_of_mem_unionOn hc with hIn | hIn
  · exact List.mem_append_left ms (hLeft c hIn t ht l hl)
  · exact List.mem_append_right ls (hRight c hIn t ht l hl)

theorem DrawnFrom.product (hLeft : DrawnFrom ls cs) (hRight : DrawnFrom ms ds) :
    DrawnFrom (ls ++ ms) (product cs ds) := by
  intro b hb t ht l hl
  obtain ⟨c, hc, hPair⟩ := List.mem_flatMap.1 (mem_of_mem_distinctOn hb)
  obtain ⟨d, hd, rfl⟩ := List.mem_map.1 hPair
  rcases mem_of_mem_unionOn ht with hIn | hIn
  · exact List.mem_append_left ms (hLeft c hc t hIn l hl)
  · exact List.mem_append_right ls (hRight d hd t hIn l hl)

theorem DrawnFrom.grant (x : LicenseException) (h : DrawnFrom ls cs) :
    DrawnFrom (ls ++ [.exception x]) (grant x cs) := by
  intro b hb t ht l hl
  obtain ⟨c, hc, rfl⟩ := List.mem_map.1 (mem_of_mem_distinctOn hb)
  obtain ⟨u, hu, rfl⟩ := List.mem_map.1 (mem_of_mem_distinctOn ht)
  have hLicense : Leaf.license u.license ∈ u.toExpr.leaves := by
    unfold Term.toExpr
    cases u.exception <;> simp [Expr.leaves]
  rcases List.mem_append.1 hl with hFirst | hLast
  · obtain rfl := List.mem_singleton.1 hFirst
    exact List.mem_append_left _ (h c hc u hu _ hLicense)
  · exact List.mem_append_right ls hLast

end Clauses

namespace NormalForm

/-- The set of the clauses of a normal form. -/
def sets (nf : NormalForm) : Finset (Finset Term) :=
  Clauses.sets nf.clauses

theorem same_iff {a b : NormalForm} : a.same b = true ↔ a.sets = b.sets := by
  rw [same, Bool.and_eq_true, Clauses.subset_iff, Clauses.subset_iff]
  constructor
  · intro h
    exact Finset.Subset.antisymm h.1 h.2
  · intro h
    exact ⟨h.subset, h.superset⟩

end NormalForm

namespace Expr

def clauseSets : Expr → Finset (Finset Term)
  | license l => {{⟨l.bare, none⟩}}
  | leaf _ => ∅
  | join left .attach (exception x) => left.clauseSets.image (Finset.image (Term.grant x.bare))
  | join _ .attach _ => ∅
  | join left .or right => left.clauseSets ∪ right.clauseSets
  | join left .and right => Finset.image₂ (· ∪ ·) left.clauseSets right.clauseSets

/-- What `AND` and `OR` make of sets of clauses. -/
def joinSets (op : Operator) (left right : Finset (Finset Term)) : Finset (Finset Term) :=
  match op with
  | .or => left ∪ right
  | _ => Finset.image₂ (· ∪ ·) left right

theorem clauseSets_join {op : Operator} (hOp : op ≠ .attach) (left right : Expr) :
    (join left op right).clauseSets = joinSets op left.clauseSets right.clauseSets := by
  cases op with
  | attach => exact absurd rfl hOp
  | or => rfl
  | and => rfl

/-- A license expression leaves something to choose. -/
theorem clauseSets_nonempty {e : Expr} (h : e.IsLicense) : e.clauseSets.Nonempty := by
  induction e, h using isLicense_induction with
  | single l => exact Finset.singleton_nonempty _
  | attach left x hLeft hFree ih => exact ih.image _
  | join left op right hOp hLeft hRight ihLeft ihRight =>
      rw [clauseSets_join hOp]
      cases op with
      | attach => exact absurd rfl hOp
      | or => exact ihLeft.mono Finset.subset_union_left
      | and => exact ihLeft.image₂ ihRight

/-- Every choice that it leaves has something to meet. -/
theorem nonempty_of_mem_clauseSets {e : Expr} (h : e.IsLicense) :
    ∀ s ∈ e.clauseSets, s.Nonempty := by
  induction e, h using isLicense_induction with
  | single l =>
      intro s hs
      obtain rfl := Finset.mem_singleton.1 hs
      exact Finset.singleton_nonempty _
  | attach left x hLeft hFree ih =>
      intro s hs
      obtain ⟨r, hr, rfl⟩ := Finset.mem_image.1 hs
      exact (ih r hr).image _
  | join left op right hOp hLeft hRight ihLeft ihRight =>
      intro s hs
      rw [clauseSets_join hOp] at hs
      cases op with
      | attach => exact absurd rfl hOp
      | or =>
          rcases Finset.mem_union.1 hs with hIn | hIn
          · exact ihLeft s hIn
          · exact ihRight s hIn
      | and =>
          obtain ⟨r, hr, q, hq, rfl⟩ := Finset.mem_image₂.1 hs
          exact (ihLeft r hr).mono Finset.subset_union_left

def allTerms (sets : Finset (Finset Term)) : Finset Term :=
  sets.biUnion id

theorem mem_allTerms {sets : Finset (Finset Term)} {t : Term} :
    t ∈ allTerms sets ↔ ∃ s ∈ sets, t ∈ s := by
  simp [allTerms]

theorem allTerms_image (f : Term → Term) (sets : Finset (Finset Term)) :
    allTerms (sets.image (Finset.image f)) = (allTerms sets).image f := by
  rw [allTerms, Finset.image_biUnion, allTerms, Finset.biUnion_image]
  rfl

/-- No operator loses a term, since neither side leaves it without a clause. -/
theorem allTerms_joinSets (op : Operator) {s r : Finset (Finset Term)} (hs : s.Nonempty)
    (hr : r.Nonempty) : allTerms (joinSets op s r) = allTerms s ∪ allTerms r := by
  have hProduct : allTerms (Finset.image₂ (· ∪ ·) s r) = allTerms s ∪ allTerms r := by
    ext t
    simp only [Finset.mem_union, mem_allTerms, Finset.mem_image₂]
    constructor
    · rintro ⟨_, ⟨v, hv, w, hw, rfl⟩, ht⟩
      rcases Finset.mem_union.1 ht with hIn | hIn
      · exact Or.inl ⟨v, hv, hIn⟩
      · exact Or.inr ⟨w, hw, hIn⟩
    · rintro (⟨v, hv, ht⟩ | ⟨w, hw, ht⟩)
      · obtain ⟨w, hw⟩ := hr
        exact ⟨v ∪ w, ⟨v, hv, w, hw, rfl⟩, Finset.mem_union_left w ht⟩
      · obtain ⟨v, hv⟩ := hs
        exact ⟨v ∪ w, ⟨v, hv, w, hw, rfl⟩, Finset.mem_union_right v ht⟩
  cases op with
  | or => exact Finset.union_biUnion
  | and => exact hProduct
  | attach => exact hProduct

/-- For sets of clauses chains need no brackets. -/
theorem joinSets_assoc (op : Operator) (a b c : Finset (Finset Term)) :
    joinSets op (joinSets op a b) c = joinSets op a (joinSets op b c) := by
  cases op with
  | or => exact Finset.union_assoc a b c
  | and => exact Finset.image₂_assoc Finset.union_assoc
  | attach => exact Finset.image₂_assoc Finset.union_assoc

/-- Moving brackets inside chains changes no clause. -/
theorem Rebracketed.clauseSets_eq {e f : Expr} (h : Rebracketed e f) (hLicense : e.IsLicense) :
    f.clauseSets = e.clauseSets := by
  induction h with
  | refl e => rfl
  | rotate chain a b c => simp only [clauseSets_join chain, joinSets_assoc]
  | inside op first second ihFirst ihSecond =>
      by_cases hOp : op = .attach
      · subst hOp
        obtain ⟨x, rfl, hLeft, -⟩ := isLicense_attach_iff.1 hLicense
        rw [second.eq_leaf rfl, clauseSets, ihFirst hLeft, clauseSets]
      · obtain ⟨hLeft, hRight⟩ := (isLicense_join_iff hOp).1 hLicense
        rw [clauseSets_join hOp, ihFirst hLeft, ihSecond hRight, clauseSets_join hOp]
  | trans first second ihFirst ihSecond =>
      rw [ihSecond (first.isLicense hLicense), ihFirst hLicense]

theorem sets_joinClauses (op : Operator) (cs ds : List Clause) :
    Clauses.sets (joinClauses op cs ds) = joinSets op (Clauses.sets cs) (Clauses.sets ds) := by
  cases op with
  | or => exact Clauses.sets_union cs ds
  | and => exact Clauses.sets_product cs ds
  | attach => exact Clauses.sets_product cs ds

theorem drawnFrom_joinClauses (op : Operator) {ls ms : List Leaf} {cs ds : List Clause}
    (hLeft : Clauses.DrawnFrom ls cs) (hRight : Clauses.DrawnFrom ms ds) :
    Clauses.DrawnFrom (ls ++ ms) (joinClauses op cs ds) := by
  cases op with
  | or => exact hLeft.union hRight
  | and => exact hLeft.product hRight
  | attach => exact hLeft.product hRight

theorem clauses_attach_eq_ok_iff {left right : Expr} {cs : List Clause} :
    (join left .attach right).clauses = .ok cs ↔
      ∃ granted, left.clauses = .ok granted ∧ grantClauses right granted = .ok cs := by
  rw [clauses]
  cases left.clauses with
  | error fault => simp [Except.bind]
  | ok granted => simp [Except.bind]

/-- The clauses of `AND` and `OR` are made of those of both sides. -/
theorem clauses_join_eq_ok_iff {op : Operator} (hOp : op ≠ .attach) {left right : Expr}
    {cs : List Clause} :
    (join left op right).clauses = .ok cs ↔
      ∃ ofLeft ofRight, left.clauses = .ok ofLeft ∧ right.clauses = .ok ofRight ∧
        joinClauses op ofLeft ofRight = cs := by
  rw [clauses]
  · cases left.clauses with
    | error fault => simp [Except.bind]
    | ok ofLeft =>
        cases right.clauses with
        | error fault => simp [Except.bind, Except.map]
        | ok ofRight => simp [Except.bind, Except.map]
  · exact hOp

/-- An expression that says something has clauses; they are those of its tree, and their terms have
no leaves but its own. -/
theorem exists_clauses {e : Expr} (h : e.IsLicense) :
    ∃ cs, e.clauses = .ok cs ∧ Clauses.sets cs = e.clauseSets ∧ Clauses.DrawnFrom e.leaves cs := by
  induction e, h using isLicense_induction with
  | single l =>
      refine ⟨[[⟨l, none⟩]], rfl, rfl, ?_⟩
      intro c hc t ht
      obtain rfl := List.mem_singleton.1 hc
      obtain rfl := List.mem_singleton.1 ht
      exact fun _ hl => hl
  | attach left x hLeft hFree ih =>
      obtain ⟨cs, hClauses, hSets, hDrawn⟩ := ih
      refine ⟨Clauses.grant x cs, ?_, ?_, hDrawn.grant x⟩
      · exact clauses_attach_eq_ok_iff.2 ⟨cs, hClauses, rfl⟩
      · rw [Clauses.sets_grant, hSets, clauseSets]
  | join left op right hOp hLeft hRight ihLeft ihRight =>
      obtain ⟨cs, hLeftClauses, hLeftSets, hLeftDrawn⟩ := ihLeft
      obtain ⟨ds, hRightClauses, hRightSets, hRightDrawn⟩ := ihRight
      refine ⟨joinClauses op cs ds, ?_, ?_, drawnFrom_joinClauses op hLeftDrawn hRightDrawn⟩
      · exact (clauses_join_eq_ok_iff hOp).2 ⟨cs, ds, hLeftClauses, hRightClauses, rfl⟩
      · rw [sets_joinClauses, hLeftSets, hRightSets, clauseSets_join hOp]

theorem normalForm_eq_of_clauses {e : Expr} {cs : List Clause} (h : e.clauses = .ok cs) :
    e.normalForm = .ok ⟨cs⟩ := by
  rw [normalForm, walkedClauses_eq, h]
  rfl

/-- A license expression has a normal form. It lists the clauses of the tree, and its terms have no
leaves but those of the tree. -/
theorem exists_normalForm {e : Expr} (h : e.IsLicense) :
    ∃ nf, e.normalForm = .ok nf ∧ nf.sets = e.clauseSets ∧
      Clauses.DrawnFrom e.leaves nf.clauses := by
  obtain ⟨cs, hClauses, hFound⟩ := exists_clauses h
  exact ⟨⟨cs⟩, normalForm_eq_of_clauses hClauses, hFound⟩

/-- The threshold decides about events only. -/
theorem value_normalize (e : Expr) (threshold : Int) :
    (e.normalize threshold).run.value = e.normalForm := by
  unfold normalize
  split
  · rename_i hFault
    rw [hFault]
    rfl
  · rename_i hFound
    rw [hFound]
    rfl

/-- Two expressions are equivalent exactly when they have the same set of clauses. -/
theorem value_isEquivalent {a b : Expr} (hLeft : a.IsLicense) (hRight : b.IsLicense) :
    (a.isEquivalent b).run.value = .ok (decide (a.clauseSets = b.clauseSets)) := by
  obtain ⟨n, hn, hLeftSets, -⟩ := exists_normalForm hLeft
  obtain ⟨m, hm, hRightSets, -⟩ := exists_normalForm hRight
  have hSame : n.same m = decide (a.clauseSets = b.clauseSets) := by
    rw [← hLeftSets, ← hRightSets, Bool.eq_iff_iff, NormalForm.same_iff, decide_eq_true_iff]
  rw [← hSame]
  unfold isEquivalent normalize
  rw [hn, hm]
  rfl

end Expr

end Licensing
