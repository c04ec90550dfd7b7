import Licensing.Containers
import Licensing.Proofs.Grammar.Composition
import Licensing.Proofs.NormalForm.Canonical
import Licensing.Proofs.NormalForm.Congruence

/-!
Deprecation flags in normal forms. The flags are no part of equality, and of equal terms the one met
first stays, so it might depend on the order of the operands which flag a term is left with. With a
legible catalog it does not: a term is what its text is parsed to, so terms that are written alike
are equal with their flags, and sorted by text a normal form is the same however it came about. A
term of it is deprecated when its license or its exception is wherever it occurs.
-/

namespace Licensing

namespace Term

variable {k : Lookup} {t u : Term}

theorem mem_leaves_iff {l : Leaf} :
    l ∈ t.toExpr.leaves ↔ l = .license t.license ∨ ∃ x ∈ t.exception, l = .exception x := by
  obtain ⟨license, exception⟩ := t
  cases exception with
  | none => simp [toExpr, Expr.leaves]
  | some x => simp [toExpr, Expr.leaves]

/-- A term is known by its leaves, flags included. -/
theorem eq_of_leaves_eq (h : t.toExpr.leaves = u.toExpr.leaves) : t = u := by
  obtain ⟨l, x⟩ := t
  obtain ⟨m, y⟩ := u
  cases x <;> cases y <;> simp_all [toExpr, Expr.leaves]

/-- Terms of one legible catalog are known by their texts: one parse gives both of them. -/
theorem eq_of_text_eq (hLegible : k.catalog.Legible) (ht : ∀ l ∈ t.toExpr.leaves, k.Names l)
    (hu : ∀ l ∈ u.toExpr.leaves, k.Names l) (h : t.text = u.text) : t = u := by
  have hRead := Expr.readsBack_of_isLicense hLegible t.expands_toExpr.isLicense ht
  have hOther := Expr.readsBack_of_isLicense hLegible u.expands_toExpr.isLicense hu
  have hSame : t.toExpr.render = u.toExpr.render := h
  have hTree : t.toExpr.leftNested = u.toExpr.leftNested := by
    have hParsed := hRead.parsed
    rw [hSame] at hParsed
    exact Except.ok.inj (hParsed.symm.trans hOther.parsed)
  apply eq_of_leaves_eq
  rw [← hRead.leaves, hTree, hOther.leaves]

end Term

namespace Lookup

variable {k : Lookup} {value : String} {x y : LicenseException}

theorem NamesException.unique (hx : k.NamesException value x) (hy : k.NamesException value y) :
    x = y := by
  have hResolved {z : LicenseException} (hz : k.NamesException value z) :
      ∃ event, k.resolveException value false 0 = .ok (z, event) :=
    exists_resolveException_iff.2 ⟨rfl, hz⟩
  obtain ⟨event, hFirst⟩ := hResolved hx
  obtain ⟨other, hSecond⟩ := hResolved hy
  exact congrArg Prod.fst (Except.ok.inj (hFirst.symm.trans hSecond))

/-- A license of a legible catalog is known without its flag, which the catalog settles. -/
theorem license_eq_of_bare_eq (hLegible : k.catalog.Legible) {l m : License}
    (hl : k.Names (.license l)) (hm : k.Names (.license m)) (h : l.bare = m.bare) : l = m := by
  have hText : l.text = m.text := by rw [← License.text_bare, h, License.text_bare]
  have hTerm : (⟨l, none⟩ : Term) = ⟨m, none⟩ := by
    apply Term.eq_of_text_eq hLegible
    · simpa [Term.toExpr, Expr.leaves] using hl
    · simpa [Term.toExpr, Expr.leaves] using hm
    · simpa [Term.text, Term.toExpr, Expr.render_eq_text, Expr.text, Leaf.text] using hText
  exact congrArg Term.license hTerm

theorem exception_eq_of_bare_eq (hKeyed : k.catalog.Keyed) (hx : k.Names (.exception x))
    (hy : k.Names (.exception y)) (h : x.bare = y.bare) : x = y := by
  have hId : x.id = y.id := (LicenseException.mk.inj h).1
  cases hx with
  | exception _ names =>
      cases hy with
      | exception _ otherNames =>
          rw [id_of_namesException hKeyed names, id_of_namesException hKeyed otherNames] at hId
          subst hId
          exact names.unique otherNames

/-- A leaf that an identifier of a legible catalog names is known without its flag. -/
theorem Names.eq_of_bare_eq (hLegible : k.catalog.Legible) {l m : Leaf} (hl : k.Names l)
    (hm : k.Names m) (h : l.bare = m.bare) : l = m := by
  cases l with
  | license l =>
      cases m with
      | license m => rw [license_eq_of_bare_eq hLegible hl hm (Leaf.license.inj h)]
      | exception y => cases h
      | foreign v => cases h
  | exception x =>
      cases m with
      | license m => cases h
      | exception y => rw [exception_eq_of_bare_eq hLegible.keyed hl hm (Leaf.exception.inj h)]
      | foreign v => cases h
  | foreign v => cases hl

/-- What a setting accepts is named also where everything is accepted. -/
theorem names_of_parse {c : Catalog} {strictness : Strictness} {text : String} {e : Expr}
    (h : (parse ⟨c, strictness⟩ text).value = .ok e) :
    ∀ l ∈ e.leaves, Lookup.Names ⟨c, .allowAny⟩ l :=
  fun _ hl => names_of_yields ⟨text, e, parse_lenient h, hl⟩

end Lookup

namespace Term

variable {k : Lookup} {t : Term} {ls : List Leaf}

/-- The leaf is the license of the term or its exception, flags aside. -/
def Occurs (t : Term) (l : Leaf) : Prop :=
  l.bare = .license t.license.bare ∨ ∃ x ∈ t.exception, l.bare = .exception x.bare

theorem occurs_iff {l : Leaf} : t.Occurs l ↔ ∃ m ∈ t.toExpr.leaves, l.bare = m.bare := by
  simp only [mem_leaves_iff, or_and_right, exists_or, exists_eq_left, Occurs]
  refine or_congr Iff.rfl ⟨?_, ?_⟩
  · rintro ⟨x, hx, hBare⟩
    exact ⟨.exception x, ⟨x, hx, rfl⟩, hBare⟩
  · rintro ⟨_, ⟨x, hx, rfl⟩, hBare⟩
    exact ⟨x, hx, hBare⟩

theorem deprecated_iff : t.deprecated = true ↔ ∃ m ∈ t.toExpr.leaves, m.deprecated = true := by
  obtain ⟨license, exception⟩ := t
  cases exception with
  | none => simp [deprecated, toExpr, Expr.leaves, Leaf.deprecated]
  | some x => simp [deprecated, toExpr, Expr.leaves, Leaf.deprecated]

/-- A term is deprecated when its license or its exception is deprecated somewhere. -/
theorem deprecated_iff_occurs (hLegible : k.catalog.Legible) (hNames : ∀ l ∈ ls, k.Names l)
    (ht : ∀ l ∈ t.toExpr.leaves, l ∈ ls) :
    t.deprecated = true ↔ ∃ l ∈ ls, t.Occurs l ∧ l.deprecated = true := by
  rw [deprecated_iff]
  constructor
  · rintro ⟨m, hm, hDeprecated⟩
    exact ⟨m, ht m hm, occurs_iff.2 ⟨m, hm, rfl⟩, hDeprecated⟩
  · rintro ⟨l, hl, hOccurs, hDeprecated⟩
    obtain ⟨m, hm, hBare⟩ := occurs_iff.1 hOccurs
    obtain rfl := (hNames l hl).eq_of_bare_eq hLegible (hNames m (ht m hm)) hBare
    exact ⟨l, hm, hDeprecated⟩

end Term

namespace NormalForm

variable {k : Lookup} {nf other : NormalForm} {ls : List Leaf}

/-- All leaves of a normal form are named, when those of its tree are. -/
theorem names_of_mem_sortedClauses (hNames : ∀ l ∈ ls, k.Names l)
    (hDrawn : Clauses.DrawnFrom ls nf.clauses) {c : List Term} (hc : c ∈ nf.sortedClauses) :
    ∀ t ∈ c, ∀ l ∈ t.toExpr.leaves, k.Names l := by
  obtain ⟨d, hd, rfl⟩ := mem_sortedClauses.1 hc
  intro t ht l hl
  exact hNames l (hDrawn d hd t ((Clause.sorted_perm d).mem_iff.1 ht) l hl)

/-- Sorted by text, normal forms with the same clauses are the same, flags included. -/
theorem sortedClauses_eq_of_same (hLegible : k.catalog.Legible) (hNames : ∀ l ∈ ls, k.Names l)
    (h : nf.Distinct) (hDrawn : Clauses.DrawnFrom ls nf.clauses) (hOther : other.Distinct)
    (hOtherDrawn : Clauses.DrawnFrom ls other.clauses) (hSame : nf.same other = true) :
    nf.sortedClauses = other.sortedClauses := by
  refine eq_of_map_eq_map (fun c hc d hd => ?_) (map_texts_sortedClauses_eq h hOther hSame)
  refine eq_of_map_eq_map fun t ht u hu => ?_
  exact Term.eq_of_text_eq hLegible (names_of_mem_sortedClauses hNames hDrawn hc t ht)
    (names_of_mem_sortedClauses hNames hOtherDrawn hd u hu)

end NormalForm

namespace Expr

variable {k : Lookup} {a b : Expr} {op : Operator}

/-- The operands change places, and neither a term nor a flag changes. -/
theorem exists_sortedClauses_join_comm (hLegible : k.catalog.Legible) (hOp : op ≠ .attach)
    (ha : a.IsLicense) (hb : b.IsLicense) (hNames : ∀ l ∈ a.leaves ++ b.leaves, k.Names l) :
    ∃ nf other, (join a op b).normalForm = .ok nf ∧ (join b op a).normalForm = .ok other ∧
      nf.sortedClauses = other.sortedClauses := by
  obtain ⟨nf, hNormal, hSets, hDrawn⟩ :=
    exists_normalForm ((isLicense_join_iff hOp).2 ⟨ha, hb⟩)
  obtain ⟨other, hOther, hOtherSets, hOtherDrawn⟩ :=
    exists_normalForm ((isLicense_join_iff hOp).2 ⟨hb, ha⟩)
  have hMoved : Clauses.DrawnFrom (a.leaves ++ b.leaves) other.clauses := by
    intro c hc t ht l hl
    exact List.mem_append.2 (List.mem_append.1 (hOtherDrawn c hc t ht l hl)).symm
  have hSame : nf.same other = true := by
    rw [NormalForm.same_iff, hSets, hOtherSets, clauseSets_join hOp, clauseSets_join hOp,
      joinSets_comm]
  exact ⟨nf, other, hNormal, hOther, NormalForm.sortedClauses_eq_of_same hLegible hNames
    (NormalForm.distinct_of_normalForm hNormal) hDrawn
    (NormalForm.distinct_of_normalForm hOther) hMoved hSame⟩

end Expr

/-- With a legible catalog equal leaves have equal flags, also when they come from different texts
under different settings. So the normal forms of two trees joined in either order are the same term
by term, flags included, and a term is deprecated exactly when its license or its exception occurs
as a deprecated leaf. -/
theorem deprecation_coherent {c : Catalog} (hLegible : c.Legible) {first second : Strictness}
    {text other : String} {a b : Expr} (ha : (parse ⟨c, first⟩ text).value = .ok a)
    (hb : (parse ⟨c, second⟩ other).value = .ok b) :
    (∀ l ∈ a.leaves, ∀ m ∈ b.leaves, l.bare = m.bare → l.deprecated = m.deprecated) ∧
    (∀ op : Operator, op ≠ .attach → ∀ threshold, ∃ ab ba nf nf',
      a.join? op b = .ok ab ∧ b.join? op a = .ok ba ∧
      (ab.normalize threshold).run.value = .ok nf ∧
      (ba.normalize threshold).run.value = .ok nf' ∧ nf.sortedClauses = nf'.sortedClauses) ∧
    ∀ threshold, ∃ nf, (a.normalize threshold).run.value = .ok nf ∧
      ∀ clause ∈ nf.clauses, ∀ t ∈ clause,
        (t.deprecated = true ↔ ∃ l ∈ a.leaves, t.Occurs l ∧ l.deprecated = true) := by
  have hFirst := isLicense_of_parse ha
  have hSecond := isLicense_of_parse hb
  have hNames := Lookup.names_of_parse ha
  have hOtherNames := Lookup.names_of_parse hb
  have hAll : ∀ l ∈ a.leaves ++ b.leaves, Lookup.Names ⟨c, .allowAny⟩ l := by
    intro l hl
    exact (List.mem_append.1 hl).elim (hNames l) (hOtherNames l)
  refine ⟨?_, ?_, ?_⟩
  · intro l hl m hm hBare
    rw [(hNames l hl).eq_of_bare_eq hLegible (hOtherNames m hm) hBare]
  · intro op hOp threshold
    obtain ⟨nf, nf', hNormal, hNormal', hSorted⟩ :=
      Expr.exists_sortedClauses_join_comm hLegible hOp hFirst hSecond hAll
    exact ⟨_, _, nf, nf', Expr.join?_of_isLicense hOp hFirst hSecond,
      Expr.join?_of_isLicense hOp hSecond hFirst, by rw [Expr.value_normalize, hNormal],
      by rw [Expr.value_normalize, hNormal'], hSorted⟩
  · intro threshold
    obtain ⟨nf, hNormal, -, hDrawn⟩ := Expr.exists_normalForm hFirst
    refine ⟨nf, by rw [Expr.value_normalize, hNormal], fun clause hClause t ht => ?_⟩
    exact Term.deprecated_iff_occurs hLegible hNames (hDrawn clause hClause t ht)

/-- A deprecated license that occurs with a deprecated exception and without. -/
theorem deprecation_coherent_shared :
    let c := Catalog.ofEntries [⟨"GPL-2.0", "", true, false⟩, ⟨"MIT", "", false, false⟩]
      [⟨"Nokia-Qt-exception-1.1", "", true⟩]
    let gpl : License := .listed "GPL-2.0" false true
    let nokia : LicenseException := ⟨"Nokia-Qt-exception-1.1", true⟩
    let a : Expr := .join (.license gpl) .attach (.exception nokia)
    let b : Expr := .join (.license (.listed "MIT" false false)) .or (.license gpl)
    c.Legible ∧ (parse ⟨c, .allowAny⟩ "GPL-2.0 WITH Nokia-Qt-exception-1.1").value = .ok a ∧
      (parse ⟨c, .allowDeprecated⟩ "(MIT or GPL-2.0)").value = .ok b ∧
      (∀ l ∈ a.leaves, ∀ m ∈ b.leaves, l.bare = m.bare → l.deprecated = m.deprecated) ∧
      (∃ ab ba nf nf', a.join? .and b = .ok ab ∧ b.join? .and a = .ok ba ∧
        (ab.normalize 64).run.value = .ok nf ∧ (ba.normalize 64).run.value = .ok nf' ∧
        nf.sortedClauses = nf'.sortedClauses) ∧
      ∃ nf, (a.normalize 64).run.value = .ok nf ∧ ∀ clause ∈ nf.clauses, ∀ t ∈ clause,
        (t.deprecated = true ↔ ∃ l ∈ a.leaves, t.Occurs l ∧ l.deprecated = true) := by
  intro c gpl nokia a b
  have hLegible : c.Legible := by
    refine ⟨Catalog.keyed_ofEntries _ _, fun {id e} hFound hDeprecated => ?_⟩
    have hMem : (id, e) ∈ [("GPL-2.0", (⟨"GPL-2.0", "", true, false⟩ : LicenseEntry)),
        ("MIT", ⟨"MIT", "", false, false⟩)] := Listing.mem_of_get? hFound
    obtain ⟨-, rfl⟩ | ⟨-, rfl⟩ : (id = "GPL-2.0" ∧ e = ⟨"GPL-2.0", "", true, false⟩) ∨
        (id = "MIT" ∧ e = ⟨"MIT", "", false, false⟩) := by simpa using hMem
    · decide
    · cases hDeprecated
  have hFirst : (parse ⟨c, .allowAny⟩ "GPL-2.0 WITH Nokia-Qt-exception-1.1").value = .ok a := by
    decide +kernel
  have hSecond : (parse ⟨c, .allowDeprecated⟩ "(MIT or GPL-2.0)").value = .ok b := by
    decide +kernel
  obtain ⟨hLeaves, hJoins, hTerms⟩ := deprecation_coherent hLegible hFirst hSecond
  exact ⟨hLegible, hFirst, hSecond, hLeaves, hJoins .and (by decide) 64, hTerms 64⟩

end Licensing
