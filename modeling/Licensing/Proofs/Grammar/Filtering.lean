import Licensing.Proofs.Grammar.Acceptance

/-!
Strictness is a filter. It is asked of one identifier at a time, and whether the identifier passes
can be seen from the leaf that it becomes; so a setting accepts the texts that are accepted when
everything is, as long as all leaves of the tree pass (`parse_iff_lenient`), and a stricter one
never gives another tree.
-/

namespace Licensing

open Grammar (Derives Level)

def Custom (id : String) : Prop :=
  ∃ rest, id = "LicenseRef-" ++ rest ∨ id = "AdditionRef-" ++ rest ∨ id = "DocumentRef-" ++ rest

/-- The leaf stands for something that the catalog lists, or it is marked as a custom one. -/
def Catalog.Covers (c : Catalog) : Leaf → Prop
  | .license (.listed ..) => True
  | .license (.reference raw) => Custom raw
  | .exception x => c.exception? x.id = none → Custom x.id
  | .foreign _ => True

theorem LicenseEntry.exists_leaf_eq (e : LicenseEntry) :
    ∃ id orLater, e.leaf = .listed id orLater e.deprecated := by
  unfold leaf
  cases hDeprecated : e.deprecated with
  | false => exact ⟨_, _, rfl⟩
  | true =>
      cases Text.dropSuffix? e.id plusSuffix with
      | none => exact ⟨_, _, rfl⟩
      | some id => exact ⟨_, _, rfl⟩

namespace Lookup

theorem isCustom_iff {id : String} : isCustom id = true ↔ Custom id := by
  simp only [isCustom, customPrefixes, List.any_cons, List.any_nil, Bool.or_false, Bool.or_eq_true,
    Text.hasPrefix_iff, Custom, exists_or]

/-- An unknown identifier is accepted by its mark, or by a strictness that accepts any. -/
theorem acceptsUnknown_iff {k : Lookup} {id : String} :
    k.acceptsUnknown id = true ↔ (k.strictness ≠ .allowAny → Custom id) := by
  rw [acceptsUnknown, Bool.or_eq_true, beq_iff_eq, isCustom_iff, or_iff_not_imp_left]

structure Admits (k : Lookup) (l : Leaf) : Prop where
  covered : k.strictness ≠ .allowAny → k.catalog.Covers l
  current : k.strictness = .allowCurrent → l.deprecated = false

def lenient (k : Lookup) : Lookup :=
  { k with strictness := .allowAny }

variable {k : Lookup}

theorem acceptsUnknown_lenient (value : String) : k.lenient.acceptsUnknown value = true := rfl

theorem strictness_lenient : k.lenient.strictness ≠ .allowCurrent := by
  simp [lenient]

theorem admits_leaf (e : LicenseEntry) :
    k.Admits (.license e.leaf) ↔ (e.deprecated = true → k.strictness ≠ .allowCurrent) := by
  obtain ⟨id, orLater, hLeaf⟩ := e.exists_leaf_eq
  rw [hLeaf]
  constructor
  · intro h hDeprecated hCurrent
    exact absurd (hDeprecated.symm.trans (h.current hCurrent)) (by decide)
  · intro h
    refine ⟨fun _ => trivial, fun hCurrent => ?_⟩
    rw [← Bool.not_eq_true]
    exact fun hDeprecated => h hDeprecated hCurrent

/-- A license is named under a strictness when it is named at all and passes. -/
theorem namesLicense_iff_lenient {value : String} {orLater : Bool} {l : License} :
    k.NamesLicense value orLater l ↔
      k.lenient.NamesLicense value orLater l ∧ k.Admits (.license l) := by
  constructor
  · intro h
    cases h with
    | @listed entry free found accepted =>
        exact ⟨.listed free found fun _ => strictness_lenient, (admits_leaf entry).2 accepted⟩
    | unlisted free missing accepted =>
        exact ⟨.unlisted free missing (acceptsUnknown_lenient value),
          ⟨acceptsUnknown_iff.1 accepted, fun _ => rfl⟩⟩
    | @marked entry found deprecated accepted =>
        exact ⟨.marked found deprecated strictness_lenient,
          (admits_leaf entry).2 fun _ => accepted⟩
    | plain unmarked found deprecated accepted =>
        exact ⟨.plain unmarked found deprecated strictness_lenient,
          ⟨fun _ => trivial, fun hCurrent => absurd hCurrent accepted⟩⟩
  · rintro ⟨h, hAdmits⟩
    cases h with
    | @listed entry free found accepted => exact .listed free found ((admits_leaf entry).1 hAdmits)
    | unlisted free missing accepted =>
        exact .unlisted free missing (acceptsUnknown_iff.2 hAdmits.covered)
    | @marked entry found deprecated accepted =>
        exact .marked found deprecated ((admits_leaf entry).1 hAdmits deprecated)
    | plain unmarked found deprecated accepted =>
        refine .plain unmarked found deprecated fun hCurrent => ?_
        exact Bool.noConfusion (hAdmits.current hCurrent)

theorem NamesException.lenient {value : String} {x : LicenseException}
    (h : k.NamesException value x) : k.lenient.NamesException value x := by
  cases h with
  | listed free found accepted => exact .listed free found fun _ => strictness_lenient
  | unlisted free missing accepted => exact .unlisted free missing (acceptsUnknown_lenient value)

/-- An exception is named under a strictness when it is named at all and passes. -/
theorem namesException_iff_lenient (hKeyed : k.catalog.Keyed) {value : String}
    {x : LicenseException} :
    k.NamesException value x ↔ k.lenient.NamesException value x ∧ k.Admits (.exception x) := by
  constructor
  · intro h
    refine ⟨h.lenient, ?_⟩
    cases h with
    | @listed entry free found accepted =>
        have hId : entry.leaf.id = value := hKeyed.exception found
        refine ⟨fun _ hMissing => ?_, fun hCurrent => ?_⟩
        · rw [hId, found] at hMissing
          cases hMissing
        · rw [← Bool.not_eq_true]
          exact fun hDeprecated => accepted hDeprecated hCurrent
    | unlisted free missing accepted =>
        exact ⟨fun hStrict _ => acceptsUnknown_iff.1 accepted hStrict, fun _ => rfl⟩
  · rintro ⟨h, hAdmits⟩
    cases h with
    | listed free found accepted =>
        refine .listed free found fun hDeprecated hCurrent => ?_
        exact absurd (hDeprecated.symm.trans (hAdmits.current hCurrent)) (by decide)
    | unlisted free missing accepted =>
        exact .unlisted free missing
          (acceptsUnknown_iff.2 fun hStrict => hAdmits.covered hStrict missing)

end Lookup

namespace Grammar

variable {k : Lookup} {level : Level} {tokens : List Token} {e : Expr}

theorem Derives.lenient (h : Derives k level tokens e) : Derives k.lenient level tokens e := by
  induction h with
  | license names => exact .license (Lookup.namesLicense_iff_lenient.1 names).1
  | group inner ih => exact .group ih
  | primary inner ih => exact .primary ih
  | attach left free names ih => exact .attach ih free names.lenient
  | granted inner ih => exact .granted ih
  | and left right ihLeft ihRight => exact .and ihLeft ihRight
  | conjunction inner ih => exact .conjunction ih
  | or left right ihLeft ihRight => exact .or ihLeft ihRight

theorem Derives.admits (hKeyed : k.catalog.Keyed) (h : Derives k level tokens e) :
    ∀ l ∈ e.leaves, k.Admits l := by
  have hBoth {left right : Expr} {op : Operator} (hLeft : ∀ l ∈ left.leaves, k.Admits l)
      (hRight : ∀ l ∈ right.leaves, k.Admits l) : ∀ l ∈ (left.join op right).leaves, k.Admits l :=
    fun l hl => (List.mem_append.1 hl).elim (hLeft l) (hRight l)
  induction h with
  | license names =>
      intro l hl
      obtain rfl := List.mem_singleton.1 hl
      exact (Lookup.namesLicense_iff_lenient.1 names).2
  | group inner ih => exact ih
  | primary inner ih => exact ih
  | attach left free names ih =>
      refine hBoth ih fun l hl => ?_
      obtain rfl := List.mem_singleton.1 hl
      exact ((Lookup.namesException_iff_lenient hKeyed).1 names).2
  | granted inner ih => exact ih
  | and left right ihLeft ihRight => exact hBoth ihLeft ihRight
  | conjunction inner ih => exact ih
  | or left right ihLeft ihRight => exact hBoth ihLeft ihRight

/-- What is derived when everything is accepted is derived under a strictness that lets all of its
leaves pass. -/
theorem Derives.of_lenient (hKeyed : k.catalog.Keyed) (h : Derives k.lenient level tokens e)
    (hAdmits : ∀ l ∈ e.leaves, k.Admits l) : Derives k level tokens e := by
  induction h with
  | license names =>
      exact .license (Lookup.namesLicense_iff_lenient.2 ⟨names, hAdmits _ (by simp [Expr.leaves])⟩)
  | group inner ih => exact .group (ih hAdmits)
  | primary inner ih => exact .primary (ih hAdmits)
  | attach left free names ih =>
      refine .attach (ih fun l hl => hAdmits l (List.mem_append_left _ hl)) free ?_
      exact (Lookup.namesException_iff_lenient hKeyed).2
        ⟨names, hAdmits _ (by simp [Expr.leaves])⟩
  | granted inner ih => exact .granted (ih hAdmits)
  | and left right ihLeft ihRight =>
      exact .and (ihLeft fun l hl => hAdmits l (List.mem_append_left _ hl))
        (ihRight fun l hl => hAdmits l (List.mem_append_right _ hl))
  | conjunction inner ih => exact .conjunction (ih hAdmits)
  | or left right ihLeft ihRight =>
      exact .or (ihLeft fun l hl => hAdmits l (List.mem_append_left _ hl))
        (ihRight fun l hl => hAdmits l (List.mem_append_right _ hl))

end Grammar

/-- A text that is parsed under some strictness is parsed to the same tree when more is accepted. -/
theorem parse_lenient {k : Lookup} {text : String} {e : Expr} (h : (parse k text).value = .ok e) :
    (parse k.lenient text).value = .ok e := by
  obtain ⟨tokens, hSplits, hDerives⟩ := parse_eq_ok_iff.1 h
  exact parse_eq_ok_iff.2 ⟨tokens, hSplits, hDerives.lenient⟩

/-- A strictness accepts what is accepted without one, if it lets the leaves pass. -/
theorem parse_iff_lenient {k : Lookup} (hKeyed : k.catalog.Keyed) {text : String} {e : Expr} :
    (parse k text).value = .ok e ↔
      (parse k.lenient text).value = .ok e ∧ ∀ l ∈ e.leaves, k.Admits l := by
  constructor
  · intro h
    obtain ⟨tokens, -, hDerives⟩ := parse_eq_ok_iff.1 h
    exact ⟨parse_lenient h, hDerives.admits hKeyed⟩
  · rintro ⟨h, hAdmits⟩
    obtain ⟨tokens, hSplits, hDerives⟩ := parse_eq_ok_iff.1 h
    exact parse_eq_ok_iff.2 ⟨tokens, hSplits, hDerives.of_lenient hKeyed hAdmits⟩

/-! ### From one setting to the next -/

def Strictness.rank : Strictness → Nat
  | allowAny => 0
  | allowDeprecated => 1
  | allowCurrent => 2

namespace Lookup

variable {c : Catalog} {l : Leaf}

/-- Without the unknown identifiers a leaf passes when the catalog covers it. -/
theorem admits_allowDeprecated_iff : Admits ⟨c, .allowDeprecated⟩ l ↔ c.Covers l := by
  constructor
  · intro h
    exact h.covered nofun
  · intro h
    exact ⟨fun _ => h, nofun⟩

/-- Without the deprecated ones it must not be deprecated either. -/
theorem admits_allowCurrent_iff :
    Admits ⟨c, .allowCurrent⟩ l ↔ Admits ⟨c, .allowDeprecated⟩ l ∧ l.deprecated = false := by
  rw [admits_allowDeprecated_iff]
  constructor
  · intro h
    exact ⟨h.covered nofun, h.current rfl⟩
  · rintro ⟨hCovered, hCurrent⟩
    exact ⟨fun _ => hCovered, fun _ => hCurrent⟩

/-- What passes under a setting passes under one that refuses less. -/
theorem Admits.of_rank_le {lax strict : Strictness} (hRank : lax.rank ≤ strict.rank)
    (h : Admits ⟨c, strict⟩ l) : Admits ⟨c, lax⟩ l := by
  refine ⟨fun hLax => h.covered ?_, fun hLax => h.current ?_⟩
  · rintro (rfl : strict = .allowAny)
    cases lax with
    | allowAny => exact hLax rfl
    | allowDeprecated => exact absurd hRank (by decide)
    | allowCurrent => exact absurd hRank (by decide)
  · obtain rfl : lax = .allowCurrent := hLax
    cases strict with
    | allowAny => exact absurd hRank (by decide)
    | allowDeprecated => exact absurd hRank (by decide)
    | allowCurrent => rfl

end Lookup

/-- Without the unknown identifiers a text is accepted when none of its leaves is one, custom ones
apart; without the deprecated ones too when no leaf is deprecated, either. The tree is the same
under each setting that accepts the text, and a setting that refuses less accepts it as well. -/
theorem strictness_filters {c : Catalog} (hKeyed : c.Keyed) (text : String) :
    (∀ e, (parse ⟨c, .allowDeprecated⟩ text).value = .ok e ↔
      (parse ⟨c, .allowAny⟩ text).value = .ok e ∧ ∀ l ∈ e.leaves, c.Covers l) ∧
    (∀ e, (parse ⟨c, .allowCurrent⟩ text).value = .ok e ↔
      (parse ⟨c, .allowDeprecated⟩ text).value = .ok e ∧ ∀ l ∈ e.leaves, l.deprecated = false) ∧
    ∀ lax strict : Strictness, lax.rank ≤ strict.rank → ∀ e,
      (parse ⟨c, strict⟩ text).value = .ok e → (parse ⟨c, lax⟩ text).value = .ok e := by
  have hParse (strictness : Strictness) (e : Expr) :
      (parse ⟨c, strictness⟩ text).value = .ok e ↔ (parse ⟨c, .allowAny⟩ text).value = .ok e ∧
        ∀ l ∈ e.leaves, Lookup.Admits ⟨c, strictness⟩ l :=
    parse_iff_lenient (k := ⟨c, strictness⟩) hKeyed
  refine ⟨fun e => ?_, fun e => ?_, fun lax strict hRank e h => ?_⟩
  · simp only [hParse .allowDeprecated, Lookup.admits_allowDeprecated_iff]
  · rw [hParse .allowCurrent, hParse .allowDeprecated, and_assoc, ← forall₂_and]
    simp only [Lookup.admits_allowCurrent_iff]
  · obtain ⟨hAny, hAdmits⟩ := (hParse strict e).1 h
    exact (hParse lax e).2 ⟨hAny, fun l hl => (hAdmits l hl).of_rank_le hRank⟩

/-- A deprecated license with a custom exception passes the first filter and not the second. -/
theorem strictness_filters_deprecated :
    let c := Catalog.ofEntries [⟨"GPL-2.0", "GNU General Public License v2.0", true, false⟩] []
    let e : Expr := .join (.license (.listed "GPL-2.0" true true)) .attach
      (.exception ⟨"AdditionRef-x", false⟩)
    c.Keyed ∧ (parse ⟨c, .allowDeprecated⟩ "GPL-2.0+ with AdditionRef-x").value = .ok e ∧
      ∀ f, (parse ⟨c, .allowCurrent⟩ "GPL-2.0+ with AdditionRef-x").value ≠ .ok f := by
  intro c e
  have hKeyed : c.Keyed := Catalog.keyed_ofEntries _ _
  have hAny : (parse ⟨c, .allowAny⟩ "GPL-2.0+ with AdditionRef-x").value = .ok e := by
    decide +kernel
  obtain ⟨hDeprecated, hCurrent, -⟩ := strictness_filters hKeyed "GPL-2.0+ with AdditionRef-x"
  have hCovers : ∀ l ∈ e.leaves, c.Covers l := by
    intro l hl
    rcases List.mem_cons.1 hl with rfl | hRight
    · trivial
    · obtain rfl := List.mem_singleton.1 hRight
      exact fun _ => ⟨"x", .inr (.inl rfl)⟩
  have hAccepted := (hDeprecated e).2 ⟨hAny, hCovers⟩
  refine ⟨hKeyed, hAccepted, fun f hRefused => ?_⟩
  obtain ⟨hSame, hFlags⟩ := (hCurrent f).1 hRefused
  obtain rfl := Except.ok.inj (hAccepted.symm.trans hSame)
  exact absurd (hFlags (.license (.listed "GPL-2.0" true true)) List.mem_cons_self) (by decide)

end Licensing
