import Licensing.Proofs.Catalog.Violation

/-!
What is found wrong with two documents while one is laid over the other: whatever is wrong with a
part or with the fields of an entry, wherever else something is wrong. An entry that cannot be used
is left out, so the user's entry may meet nothing where the base has one.
-/

namespace Licensing.Catalog

open Toml (Value Table)

/-! ### What is found wrong with entries -/

def Problem.entry? : Problem → Option (Part × String)
  | entryNotTable part id _ | nameMissing part id | nameNotText part id _
  | flagNotBoolean part id _ _ | blankIdentifier part id => some (part, id)
  | partNotTable .. | plusNotDeprecated _ | listedTwice _ => none

section

variable {part : Part} {id : String} {fields : Table} {problem : Problem}

theorem mem_nameProblems_iff : problem ∈ nameProblems part id fields ↔
    (Listing.get? fields nameField = none ∧ problem = .nameMissing part id) ∨
    ∃ v, Listing.get? fields nameField = some v ∧ (∀ s, v ≠ .text s) ∧
      problem = .nameNotText part id v.kindName := by
  unfold nameProblems
  split
  · rename_i hNone
    simp [hNone]
  · rename_i name hName
    simp [hName]
  · rename_i v hKind hName
    rw [List.mem_singleton, hName]
    constructor
    · intro h
      exact .inr ⟨v, rfl, fun s hs => hKind s hs, h⟩
    · rintro (⟨hNone, -⟩ | ⟨w, hw, -, h⟩)
      · cases hNone
      · rw [h, Option.some.inj hw]

theorem mem_flagProblems_iff {flag : String} : problem ∈ flagProblems part id flag fields ↔
    ∃ v, Listing.get? fields flag = some v ∧ (∀ b, v ≠ .boolean b) ∧
      problem = .flagNotBoolean part id flag v.kindName := by
  unfold flagProblems
  split
  · rename_i hNone
    simp [hNone]
  · rename_i b hFlag
    simp [hFlag]
  · rename_i v hKind hFlag
    rw [List.mem_singleton, hFlag]
    constructor
    · intro h
      exact ⟨v, rfl, fun b hb => hKind b hb, h⟩
    · rintro ⟨w, hw, -, h⟩
      rw [h, Option.some.inj hw]

theorem idProblems_eq_nil_iff_not_blank : idProblems part id = [] ↔ ¬ Blank id := by
  rw [idProblems_eq_nil_iff, not_blank_iff]

theorem mem_idProblems_iff :
    problem ∈ idProblems part id ↔ Blank id ∧ problem = .blankIdentifier part id := by
  by_cases hBlank : Blank id
  · have hFound : idProblems part id ≠ [] := fun hNone =>
      idProblems_eq_nil_iff_not_blank.1 hNone hBlank
    have hOne : idProblems part id = [.blankIdentifier part id] := by
      unfold idProblems at hFound ⊢
      split
      · rfl
      · rename_i hSolid
        exact absurd (if_neg hSolid) hFound
    rw [hOne, List.mem_singleton]
    exact ⟨fun h => ⟨hBlank, h⟩, And.right⟩
  · rw [idProblems_eq_nil_iff_not_blank.2 hBlank]
    exact ⟨fun h => absurd h List.not_mem_nil, fun h => absurd h.1 hBlank⟩

/-- The check of an entry finds every field that is amiss and a blank identifier, and nothing else.
-/
theorem mem_entryProblems_iff : problem ∈ entryProblems part id fields ↔
    Amiss part id (Listing.get? fields) problem ∨
      Blank id ∧ problem = .blankIdentifier part id := by
  simp only [entryProblems, List.mem_append, mem_nameProblems_iff, mem_flagProblems_iff,
    mem_idProblems_iff]
  refine or_congr_left ⟨?_, fun h => ?_⟩
  · rintro (((⟨hName, rfl⟩ | ⟨v, hName, hKind, rfl⟩) | ⟨v, hFlag, hKind, rfl⟩) |
      ⟨v, hFlag, hKind, rfl⟩)
    · exact .nameMissing hName
    · exact .nameNotText hName hKind
    · exact .flagNotBoolean (by simp) hFlag hKind
    · exact .flagNotBoolean (by simp) hFlag hKind
  · cases h with
    | nameMissing h => exact .inl (.inl (.inl ⟨h, rfl⟩))
    | nameNotText h hKind => exact .inl (.inl (.inr ⟨_, h, hKind, rfl⟩))
    | flagNotBoolean hFlag h hKind =>
        rcases List.mem_cons.1 hFlag with rfl | hFlag
        · exact .inl (.inr ⟨_, h, hKind, rfl⟩)
        · obtain rfl := List.mem_singleton.1 hFlag
          exact .inr ⟨_, h, hKind, rfl⟩

/-- A value that is no table hides what could be wrong with its fields. -/
theorem mem_valueProblems_iff {earlier : Option Table} {v : Value} :
    problem ∈ valueProblems part id earlier v ↔
      ((∀ later, v ≠ .table later) ∧ problem = .entryNotTable part id v.kindName) ∨
      ∃ later, v = .table later ∧ problem ∈ entryProblems part id (laidOver earlier later) := by
  cases v with
  | table later => simp [valueProblems]
  | _ => simp [valueProblems]

/-- Whatever a value is refused for names the entry that it is listed for. -/
theorem entry?_of_mem_valueProblems {earlier : Option Table} {v : Value}
    (h : problem ∈ valueProblems part id earlier v) : problem.entry? = some (part, id) := by
  rcases mem_valueProblems_iff.1 h with ⟨-, rfl⟩ | ⟨later, -, hFound⟩
  · rfl
  · rcases mem_entryProblems_iff.1 hFound with hAmiss | ⟨-, rfl⟩
    · cases hAmiss <;> rfl
    · rfl

end

/-! ### What is reported -/

def usableBase? (base : Table) (part : Part) (id : String) : Option Table :=
  (listed? base part id).bind (kept part id none)

/-- The documents, each with the fields that it is laid over. -/
def layers (base user : Table) : List (Table × (Part → String → Option Table)) :=
  [(base, fun _ _ => none), (user, usableBase? base)]

theorem base_mem_layers (base user : Table) : (base, fun _ _ => none) ∈ layers base user :=
  List.mem_cons_self

theorem user_mem_layers (base user : Table) : (user, usableBase? base) ∈ layers base user :=
  List.mem_cons_of_mem _ List.mem_cons_self

theorem problems_subset_allProblems (d : Draft) : d.problems ⊆ d.allProblems := fun _ hFound =>
  List.mem_append_left _ (List.mem_append_left _ hFound)

theorem exists_part_iff {p : Part → Prop} : (∃ part, p part) ↔ p .licenses ∨ p .exceptions := by
  constructor
  · rintro ⟨part, h⟩
    cases part with
    | licenses => exact .inl h
    | exceptions => exact .inr h
  · rintro (h | h)
    · exact ⟨.licenses, h⟩
    · exact ⟨.exceptions, h⟩

section

variable {base user : Table}

theorem mem_documents_iff {document : Table} :
    document ∈ [base, user] ↔ ∃ earlier, (document, earlier) ∈ layers base user := by
  simp [layers, exists_or]

theorem usableBase?_eq_some_iff {part : Part} {id : String} {fields : Table} :
    usableBase? base part id = some fields ↔
      fields? base part id = some fields ∧ Usable id (given? base part id) := by
  unfold usableBase?
  cases hListed : listed? base part id with
  | none => simp [fields?, hListed]
  | some v =>
      cases v with
      | table later =>
          have hGiven := given?_of_listed? hListed
          rw [fields?_eq_some_iff, hListed, Option.bind_some, hGiven]
          by_cases hUsable : Usable id (Listing.get? later)
          · rw [kept_of_usable hUsable]
            simp [hUsable, laidOver]
          · rw [kept_of_not_usable hUsable]
            simp [hUsable]
      | _ => simp [fields?, hListed, kept, Value.table?]

/-- A field of what can be used of the base is the base's, if there is any. -/
theorem usableBase?_field (base : Table) (part : Part) (id field : String) :
    ((usableBase? base part id).bind fun fields => Listing.get? fields field) =
        given? base part id field ∨
      ((usableBase? base part id).bind fun fields => Listing.get? fields field) = none := by
  cases hUsable : usableBase? base part id with
  | none => exact .inr rfl
  | some fields =>
      have hFields := (usableBase?_eq_some_iff.1 hUsable).1
      rw [given?_of_listed? (fields?_eq_some_iff.1 hFields)]
      exact .inl rfl

theorem usableBase?_eq_none_iff {part : Part} {id : String} : usableBase? base part id = none ↔
    ∀ earlier, fields? base part id = some earlier → ¬ Usable id (given? base part id) := by
  simp [Option.eq_none_iff_forall_ne_some, usableBase?_eq_some_iff]

/-- The fields that a user's entry is read with when the base's entry counts only where it can be
used. -/
theorem get?_laidOver_usableBase? (base : Table) {part : Part} {id : String} {later : Table}
    (hUser : user.Distinct) (hFields : fields? user part id = some later) :
    (laidOver (usableBase? base part id) later).get? = fun field =>
      (given? user part id field).or
        ((usableBase? base part id).bind fun fields => Listing.get? fields field) := by
  have hListed := fields?_eq_some_iff.1 hFields
  have hLater : Table.Distinct later := distinct_of_listed? hUser hListed
  funext field
  rw [get?_laidOver hLater.names, given?_of_listed? hListed]

theorem get?_laidOver_of_some {part : Part} {id : String} {earlier later : Table}
    (hUser : user.Distinct) (hUsable : usableBase? base part id = some earlier)
    (hFields : fields? user part id = some later) :
    (laidOver (usableBase? base part id) later).get? = overlaid? base user part id := by
  have hGiven := given?_of_listed? (fields?_eq_some_iff.1 (usableBase?_eq_some_iff.1 hUsable).1)
  rw [get?_laidOver_usableBase? base hUser hFields, hUsable]
  funext field
  rw [overlaid?, hGiven]
  rfl

/-- Over an entry that cannot be used the user's fields stand alone. -/
theorem get?_laidOver_of_none {part : Part} {id : String} {later : Table}
    (hUser : user.Distinct) (hUsable : usableBase? base part id = none)
    (hFields : fields? user part id = some later) :
    (laidOver (usableBase? base part id) later).get? = given? user part id := by
  rw [get?_laidOver_usableBase? base hUser hFields, hUsable]
  simp

theorem overlaid?_of_user {part : Part} {id : String} (h : fields? base part id = none) :
    overlaid? base user part id = given? user part id := by
  funext field
  simp [overlaid?, given?, h]

theorem overlaid?_of_base {part : Part} {id : String} (h : fields? user part id = none) :
    overlaid? base user part id = given? base part id := by
  funext field
  simp [overlaid?, given?, h]

/-- What is wrong with fields laid over others is wrong with those that are laid over a part of them
or with the others. -/
theorem Amiss.of_or {part : Part} {id : String} {problem : Problem}
    {later earlier used : String → Option Value}
    (hUsed : ∀ field, used field = earlier field ∨ used field = none)
    (h : Amiss part id (fun field => (later field).or (earlier field)) problem) :
    Amiss part id (fun field => (later field).or (used field)) problem ∨
      (∃ field v, earlier field = some v) ∧ Amiss part id earlier problem := by
  cases h with
  | nameMissing h =>
      obtain ⟨hLater, hEarlier⟩ := Option.or_eq_none_iff.1 h
      have hNone : used nameField = none := by
        rcases hUsed nameField with hSame | hNone
        · exact hSame.trans hEarlier
        · exact hNone
      exact .inl (.nameMissing (by simp [hLater, hNone]))
  | nameNotText h hKind =>
      rcases Option.or_eq_some_iff.1 h with hLater | ⟨-, hEarlier⟩
      · exact .inl (.nameNotText (by simp [hLater]) hKind)
      · exact .inr ⟨⟨_, _, hEarlier⟩, .nameNotText hEarlier hKind⟩
  | flagNotBoolean hFlag h hKind =>
      rcases Option.or_eq_some_iff.1 h with hLater | ⟨-, hEarlier⟩
      · exact .inl (.flagNotBoolean hFlag (by simp [hLater]) hKind)
      · exact .inr ⟨⟨_, _, hEarlier⟩, .flagNotBoolean hFlag hEarlier hKind⟩

variable (hBase : base.Distinct) (hUser : user.Distinct)
include hBase

/-- Of the base document just the entries that can be used are drafted, whatever is wrong with the
others. -/
theorem get?_add_empty_kept (part : Part) :
    ((Draft.empty.add base).part part).get? = usableBase? base part := by
  funext id
  rw [Draft.get?_add_kept hBase, get?_empty, usableBase?]
  cases listed? base part id <;> rfl

include hUser

/-- The problems that are found while documents are laid over one another are those of their parts
and of their entries, each laid over what can be used of the one before. -/
theorem mem_problems_iff {problem : Problem} : problem ∈ (drafted base user).problems ↔
    ∃ layer ∈ layers base user, ∃ part,
      (∃ v, Listing.get? layer.1 (Part.name part) = some v ∧ (∀ entries, v ≠ .table entries) ∧
        problem = .partNotTable part v.kindName) ∨
      ∃ id v, listed? layer.1 part id = some v ∧
        problem ∈ valueProblems part id (layer.2 part id) v := by
  have hParts : problem ∈ (drafted base user).problems ↔
      ∃ layer ∈ layers base user, ∃ part, problem ∈ partProblems part (layer.2 part) layer.1 := by
    rw [drafted, Draft.problems_add _ hUser, Draft.problems_add _ hBase,
      get?_add_empty_kept hBase, get?_add_empty_kept hBase, get?_empty, get?_empty]
    simp [Draft.empty, layers, exists_part_iff, or_assoc]
  have hOnce : ∀ layer ∈ layers base user, Table.Distinct layer.1 := by
    simp [layers, hBase, hUser]
  rw [hParts]
  refine exists_congr fun layer => and_congr_right fun hLayer => exists_congr fun part => ?_
  exact mem_partProblems_iff (hOnce layer hLayer)

/-- A problem that is found meanwhile and is of no single entry is one of a part. -/
theorem eq_partNotTable_of_mem_problems {problem : Problem}
    (h : problem ∈ (drafted base user).problems) (hEntry : problem.entry? = none) :
    ∃ part kind, problem = .partNotTable part kind := by
  obtain ⟨layer, -, part, ⟨v, -, -, rfl⟩ | ⟨id, v, -, hFound⟩⟩ := (mem_problems_iff hBase hUser).1 h
  · exact ⟨part, v.kindName, rfl⟩
  · cases (entry?_of_mem_valueProblems hFound).symm.trans hEntry

/-- Whatever is wrong with a part is reported. -/
theorem partNotTable_mem_problems {document : Table} (hDocument : document ∈ [base, user])
    {part : Part} {v : Value} (h : Listing.get? document part.name = some v)
    (hKind : ∀ entries, v ≠ .table entries) :
    .partNotTable part v.kindName ∈ (drafted base user).problems := by
  obtain ⟨earlier, hLayer⟩ := mem_documents_iff.1 hDocument
  exact (mem_problems_iff hBase hUser).2 ⟨_, hLayer, part, .inl ⟨v, h, hKind, rfl⟩⟩

/-- An entry that is no table is always reported, whichever document has it. -/
theorem entryNotTable_mem_problems {document : Table} (hDocument : document ∈ [base, user])
    {part : Part} {id : String} {v : Value} (h : listed? document part id = some v)
    (hKind : ∀ fields, v ≠ .table fields) :
    .entryNotTable part id v.kindName ∈ (drafted base user).problems := by
  obtain ⟨earlier, hLayer⟩ := mem_documents_iff.1 hDocument
  exact (mem_problems_iff hBase hUser).2 ⟨_, hLayer, part,
    .inr ⟨id, v, h, mem_valueProblems_iff.2 (.inl ⟨hKind, rfl⟩)⟩⟩

/-- A blank identifier is reported when a document has fields for it. -/
theorem blankIdentifier_mem_problems {document fields : Table} (hDocument : document ∈ [base, user])
    {part : Part} {id : String} (hFields : fields? document part id = some fields)
    (hBlank : Blank id) : .blankIdentifier part id ∈ (drafted base user).problems := by
  obtain ⟨earlier, hLayer⟩ := mem_documents_iff.1 hDocument
  have hFound : .blankIdentifier part id ∈
      valueProblems part id (earlier part id) (.table fields) := by
    rw [valueProblems, mem_entryProblems_iff]
    exact .inr ⟨hBlank, rfl⟩
  exact (mem_problems_iff hBase hUser).2
    ⟨_, hLayer, part, .inr ⟨id, _, fields?_eq_some_iff.1 hFields, hFound⟩⟩

theorem exists_fields_of_blankIdentifier {part : Part} {id : String}
    (h : .blankIdentifier part id ∈ (drafted base user).problems) :
    ∃ document ∈ [base, user], ∃ fields, fields? document part id = some fields := by
  obtain ⟨⟨document, earlier⟩, hLayer, other, ⟨v, -, -, hSame⟩ | ⟨name, v, hListed, hFound⟩⟩ :=
    (mem_problems_iff hBase hUser).1 h
  · cases hSame
  · obtain ⟨rfl, rfl⟩ := Prod.mk.inj (Option.some.inj (entry?_of_mem_valueProblems hFound))
    rcases mem_valueProblems_iff.1 hFound with ⟨-, hSame⟩ | ⟨fields, rfl, -⟩
    · cases hSame
    · exact ⟨document, mem_documents_iff.2 ⟨earlier, hLayer⟩, fields,
        fields?_eq_some_iff.2 hListed⟩

/-- Whatever is wrong with the fields of an entry of the base is reported. -/
theorem mem_problems_of_baseFields {part : Part} {id : String} {problem : Problem}
    {fields : Table} (hFields : fields? base part id = some fields)
    (h : Amiss part id (given? base part id) problem) :
    problem ∈ (drafted base user).problems := by
  have hListed := fields?_eq_some_iff.1 hFields
  rw [given?_of_listed? hListed] at h
  refine (mem_problems_iff hBase hUser).2 ⟨_, base_mem_layers base user, part,
    .inr ⟨id, _, hListed, ?_⟩⟩
  rw [valueProblems, mem_entryProblems_iff]
  exact .inl h

/-- So is whatever is wrong with the fields of an entry of the user, also where it is laid over
fields of the base that cannot be used: what is wrong with those is reported for the base. -/
theorem mem_problems_of_userFields {part : Part} {id : String} {problem : Problem}
    {fields : Table} (hFields : fields? user part id = some fields)
    (h : Amiss part id (overlaid? base user part id) problem) :
    problem ∈ (drafted base user).problems := by
  have hListed := fields?_eq_some_iff.1 hFields
  rcases Amiss.of_or (usableBase?_field base part id) h with
    hFound | ⟨⟨field, v, hField⟩, hFound⟩
  · have hLaid := get?_laidOver_usableBase? base hUser hFields
    refine (mem_problems_iff hBase hUser).2 ⟨_, user_mem_layers base user, part,
      .inr ⟨id, _, hListed, ?_⟩⟩
    rw [valueProblems, mem_entryProblems_iff, hLaid]
    exact .inl hFound
  · obtain ⟨earlier, hEarlier, -⟩ := Option.bind_eq_some_iff.1 hField
    exact mem_problems_of_baseFields hBase hUser hEarlier hFound

end

end Licensing.Catalog
