import Licensing.Proofs.Catalog.Findings

/-!
What a refusal reports. Entries that cannot be used are left out before the identifiers are
compared, so three kinds of problems can be missing from the report: a blank identifier of an entry
that is no table, a `+` at the end of a license that is not deprecated, and an identifier in both
parts. The report then has another problem of the same identifier, and data that are corrected where
it says so may be refused once more.
-/

namespace Licensing.Catalog

open Toml (Value Table)

/-! ### What counts and what is hidden -/

/-- The fields that count for an identifier. An entry that cannot be used is left out, so that the
base's entry counts alone or the user's one is laid over nothing. -/
inductive Counts (base user : Table) (part : Part) (id : String) :
    (String → Option Value) → Prop where
  | both {earlier later : Table} (hBase : fields? base part id = some earlier)
      (hFirst : Usable id (given? base part id)) (hUser : fields? user part id = some later)
      (hSecond : Usable id (overlaid? base user part id)) :
      Counts base user part id (overlaid? base user part id)
  | base {earlier : Table} (hBase : fields? base part id = some earlier)
      (hFirst : Usable id (given? base part id))
      (hSecond : ∀ later, fields? user part id = some later →
        ¬ Usable id (overlaid? base user part id)) :
      Counts base user part id (given? base part id)
  | user {later : Table}
      (hFirst : ∀ earlier, fields? base part id = some earlier →
        ¬ Usable id (given? base part id))
      (hUser : fields? user part id = some later) (hSecond : Usable id (given? user part id)) :
      Counts base user part id (given? user part id)

/-- What is not reported, if it is wrong. -/
inductive Hidden (base user : Table) : Problem → Prop where
  | identifier {part : Part} {id : String}
      (h : ∀ document ∈ [base, user], ∀ fields, fields? document part id ≠ some fields) :
      Hidden base user (.blankIdentifier part id)
  | plus {id : String} (h : ∀ field?, Counts base user .licenses id field? →
      field? deprecatedField = some (.boolean true)) : Hidden base user (.plusNotDeprecated id)
  | overlap {id : String} {part : Part} (h : ∀ field?, ¬ Counts base user part id field?) :
      Hidden base user (.listedTwice id)

/-- The problem can keep the other one from being reported: it is one of the same entry, or of one
of the two entries that the other one is about. -/
def Problem.Obscures (shown : Problem) : Problem → Prop
  | blankIdentifier part id => shown.entry? = some (part, id)
  | plusNotDeprecated id => shown.entry? = some (.licenses, id)
  | listedTwice id => ∃ part, shown.entry? = some (part, id)
  | partNotTable .. | entryNotTable .. | nameMissing .. | nameNotText .. | flagNotBoolean .. =>
    False

section

variable {base user : Table} (hBase : base.Distinct) (hUser : user.Distinct)
include hBase hUser

/-- Fields of the user that can be used over the base's are what is drafted. -/
theorem get?_drafted_of_user {part : Part} {id : String} {later : Table}
    (hFields : fields? user part id = some later)
    (h : Usable id (laidOver (usableBase? base part id) later).get?) :
    ((drafted base user).part part).get? id =
      some (laidOver (usableBase? base part id) later) := by
  rw [drafted, Draft.get?_add_kept hUser, get?_add_empty_kept hBase, fields?_eq_some_iff.1 hFields]
  exact kept_of_usable h

theorem get?_drafted_of_base {part : Part} {id : String}
    (h : ∀ later, fields? user part id = some later →
      ¬ Usable id (laidOver (usableBase? base part id) later).get?) :
    ((drafted base user).part part).get? id = usableBase? base part id := by
  rw [drafted, Draft.get?_add_kept hUser, get?_add_empty_kept hBase]
  cases hListed : listed? user part id with
  | none => rfl
  | some v =>
      cases v with
      | table later => exact kept_of_not_usable (h later (fields?_eq_some_iff.2 hListed))
      | _ => rfl

/-- What is drafted for an identifier is what counts for it. -/
theorem counts_iff {part : Part} {id : String} {field? : String → Option Value} :
    Counts base user part id field? ↔
      ∃ fields, ((drafted base user).part part).get? id = some fields ∧
        Listing.get? fields = field? := by
  constructor
  · intro h
    cases h with
    | both hFields hFirst hLater hSecond =>
        have hUsable := usableBase?_eq_some_iff.2 ⟨hFields, hFirst⟩
        have hLaid := get?_laidOver_of_some hUser hUsable hLater
        exact ⟨_, get?_drafted_of_user hBase hUser hLater (hLaid ▸ hSecond), hLaid⟩
    | base hFields hFirst hSecond =>
        have hUsable := usableBase?_eq_some_iff.2 ⟨hFields, hFirst⟩
        refine ⟨_, (get?_drafted_of_base hBase hUser fun later hLater => ?_).trans hUsable,
          (given?_of_listed? (fields?_eq_some_iff.1 hFields)).symm⟩
        rw [get?_laidOver_of_some hUser hUsable hLater]
        exact hSecond later hLater
    | user hFirst hLater hSecond =>
        have hLaid := get?_laidOver_of_none hUser (usableBase?_eq_none_iff.2 hFirst) hLater
        exact ⟨_, get?_drafted_of_user hBase hUser hLater (hLaid ▸ hSecond), hLaid⟩
  · rintro ⟨fields, hFound, rfl⟩
    by_cases hUsed : ∃ later, fields? user part id = some later ∧
        Usable id (laidOver (usableBase? base part id) later).get?
    · obtain ⟨later, hLater, hSecond⟩ := hUsed
      rw [get?_drafted_of_user hBase hUser hLater hSecond] at hFound
      obtain rfl := Option.some.inj hFound
      cases hUsable : usableBase? base part id with
      | some earlier =>
          obtain ⟨hFields, hFirst⟩ := usableBase?_eq_some_iff.1 hUsable
          have hLaid := get?_laidOver_of_some hUser hUsable hLater
          rw [hLaid] at hSecond
          rw [← hUsable, hLaid]
          exact .both hFields hFirst hLater hSecond
      | none =>
          have hLaid := get?_laidOver_of_none hUser hUsable hLater
          rw [hLaid] at hSecond
          rw [← hUsable, hLaid]
          exact .user (usableBase?_eq_none_iff.1 hUsable) hLater hSecond
    · have hLeft (later : Table) (hLater : fields? user part id = some later) :
          ¬ Usable id (laidOver (usableBase? base part id) later).get? := fun hSecond =>
        hUsed ⟨later, hLater, hSecond⟩
      rw [get?_drafted_of_base hBase hUser hLeft] at hFound
      obtain ⟨hFields, hFirst⟩ := usableBase?_eq_some_iff.1 hFound
      rw [← given?_of_listed? (fields?_eq_some_iff.1 hFields)]
      refine .base hFields hFirst fun later hLater => ?_
      rw [← get?_laidOver_of_some hUser hFound hLater]
      exact hLeft later hLater

/-! ### The report -/

/-- A `+` is reported when the fields that count for the license do not mark it deprecated. -/
theorem plusNotDeprecated_mem_allProblems_iff {id : String} :
    .plusNotDeprecated id ∈ (drafted base user).allProblems ↔
      Text.hasSuffix id plusSuffix = true ∧ ∃ field?, Counts base user .licenses id field? ∧
        field? deprecatedField ≠ some (.boolean true) := by
  have hFirst : .plusNotDeprecated id ∉ (drafted base user).problems := fun h => by
    obtain ⟨part, kind, hSame⟩ := eq_partNotTable_of_mem_problems hBase hUser h rfl
    cases hSame
  have hLast : .plusNotDeprecated id ∉ (drafted base user).overlapProblems := by
    simp [Draft.overlapProblems]
  rw [Draft.allProblems, List.mem_append, List.mem_append, or_iff_left hLast, or_iff_right hFirst]
  simp only [Draft.plusProblems, List.mem_map, List.mem_filter, counts_iff hBase hUser]
  constructor
  · rintro ⟨⟨other, fields⟩, ⟨hMem, hPlus⟩, hSame⟩
    obtain rfl := Problem.plusNotDeprecated.inj hSame
    rw [Bool.and_eq_true, Bool.not_eq_true', ← Bool.not_eq_true, isDeprecated_iff] at hPlus
    have hOnce := nodup_drafted base user .licenses
    exact ⟨hPlus.1, _, ⟨fields, Listing.get?_of_mem hOnce hMem, rfl⟩, hPlus.2⟩
  · rintro ⟨hSuffix, _, ⟨fields, hFound, rfl⟩, hFlag⟩
    refine ⟨(id, fields), ⟨Listing.mem_of_get? hFound, ?_⟩, rfl⟩
    rw [Bool.and_eq_true, Bool.not_eq_true', ← Bool.not_eq_true, isDeprecated_iff]
    exact ⟨hSuffix, hFlag⟩

/-- An identifier is reported as one of both parts when fields count for it in each. -/
theorem listedTwice_mem_allProblems_iff {id : String} :
    .listedTwice id ∈ (drafted base user).allProblems ↔
      ∀ part, ∃ field?, Counts base user part id field? := by
  have hFirst : .listedTwice id ∉ (drafted base user).problems := fun h => by
    obtain ⟨part, kind, hSame⟩ := eq_partNotTable_of_mem_problems hBase hUser h rfl
    cases hSame
  have hMiddle : .listedTwice id ∉ (drafted base user).plusProblems := by
    simp [Draft.plusProblems]
  have hCounts (part : Part) : (∃ field?, Counts base user part id field?) ↔
      (((drafted base user).part part).get? id).isSome := by
    simp only [counts_iff hBase hUser, Option.isSome_iff_exists]
    constructor
    · rintro ⟨_, fields, hFound, -⟩
      exact ⟨fields, hFound⟩
    · rintro ⟨fields, hFound⟩
      exact ⟨_, fields, hFound, rfl⟩
  rw [Draft.allProblems, List.mem_append, List.mem_append,
    or_iff_right (not_or_intro hFirst hMiddle)]
  simp only [hCounts, Draft.overlapProblems, List.mem_map, List.mem_filter]
  constructor
  · rintro ⟨⟨other, fields⟩, ⟨hMem, hLicense⟩, hSame⟩ part
    obtain rfl := Problem.listedTwice.inj hSame
    have hOnce := nodup_drafted base user .exceptions
    have hException := Listing.get?_of_mem hOnce hMem
    cases part with
    | licenses => exact hLicense
    | exceptions => exact Option.isSome_iff_exists.2 ⟨fields, hException⟩
  · intro h
    obtain ⟨fields, hFound⟩ := Option.isSome_iff_exists.1 (h .exceptions)
    exact ⟨(id, fields), ⟨Listing.mem_of_get? hFound, h .licenses⟩, rfl⟩

/-- What is reported is not hidden. -/
theorem not_hidden_of_mem_allProblems {problem : Problem}
    (h : problem ∈ (drafted base user).allProblems) : ¬ Hidden base user problem := by
  intro hHidden
  cases hHidden with
  | @identifier part id hNone =>
      have hFound : .blankIdentifier part id ∈ (drafted base user).problems := by
        simpa [Draft.allProblems, Draft.plusProblems, Draft.overlapProblems] using h
      obtain ⟨document, hDocument, fields, hFields⟩ :=
        exists_fields_of_blankIdentifier hBase hUser hFound
      exact hNone document hDocument fields hFields
  | plus hCounts =>
      obtain ⟨-, field?, hField, hFlag⟩ :=
        (plusNotDeprecated_mem_allProblems_iff hBase hUser).1 h
      exact hFlag (hCounts field? hField)
  | @overlap id part hCounts =>
      obtain ⟨field?, hField⟩ := (listedTwice_mem_allProblems_iff hBase hUser).1 h part
      exact hCounts field? hField

/-- What is wrong and not hidden is reported. -/
theorem mem_allProblems_of_not_hidden {problem : Problem} (h : Violation base user problem)
    (hShown : ¬ Hidden base user problem) : problem ∈ (drafted base user).allProblems := by
  cases h with
  | part hDocument hPart hKind =>
      exact problems_subset_allProblems _
        (partNotTable_mem_problems hBase hUser hDocument hPart hKind)
  | entry hDocument hListed hKind =>
      exact problems_subset_allProblems _
        (entryNotTable_mem_problems hBase hUser hDocument hListed hKind)
  | baseFields hFields hAmiss =>
      exact problems_subset_allProblems _ (mem_problems_of_baseFields hBase hUser hFields hAmiss)
  | userFields hFields hAmiss =>
      exact problems_subset_allProblems _ (mem_problems_of_userFields hBase hUser hFields hAmiss)
  | identifier hListed hBlank =>
      by_contra hMissing
      refine hShown (.identifier fun document hDocument fields hFields => hMissing ?_)
      exact problems_subset_allProblems _
        (blankIdentifier_mem_problems hBase hUser hDocument hFields hBlank)
  | plus hListed hFlag =>
      by_contra hMissing
      refine hShown (.plus fun field? hCounts => ?_)
      by_contra hOther
      exact hMissing ((plusNotDeprecated_mem_allProblems_iff hBase hUser).2
        ⟨Text.hasSuffix_iff.2 ⟨_, rfl⟩, field?, hCounts, hOther⟩)
  | overlap hLicense hException =>
      by_contra hMissing
      refine hMissing ((listedTwice_mem_allProblems_iff hBase hUser).2 fun part => ?_)
      by_contra hNone
      exact hShown (.overlap fun field? hCounts => hNone ⟨field?, hCounts⟩)

/-- Where nothing is reported about an entry, whatever a document lists for it fits. -/
theorem fits_of_no_problem {part : Part} {id : String}
    (hNone : ∀ problem ∈ (drafted base user).problems, problem.entry? ≠ some (part, id))
    {document : Table} {earlier : Part → String → Option Table} {v : Value}
    (hLayer : (document, earlier) ∈ layers base user) (hv : listed? document part id = some v) :
    Fits id (earlier part id) v := by
  rw [← valueProblems_eq_nil_iff part, List.eq_nil_iff_forall_not_mem]
  intro problem hFound
  exact hNone problem
    ((mem_problems_iff hBase hUser).2 ⟨_, hLayer, part, .inr ⟨id, v, hv, hFound⟩⟩)
    (entry?_of_mem_valueProblems hFound)

/-- Then all that the documents give to its identifier counts. -/
theorem counts_of_no_problem {part : Part} {id : String}
    (hNone : ∀ problem ∈ (drafted base user).problems, problem.entry? ≠ some (part, id))
    (hListed : Lists base user part id) :
    Counts base user part id (overlaid? base user part id) := by
  have hBaseFits {v : Value} (hv : listed? base part id = some v) : Fits id none v :=
    fits_of_no_problem hBase hUser hNone (base_mem_layers base user) hv
  have hUserFits {v : Value} (hv : listed? user part id = some v) :
      Fits id (usableBase? base part id) v :=
    fits_of_no_problem hBase hUser hNone (user_mem_layers base user) hv
  have hFirst {earlier : Table} (hEarlier : fields? base part id = some earlier) :
      Usable id (given? base part id) := by
    have hv := fields?_eq_some_iff.1 hEarlier
    obtain ⟨_, ⟨⟩, hUsable⟩ := hBaseFits hv
    exact given?_of_listed? hv ▸ hUsable
  have hSecond {later : Table} (hLater : fields? user part id = some later) :
      Usable id (laidOver (usableBase? base part id) later).get? := by
    obtain ⟨_, ⟨⟩, hUsable⟩ := hUserFits (fields?_eq_some_iff.1 hLater)
    exact hUsable
  cases hBaseFields : fields? base part id with
  | none =>
      have hUsable := usableBase?_eq_none_iff.2 fun earlier hEarlier =>
        absurd (hBaseFields.symm.trans hEarlier) nofun
      obtain ⟨later, hLater⟩ : ∃ later, fields? user part id = some later := by
        rcases hListed with hIn | hIn
        · obtain ⟨v, hv⟩ := Option.isSome_iff_exists.1 hIn
          obtain ⟨fields, rfl, -⟩ := hBaseFits hv
          cases hBaseFields.symm.trans (fields?_eq_some_iff.2 hv)
        · obtain ⟨v, hv⟩ := Option.isSome_iff_exists.1 hIn
          obtain ⟨fields, rfl, -⟩ := hUserFits hv
          exact ⟨fields, fields?_eq_some_iff.2 hv⟩
      have hLaid := get?_laidOver_of_none hUser hUsable hLater
      rw [overlaid?_of_user hBaseFields]
      exact .user (usableBase?_eq_none_iff.1 hUsable) hLater (hLaid ▸ hSecond hLater)
  | some earlier =>
      have hUsable := usableBase?_eq_some_iff.2 ⟨hBaseFields, hFirst hBaseFields⟩
      cases hUserFields : fields? user part id with
      | none =>
          rw [overlaid?_of_base hUserFields]
          exact .base hBaseFields (hFirst hBaseFields) fun later hLater =>
            absurd (hUserFields.symm.trans hLater) nofun
      | some later =>
          have hLaid := get?_laidOver_of_some hUser hUsable hUserFields
          exact .both hBaseFields (hFirst hBaseFields) hUserFields (hLaid ▸ hSecond hUserFields)

/-- A problem that is wrong and not reported is obscured by one of the same identifier that is. -/
theorem exists_obscures {problem : Problem} (h : Violation base user problem)
    (hMissing : problem ∉ (drafted base user).allProblems) :
    ∃ shown ∈ (drafted base user).allProblems, shown.Obscures problem := by
  have hShown {part : Part} {id : String} (hListed : Lists base user part id)
      (hNot : ¬ Counts base user part id (overlaid? base user part id)) :
      ∃ shown ∈ (drafted base user).allProblems, shown.entry? = some (part, id) := by
    by_contra hNone
    refine hNot (counts_of_no_problem hBase hUser (fun shown hFound hEntry => ?_) hListed)
    exact hNone ⟨shown, problems_subset_allProblems _ hFound, hEntry⟩
  have hHidden : Hidden base user problem := by
    by_contra hShown
    exact hMissing (mem_allProblems_of_not_hidden hBase hUser h hShown)
  cases hHidden with
  | @identifier part id hNone =>
      obtain ⟨document, hDocument, v, hv⟩ := lists_iff.1 h.lists_of_identifier
      have hKind (fields : Table) : v ≠ .table fields := by
        rintro rfl
        exact hNone document hDocument fields (fields?_eq_some_iff.2 hv)
      exact ⟨.entryNotTable part id v.kindName, problems_subset_allProblems _
        (entryNotTable_mem_problems hBase hUser hDocument hv hKind), rfl⟩
  | plus hCounts =>
      obtain ⟨hListed, hFlag⟩ := h.lists_of_plus
      exact hShown hListed fun hCounted => hFlag (hCounts _ hCounted)
  | @overlap id part hCounts =>
      obtain ⟨shown, hFound, hEntry⟩ := hShown (h.lists_of_overlap part) (hCounts _)
      exact ⟨shown, hFound, part, hEntry⟩

end

/-! ### Loading -/

/-- Loading documents that can be read gives what is drafted from them, or all that is wrong with
the draft. -/
theorem value_load_of_documents {base user : Option Source} {baseDocument userDocument : Table}
    (hBase : base.elim (.ok builtinDocument) Source.document = .ok baseDocument)
    (hUser : user.elim (.ok []) Source.document = .ok userDocument) :
    (load base user).value =
      if (drafted baseDocument userDocument).allProblems.isEmpty then
        .ok (drafted baseDocument userDocument).catalog
      else .error (.invalid (drafted baseDocument userDocument).allProblems) := by
  obtain ⟨layer, rfl, hSources⟩ := exists_ofSources_eq hBase hUser
  rw [value_load, hSources, build, ofDocuments_eq_drafted]
  split <;> rfl

/-- Documents that can be read give a catalog just when nothing is wrong with them, hidden or not.
-/
theorem exists_load_iff {base user : Table} (hBase : base.Distinct) (hUser : user.Distinct)
    {path path' : String} :
    (∃ c, (load (some ⟨path, .document base⟩) (some ⟨path', .document user⟩)).value = .ok c) ↔
      ∀ problem, ¬ Violation base user problem := by
  rw [@value_load_of_documents (some ⟨path, .document base⟩) (some ⟨path', .document user⟩)
    base user rfl rfl]
  constructor
  · rintro ⟨c, hLoad⟩
    split at hLoad
    · rename_i hNone
      exact not_violation_of_valid
        ((allProblems_eq_nil_iff hBase hUser).1 (List.isEmpty_iff.1 hNone))
    · cases hLoad
  · intro hNone
    rw [(allProblems_eq_nil_iff hBase hUser).2 (valid_of_not_violation hNone)]
    exact ⟨_, rfl⟩

/-- The second documents are the first ones, corrected where problems are reported: none of these is
left, and nothing is wrong that was not wrong before. -/
def Corrects (base user : Table) (problems : List Problem) (base' user' : Table) : Prop :=
  ∀ problem, Violation base' user' problem → Violation base user problem ∧ problem ∉ problems

/-- A refusal reports everything that is wrong and not hidden, and of the same identifier as
whatever is hidden it reports something else. So data that are corrected where the report says so
can be loaded, unless something is still wrong with them that was hidden. -/
theorem report_covers {base user : Option Source} {baseDocument userDocument : Table}
    {failure : LoadError}
    (hBase : base.elim (.ok builtinDocument) Source.document = .ok baseDocument)
    (hUser : user.elim (.ok []) Source.document = .ok userDocument)
    (hBaseOnce : baseDocument.Distinct) (hUserOnce : userDocument.Distinct)
    (hFails : (load base user).value = .error failure) :
    ∃ problems, failure = .invalid problems ∧
      (∀ problem, Violation baseDocument userDocument problem →
        (problem ∈ problems ↔ ¬ Hidden baseDocument userDocument problem)) ∧
      (∀ problem, Violation baseDocument userDocument problem → problem ∉ problems →
        ∃ shown ∈ problems, shown.Obscures problem) ∧
      ∀ base' user' : Table, base'.Distinct → user'.Distinct →
        Corrects baseDocument userDocument problems base' user' → ∀ path path',
          ((∃ c, (load (some ⟨path, .document base'⟩) (some ⟨path', .document user'⟩)).value =
              .ok c) ↔
            ∀ problem, Hidden baseDocument userDocument problem →
              ¬ Violation base' user' problem) := by
  rw [value_load_of_documents hBase hUser] at hFails
  split at hFails
  · cases hFails
  · obtain rfl := Except.error.inj hFails
    refine ⟨_, rfl, fun problem h => ⟨not_hidden_of_mem_allProblems hBaseOnce hUserOnce,
      mem_allProblems_of_not_hidden hBaseOnce hUserOnce h⟩,
      fun problem h => exists_obscures hBaseOnce hUserOnce h, ?_⟩
    intro base' user' hBaseOnce' hUserOnce' hCorrects path path'
    rw [exists_load_iff hBaseOnce' hUserOnce']
    constructor
    · intro hNone problem _
      exact hNone problem
    · intro hNone problem hViolation
      obtain ⟨hBefore, hMissing⟩ := hCorrects problem hViolation
      refine hNone problem ?_ hViolation
      by_contra hShown
      exact hMissing (mem_allProblems_of_not_hidden hBaseOnce hUserOnce hBefore hShown)

/-- Alone, the document that retires a license is refused for want of a name, and that is all that
has to be corrected: laid over a document with the name it is loaded. -/
theorem report_covers_retiring :
    ∃ problems, (load (some ⟨"user", .document retiring⟩) none).value =
        .error (.invalid problems) ∧
      .nameMissing .licenses "GPL-2.0" ∈ problems ∧
      ∃ c, (load (some ⟨"base", .document shipped⟩) (some ⟨"user", .document retiring⟩)).value =
        .ok c := by
  have hLoad := @value_load_of_documents (some ⟨"user", .document retiring⟩) none retiring []
    rfl rfl
  have hSome : (drafted retiring []).allProblems.isEmpty = false := by decide
  rw [hSome] at hLoad
  obtain ⟨problems, hFailure, hCovers, -, hNext⟩ := @report_covers
    (some ⟨"user", .document retiring⟩) none retiring [] _ rfl rfl distinct_retiring .nil hLoad
  have hFields : fields? retiring .licenses "GPL-2.0" = some [("deprecated", .boolean true)] := rfl
  have hMissing : Violation retiring [] (.nameMissing .licenses "GPL-2.0") :=
    .baseFields hFields (.nameMissing rfl)
  have hValid : Valid shipped retiring :=
    (allProblems_eq_nil_iff distinct_shipped distinct_retiring).1 (by decide)
  have hNone := not_violation_of_valid hValid
  refine ⟨problems, hFailure ▸ hLoad, (hCovers _ hMissing).2 nofun, ?_⟩
  exact (hNext shipped retiring distinct_shipped distinct_retiring
    (fun problem h => absurd h (hNone problem)) "base" "user").2 fun problem _ => hNone problem

/-- A license without a name, whose identifier ends in a `+`. -/
def unnamed : Table :=
  [("licenses", .table [("Foo+", .table [])])]

def named : Table :=
  [("licenses", .table [("Foo+", .table [("name", .text "Foo")])])]

/-- The license without a name is refused for want of it only. Once it has one it is refused for its
identifier, which was as wrong before. -/
theorem not_reported_unnamed :
    (load (some ⟨"catalog.toml", .document unnamed⟩) none).value =
        .error (.invalid [.nameMissing .licenses "Foo+"]) ∧
      Violation unnamed [] (.plusNotDeprecated "Foo+") ∧
      Corrects unnamed [] [.nameMissing .licenses "Foo+"] named [] ∧
      (load (some ⟨"catalog.toml", .document named⟩) none).value =
        .error (.invalid [.plusNotDeprecated "Foo+"]) := by
  have hUnnamed : (drafted unnamed []).allProblems = [.nameMissing .licenses "Foo+"] := by decide
  have hNamed : (drafted named []).allProblems = [.plusNotDeprecated "Foo+"] := by decide
  have hOnce : named.Distinct :=
    distinct_singleton (distinct_singleton (distinct_singleton (.plain rfl)))
  have hFlag : overlaid? unnamed [] .licenses ("Foo" ++ plusSuffix) deprecatedField = none := rfl
  have hPlus : Violation unnamed [] (.plusNotDeprecated ("Foo" ++ plusSuffix)) :=
    .plus (.inl rfl) (hFlag ▸ nofun)
  refine ⟨?_, hPlus, fun problem hViolation => ?_, ?_⟩
  · rw [@value_load_of_documents (some ⟨"catalog.toml", .document unnamed⟩) none unnamed [] rfl rfl,
      hUnnamed]
    rfl
  · by_cases hFound : problem ∈ (drafted named []).allProblems
    · rw [hNamed, List.mem_singleton] at hFound
      subst hFound
      exact ⟨hPlus, by decide⟩
    · obtain ⟨shown, hShown, hObscures⟩ := exists_obscures hOnce .nil hViolation hFound
      rw [hNamed, List.mem_singleton] at hShown
      subst hShown
      cases problem <;> simp [Problem.Obscures, Problem.entry?] at hObscures
  · rw [@value_load_of_documents (some ⟨"catalog.toml", .document named⟩) none named [] rfl rfl,
      hNamed]
    rfl

end Licensing.Catalog
