import Licensing.Catalog.Load
import Licensing.Proofs.Catalog.Merging

/-!
What loading gives. The data of a base document and of a user's document are valid or not, which is
said here without laying one over the other; loading succeeds just when they are, and then every
identifier has the user's fields where there are some and the base's elsewhere.
-/

namespace Licensing.Catalog

open Toml (Value Table)

def given? (document : Table) (part : Part) (id field : String) : Option Value :=
  (fields? document part id).bind fun fields => Listing.get? fields field

/-- A field as the user's document gives it, or else the base document. -/
def overlaid? (base user : Table) (part : Part) (id field : String) : Option Value :=
  (given? user part id field).or (given? base part id field)

/-- One of the documents has an entry for the identifier, of whatever kind. -/
def Lists (base user : Table) (part : Part) (id : String) : Prop :=
  (listed? base part id).isSome ∨ (listed? user part id).isSome

/-- The documents are valid, the user's one where it lies over the base. -/
structure Valid (base user : Table) : Prop where
  parts : ∀ document ∈ [base, user], ∀ part v, Listing.get? document (Part.name part) = some v →
    ∃ entries, v = .table entries
  baseEntries : ∀ part id v, listed? base part id = some v →
    (∃ fields, v = .table fields) ∧ Usable id (given? base part id)
  userEntries : ∀ part id v, listed? user part id = some v →
    (∃ fields, v = .table fields) ∧ Usable id (overlaid? base user part id)
  plus : ∀ stem, Lists base user .licenses (stem ++ plusSuffix) →
    overlaid? base user .licenses (stem ++ plusSuffix) deprecatedField = some (.boolean true)
  apart : ∀ id, Lists base user .licenses id → ¬ Lists base user .exceptions id

/-- An identifier without the one ending that tells which versions it covers, if it has one. -/
inductive Stem : String → String → Prop where
  | plus (stem : String) : Stem (stem ++ plusSuffix) stem
  | orLater (stem : String) : Stem (stem ++ orLaterSuffix) stem
  | only (stem : String) : Stem (stem ++ onlySuffix) stem
  | bare {id : String} (unmarked : ∀ stem, id ≠ stem ++ plusSuffix ∧ id ≠ stem ++ orLaterSuffix ∧
      id ≠ stem ++ onlySuffix) : Stem id id

/-- The catalog is the one of the user's document laid over the base, field by field. -/
structure Overlays (base user : Table) (c : Catalog) : Prop where
  licenses : ∀ id, (c.license? id).isSome ↔ Lists base user .licenses id
  exceptions : ∀ id, (c.exception? id).isSome ↔ Lists base user .exceptions id
  license : ∀ id e, c.license? id = some e → e.id = id ∧
    overlaid? base user .licenses id nameField = some (.text e.name) ∧
    (overlaid? base user .licenses id deprecatedField).getD (.boolean false) = .boolean e.deprecated
  exception : ∀ id e, c.exception? id = some e → e.id = id ∧
    overlaid? base user .exceptions id nameField = some (.text e.name) ∧
    (overlaid? base user .exceptions id deprecatedField).getD (.boolean false) =
      .boolean e.deprecated
  eligible : ∀ id e, c.license? id = some e →
    (∀ v, overlaid? base user .licenses id eligibleField = some v →
      v = .boolean e.orLaterEligible) ∧
    (overlaid? base user .licenses id eligibleField = none → ∀ stem, Stem id stem →
      (e.orLaterEligible = true ↔ Lists base user .licenses (stem ++ orLaterSuffix)))

/-! ### Families -/

/-- Every identifier has just one stem, the one that is looked for in the catalog. -/
theorem stem_iff {id stem : String} : Stem id stem ↔ familyBase id = stem := by
  constructor
  · intro h
    cases h with
    | plus => simp [familyBase, Text.dropSuffix?_append]
    | orLater =>
        have hPlus := Text.dropSuffix?_eq_none_iff.2
          (Text.append_ne_append orLaterSuffix plusSuffix (by decide) (by decide) stem)
        simp [familyBase, Text.dropSuffix?_append, hPlus]
    | only =>
        have hPlus := Text.dropSuffix?_eq_none_iff.2
          (Text.append_ne_append onlySuffix plusSuffix (by decide) (by decide) stem)
        have hLater := Text.dropSuffix?_eq_none_iff.2
          (Text.append_ne_append onlySuffix orLaterSuffix (by decide) (by decide) stem)
        simp [familyBase, Text.dropSuffix?_append, hPlus, hLater]
    | bare unmarked =>
        have hPlus := Text.dropSuffix?_eq_none_iff.2 fun stem => (unmarked stem).1
        have hLater := Text.dropSuffix?_eq_none_iff.2 fun stem => (unmarked stem).2.1
        have hOnly := Text.dropSuffix?_eq_none_iff.2 fun stem => (unmarked stem).2.2
        simp [familyBase, hPlus, hLater, hOnly]
  · rintro rfl
    unfold familyBase
    cases hPlus : Text.dropSuffix? id plusSuffix with
    | some stem =>
        obtain rfl := Text.dropSuffix?_eq_some_iff.1 hPlus
        exact .plus stem
    | none =>
        cases hLater : Text.dropSuffix? id orLaterSuffix with
        | some stem =>
            obtain rfl := Text.dropSuffix?_eq_some_iff.1 hLater
            exact .orLater stem
        | none =>
            cases hOnly : Text.dropSuffix? id onlySuffix with
            | some stem =>
                obtain rfl := Text.dropSuffix?_eq_some_iff.1 hOnly
                exact .only stem
            | none =>
                rw [Text.dropSuffix?_eq_none_iff] at hPlus hLater hOnly
                exact .bare fun stem => ⟨hPlus stem, hLater stem, hOnly stem⟩

/-! ### What is drafted -/

theorem given?_of_listed? {document fields : Table} {part : Part} {id : String}
    (h : listed? document part id = some (.table fields)) :
    given? document part id = Listing.get? fields := by
  funext field
  simp [given?, fields?, h, Value.table?]

theorem distinct_of_listed? {document : Table} (hOnce : document.Distinct) {part : Part}
    {id : String} {v : Value} (h : listed? document part id = some v) : v.Distinct := by
  obtain ⟨entries, hEntries, hFound⟩ := Option.bind_eq_some_iff.1 h
  obtain ⟨value, hValue, hTable⟩ := Option.bind_eq_some_iff.1 hEntries
  cases value with
  | table inner =>
      obtain rfl := Option.some.inj hTable
      have hInner : Table.Distinct inner := hOnce.of_get? hValue
      exact hInner.of_get? hFound
  | _ => cases hTable

/-- A document fits when its part is a table, and in it every entry is a table whose fields, laid
over the earlier ones, can be used. -/
theorem partFits_iff {document : Table} {part : Part} {earlier : String → Option Table}
    (hOnce : document.Distinct) :
    PartFits document part earlier ↔
      (∀ v, document.get? part.name = some v → ∃ entries, v = .table entries) ∧
      ∀ id v, listed? document part id = some v → (∃ fields, v = .table fields) ∧
        Usable id fun field => (given? document part id field).or
          ((earlier id).bind fun fields => Listing.get? fields field) := by
  have hEntry (id : String) (v : Value) (h : listed? document part id = some v) :
      Fits id (earlier id) v ↔ (∃ fields, v = .table fields) ∧
        Usable id fun field => (given? document part id field).or
          ((earlier id).bind fun fields => Listing.get? fields field) := by
    have hFields {later : Table} (hTable : v = .table later) :
        Listing.get? (laidOver (earlier id) later) = fun field =>
          (given? document part id field).or
            ((earlier id).bind fun fields => Listing.get? fields field) := by
      subst hTable
      have hLater : Table.Distinct later := distinct_of_listed? hOnce h
      funext field
      rw [get?_laidOver hLater.names, given?_of_listed? h]
    constructor
    · rintro ⟨later, hTable, hUsable⟩
      exact ⟨⟨later, hTable⟩, hFields hTable ▸ hUsable⟩
    · rintro ⟨⟨later, hTable⟩, hUsable⟩
      exact ⟨later, hTable, (hFields hTable).symm ▸ hUsable⟩
  constructor
  · intro h
    exact ⟨h.table, fun id v hv => (hEntry id v hv).1 (h.entries id v hv)⟩
  · rintro ⟨hTable, hAll⟩
    exact ⟨hTable, fun id v hv => (hEntry id v hv).2 (hAll id v hv)⟩

/-- Over nothing a part fits when it is a table of tables that can each be used. -/
theorem partFits_none_iff {document : Table} {part : Part} (hOnce : document.Distinct) :
    (PartFits document part fun _ => none) ↔
      (∀ v, document.get? part.name = some v → ∃ entries, v = .table entries) ∧
      ∀ id v, listed? document part id = some v → (∃ fields, v = .table fields) ∧
        Usable id (given? document part id) := by
  rw [partFits_iff hOnce]
  simp only [Option.bind_none, Option.or_none]

/-- Where only tables are listed, an identifier is listed when it has fields. -/
theorem isSome_fields?_iff {document : Table} {part : Part} (id : String)
    (h : ∀ v, listed? document part id = some v → ∃ fields, v = .table fields) :
    (fields? document part id).isSome ↔ (listed? document part id).isSome := by
  cases hListed : listed? document part id with
  | none => simp [fields?, hListed]
  | some v =>
      obtain ⟨fields, rfl⟩ := h v hListed
      simp [fields?, hListed, Value.table?]

def drafted (base user : Table) : Draft :=
  (Draft.empty.add base).add user

/-- Laying an empty document over a draft changes nothing. -/
theorem ofDocuments_eq_drafted (base : Table) (user : Option Table) :
    Draft.ofDocuments base user = drafted base (user.getD []) := by
  cases user <;> rfl

section

variable {base user : Table}

/-- Nothing is wrong with the entries of both documents, each of them taken where it lies. -/
structure EntriesFit (base user : Table) : Prop where
  first : ∀ part, PartFits base part fun _ => none
  second : ∀ part, PartFits user part (fields? base part)

theorem get?_empty (part : Part) : (Draft.empty.part part).get? = fun _ => none := by
  cases part <;> rfl

/-- The base document alone is drafted as it stands. -/
theorem get?_add_empty (hBase : base.Distinct) {part : Part}
    (h : PartFits base part fun _ => none) :
    ((Draft.empty.add base).part part).get? = fields? base part := by
  funext id
  rw [Draft.get?_add hBase (get?_empty part ▸ h), get?_empty]
  cases fields? base part id <;> rfl

theorem problems_eq_nil_iff (hBase : base.Distinct) (hUser : user.Distinct) :
    (drafted base user).problems = [] ↔ EntriesFit base user := by
  rw [drafted, Draft.problems_add_eq_nil_iff hUser, Draft.problems_add_eq_nil_iff hBase]
  constructor
  · rintro ⟨⟨-, hFirst⟩, hSecond⟩
    have hFits (part : Part) : PartFits base part fun _ => none := get?_empty part ▸ hFirst part
    exact ⟨hFits, fun part => get?_add_empty hBase (hFits part) ▸ hSecond part⟩
  · rintro ⟨hFirst, hSecond⟩
    refine ⟨⟨rfl, fun part => (get?_empty part).symm ▸ hFirst part⟩, fun part => ?_⟩
    exact (get?_add_empty hBase (hFirst part)).symm ▸ hSecond part

theorem nodup_drafted (base user : Table) (part : Part) :
    ((drafted base user).part part).names.Nodup := by
  apply Draft.nodup_add
  apply Draft.nodup_add
  cases part <;> exact List.nodup_nil

namespace EntriesFit

variable (hBase : base.Distinct) (hUser : user.Distinct) (h : EntriesFit base user)
include hBase hUser h

/-- The entries that fit are drafted field by field, the user's ones over those of the base. -/
theorem get?_drafted (part : Part) (id : String) :
    ((drafted base user).part part).get? id =
      (fields? user part id).elim (fields? base part id) fun later =>
        some (laidOver (fields? base part id) later) := by
  have hDocument := get?_add_empty hBase (h.first part)
  rw [drafted, Draft.get?_add hUser (hDocument ▸ h.second part), hDocument]

/-- What is listed is drafted. -/
theorem isSome_drafted_iff (part : Part) (id : String) :
    (((drafted base user).part part).get? id).isSome ↔ Lists base user part id := by
  have hFirst := isSome_fields?_iff id fun v hv =>
    (((partFits_none_iff hBase).1 (h.first part)).2 id v hv).1
  have hSecond := isSome_fields?_iff id fun v hv =>
    (((partFits_iff hUser).1 (h.second part)).2 id v hv).1
  rw [h.get?_drafted hBase hUser, Lists, ← hFirst, ← hSecond]
  cases fields? user part id <;> simp

/-- What is drafted has the fields of both documents. -/
theorem get?_fields (part : Part) {id : String} {fields : Table}
    (hFound : ((drafted base user).part part).get? id = some fields) :
    Listing.get? fields = overlaid? base user part id := by
  rw [h.get?_drafted hBase hUser] at hFound
  funext field
  cases hFields : fields? user part id with
  | none =>
      rw [hFields] at hFound
      have hOld : fields? base part id = some fields := hFound
      simp [overlaid?, given?, hFields, hOld]
  | some later =>
      rw [hFields] at hFound
      obtain rfl := Option.some.inj hFound
      obtain ⟨v, hListed, hTable⟩ := Option.bind_eq_some_iff.1 hFields
      cases v with
      | table entries =>
          obtain rfl := Option.some.inj hTable
          have hLater : Table.Distinct entries := distinct_of_listed? hUser hListed
          rw [get?_laidOver hLater.names, overlaid?, given?_of_listed? hListed]
          rfl
      | _ => cases hTable

/-- What is drafted can be used. -/
theorem usable {part : Part} {id : String} (hListed : Lists base user part id) :
    Usable id (overlaid? base user part id) := by
  cases hNew : listed? user part id with
  | some v => exact (((partFits_iff hUser).1 (h.second part)).2 id v hNew).2
  | none =>
      obtain ⟨v, hOld⟩ := Option.isSome_iff_exists.1 (hListed.resolve_right (by simp [hNew]))
      have hUsable := (((partFits_none_iff hBase).1 (h.first part)).2 id v hOld).2
      have hFields : overlaid? base user part id = given? base part id := by
        funext field
        simp [overlaid?, given?, fields?, hNew]
      exact hFields ▸ hUsable

end EntriesFit

end

/-! ### What is wrong with a draft -/

theorem isDeprecated_iff {fields : Table} :
    isDeprecated fields = true ↔ Listing.get? fields deprecatedField = some (.boolean true) := by
  unfold isDeprecated flagOf
  cases Listing.get? fields deprecatedField with
  | none => simp
  | some v => cases v <;> simp [Value.boolean?]

namespace Draft

variable {d : Draft}

theorem plusProblems_eq_nil_iff (hOnce : d.licenses.names.Nodup) :
    d.plusProblems = [] ↔ ∀ stem fields, d.licenses.get? (stem ++ plusSuffix) = some fields →
      Listing.get? fields deprecatedField = some (.boolean true) := by
  rw [plusProblems, List.map_eq_nil_iff, List.filter_eq_nil_iff]
  constructor
  · intro h stem fields hFound
    have hListed := h _ (Listing.mem_of_get? hFound)
    have hSuffix : Text.hasSuffix (stem ++ plusSuffix) plusSuffix = true :=
      Text.hasSuffix_iff.2 ⟨stem, rfl⟩
    rw [← isDeprecated_iff]
    simpa [hSuffix] using hListed
  · rintro h ⟨id, fields⟩ hMem
    cases hSuffix : Text.hasSuffix id plusSuffix with
    | false => simp [hSuffix]
    | true =>
        obtain ⟨stem, rfl⟩ := Text.hasSuffix_iff.1 hSuffix
        simp [isDeprecated_iff.2 (h stem fields (Listing.get?_of_mem hOnce hMem))]

theorem overlapProblems_eq_nil_iff (hOnce : d.exceptions.names.Nodup) :
    d.overlapProblems = [] ↔
      ∀ id, (d.licenses.get? id).isSome → ¬ (d.exceptions.get? id).isSome := by
  rw [overlapProblems, List.map_eq_nil_iff, List.filter_eq_nil_iff]
  constructor
  · intro h id hLicense hException
    obtain ⟨fields, hFound⟩ := Option.isSome_iff_exists.1 hException
    exact h _ (Listing.mem_of_get? hFound) hLicense
  · rintro h ⟨id, fields⟩ hMem hLicense
    have hFound := Listing.get?_of_mem hOnce hMem
    exact h id hLicense (by simp [hFound])

theorem license?_catalog (id : String) :
    d.catalog.license? id = (d.licenses.get? id).map (d.licenseEntry id) :=
  Listing.get?_map d.licenses d.licenseEntry id

theorem exception?_catalog (id : String) :
    d.catalog.exception? id = (d.exceptions.get? id).map (exceptionEntry id) :=
  Listing.get?_map d.exceptions exceptionEntry id

end Draft

section

variable {base user : Table}

/-- The entries of both documents fit just when they are valid one by one. -/
theorem entriesFit_iff (hBase : base.Distinct) (hUser : user.Distinct) :
    EntriesFit base user ↔
      (∀ document ∈ [base, user], ∀ part v, Listing.get? document (Part.name part) = some v →
        ∃ entries, v = .table entries) ∧
      (∀ part id v, listed? base part id = some v →
        (∃ fields, v = .table fields) ∧ Usable id (given? base part id)) ∧
      ∀ part id v, listed? user part id = some v →
        (∃ fields, v = .table fields) ∧ Usable id (overlaid? base user part id) := by
  constructor
  · intro h
    have hFirst part := (partFits_none_iff hBase).1 (h.first part)
    have hSecond part := (partFits_iff hUser).1 (h.second part)
    refine ⟨?_, fun part => (hFirst part).2, fun part => (hSecond part).2⟩
    simp only [List.mem_cons, List.not_mem_nil, or_false, forall_eq_or_imp, forall_eq]
    exact ⟨fun part => (hFirst part).1, fun part => (hSecond part).1⟩
  · rintro ⟨hParts, hBaseEntries, hUserEntries⟩
    refine ⟨fun part => ?_, fun part => ?_⟩
    · exact (partFits_none_iff hBase).2 ⟨hParts base (by simp) part, hBaseEntries part⟩
    · exact (partFits_iff hUser).2 ⟨hParts user (by simp) part, hUserEntries part⟩

/-- Nothing is wrong with what is drafted from both documents just when they are valid. -/
theorem allProblems_eq_nil_iff (hBase : base.Distinct) (hUser : user.Distinct) :
    (drafted base user).allProblems = [] ↔ Valid base user := by
  rw [Draft.allProblems, List.append_eq_nil_iff, List.append_eq_nil_iff,
    problems_eq_nil_iff hBase hUser,
    Draft.plusProblems_eq_nil_iff (nodup_drafted base user .licenses),
    Draft.overlapProblems_eq_nil_iff (nodup_drafted base user .exceptions)]
  constructor
  · rintro ⟨⟨hFit, hPlus⟩, hApart⟩
    obtain ⟨hParts, hBaseEntries, hUserEntries⟩ := (entriesFit_iff hBase hUser).1 hFit
    refine ⟨hParts, hBaseEntries, hUserEntries, fun stem hListed => ?_, fun id hLicense => ?_⟩
    · obtain ⟨fields, hFound⟩ := Option.isSome_iff_exists.1
        ((hFit.isSome_drafted_iff hBase hUser .licenses _).2 hListed)
      rw [← hFit.get?_fields hBase hUser .licenses hFound]
      exact hPlus stem fields hFound
    · rw [← hFit.isSome_drafted_iff hBase hUser .exceptions]
      exact hApart id ((hFit.isSome_drafted_iff hBase hUser .licenses id).2 hLicense)
  · intro h
    have hFit := (entriesFit_iff hBase hUser).2 ⟨h.parts, h.baseEntries, h.userEntries⟩
    refine ⟨⟨hFit, fun stem fields hFound => ?_⟩, fun id hLicense hException => ?_⟩
    · have hListed := (hFit.isSome_drafted_iff hBase hUser .licenses _).1
        (Option.isSome_iff_exists.2 ⟨fields, hFound⟩)
      rw [hFit.get?_fields hBase hUser .licenses hFound]
      exact h.plus stem hListed
    · exact h.apart id ((hFit.isSome_drafted_iff hBase hUser .licenses id).1 hLicense)
        ((hFit.isSome_drafted_iff hBase hUser .exceptions id).1 hException)

/-- The name and the flag of an entry are the fields that its documents give it. -/
theorem shows_of_usable {id : String} {fields : Table} {field? : String → Option Value}
    (hFields : Listing.get? fields = field?) (h : Usable id field?) :
    field? nameField = some (.text (nameOf fields)) ∧
      (field? deprecatedField).getD (.boolean false) = .boolean (isDeprecated fields) := by
  subst hFields
  obtain ⟨name, hName⟩ := h.named
  refine ⟨by simp [nameOf, hName, Value.text?], ?_⟩
  cases hFlag : Listing.get? fields deprecatedField with
  | none => simp [isDeprecated, flagOf, hFlag]
  | some v =>
      obtain ⟨flag, rfl⟩ := h.deprecated v hFlag
      simp [isDeprecated, flagOf, hFlag, Value.boolean?]

/-- What is drafted from valid documents is the catalog of the one laid over the other. -/
theorem overlays_drafted (hBase : base.Distinct) (hUser : user.Distinct) (h : Valid base user) :
    Overlays base user (drafted base user).catalog := by
  have hFit := (entriesFit_iff hBase hUser).2 ⟨h.parts, h.baseEntries, h.userEntries⟩
  have hListed (part : Part) (id : String) := hFit.isSome_drafted_iff hBase hUser part id
  have hLicense {id : String} {e : LicenseEntry}
      (hFound : (drafted base user).catalog.license? id = some e) :
      ∃ fields, (drafted base user).licenses.get? id = some fields ∧
        Listing.get? fields = overlaid? base user .licenses id ∧
        Usable id (overlaid? base user .licenses id) ∧
        (drafted base user).licenseEntry id fields = e := by
    rw [Draft.license?_catalog] at hFound
    obtain ⟨fields, hFields, hEntry⟩ := Option.map_eq_some_iff.1 hFound
    have hIn := (hListed .licenses id).1 (Option.isSome_iff_exists.2 ⟨fields, hFields⟩)
    exact ⟨fields, hFields, hFit.get?_fields hBase hUser .licenses hFields,
      hFit.usable hBase hUser hIn, hEntry⟩
  refine ⟨fun id => ?_, fun id => ?_, ?_, ?_, ?_⟩
  · rw [Draft.license?_catalog, Option.isSome_map]
    exact hListed .licenses id
  · rw [Draft.exception?_catalog, Option.isSome_map]
    exact hListed .exceptions id
  · intro id e hFound
    obtain ⟨fields, -, hSame, hUsable, rfl⟩ := hLicense hFound
    exact ⟨rfl, shows_of_usable hSame hUsable⟩
  · intro id e hFound
    rw [Draft.exception?_catalog] at hFound
    obtain ⟨fields, hFields, rfl⟩ := Option.map_eq_some_iff.1 hFound
    have hIn := (hListed .exceptions id).1 (Option.isSome_iff_exists.2 ⟨fields, hFields⟩)
    exact ⟨rfl, shows_of_usable (hFit.get?_fields hBase hUser .exceptions hFields)
      (hFit.usable hBase hUser hIn)⟩
  · intro id e hFound
    obtain ⟨fields, -, hSame, hUsable, rfl⟩ := hLicense hFound
    rw [← hSame]
    refine ⟨fun v hv => ?_, fun hNone stem hStem => ?_⟩
    · obtain ⟨flag, rfl⟩ := hUsable.eligible v (hSame ▸ hv)
      simp [Draft.licenseEntry, flagOf, hv, Value.boolean?]
    · rw [← hListed .licenses, ← stem_iff.1 hStem]
      simp only [Draft.licenseEntry, flagOf, hNone, Option.bind_none, Option.getD_none]
      rfl

end

/-! ### Loading -/

def shipped : Table :=
  [("licenses", .table [("GPL-2.0", .table [("name", .text "GNU General Public License v2.0")])])]

/-- A document that retires the license and adds another one of its family. -/
def retiring : Table :=
  [("licenses", .table [("GPL-2.0", .table [("deprecated", .boolean true)]),
    ("GPL-2.0-or-later", .table [("name", .text "GNU General Public License v2.0 or later")])])]

theorem distinct_singleton {name : String} {v : Value} (h : v.Distinct) :
    Table.Distinct [(name, v)] :=
  Table.Distinct.nil.put h name

theorem distinct_shipped : shipped.Distinct :=
  distinct_singleton (distinct_singleton (distinct_singleton (.plain rfl)))

theorem distinct_retiring : retiring.Distinct := by
  have hFirst : Table.Distinct [("GPL-2.0", .table [("deprecated", .boolean true)])] :=
    distinct_singleton (distinct_singleton (.plain rfl))
  have hSecond : Table.Distinct [("name", .text "GNU General Public License v2.0 or later")] :=
    distinct_singleton (.plain rfl)
  exact distinct_singleton (hFirst.put hSecond "GPL-2.0-or-later")

theorem value_load (base user : Option Source) : (load base user).value = ofSources base user := by
  unfold load
  cases ofSources base user <;> rfl

/-- Without a user's file an empty document is laid over the base. -/
theorem exists_ofSources_eq {base user : Option Source} {baseDocument userDocument : Table}
    (hBase : base.elim (.ok builtinDocument) Source.document = .ok baseDocument)
    (hUser : user.elim (.ok []) Source.document = .ok userDocument) :
    ∃ layer : Option Table, layer.getD [] = userDocument ∧
      ofSources base user = (build baseDocument layer).mapError .invalid := by
  cases user with
  | none =>
      refine ⟨none, Except.ok.inj hUser, ?_⟩
      simp only [ofSources, hBase]
  | some source =>
      have hDocument : source.document = .ok userDocument := hUser
      refine ⟨some userDocument, rfl, ?_⟩
      simp only [ofSources, hBase, hDocument]

/-- Loading succeeds just when the data are valid, and gives the catalog of the user's document laid
over the base, field by field; data that are not valid are refused with what is wrong with them. -/
theorem load_overlays {base user : Option Source} {baseDocument userDocument : Table}
    (hBase : base.elim (.ok builtinDocument) Source.document = .ok baseDocument)
    (hUser : user.elim (.ok []) Source.document = .ok userDocument)
    (hBaseOnce : baseDocument.Distinct) (hUserOnce : userDocument.Distinct) :
    (Valid baseDocument userDocument →
      ∃ c, (load base user).value = .ok c ∧ Overlays baseDocument userDocument c) ∧
    (¬ Valid baseDocument userDocument →
      ∃ problems, problems ≠ [] ∧ (load base user).value = .error (.invalid problems)) := by
  obtain ⟨layer, hLayer, hSources⟩ := exists_ofSources_eq hBase hUser
  have hDraft : Draft.ofDocuments baseDocument layer = drafted baseDocument userDocument := by
    rw [ofDocuments_eq_drafted, hLayer]
  have hProblems := allProblems_eq_nil_iff hBaseOnce hUserOnce
  rw [value_load, hSources, build, hDraft]
  constructor
  · intro h
    rw [hProblems.2 h]
    exact ⟨_, rfl, overlays_drafted hBaseOnce hUserOnce h⟩
  · intro h
    have hSome : (drafted baseDocument userDocument).allProblems ≠ [] := fun hNone =>
      h (hProblems.1 hNone)
    refine ⟨_, hSome, ?_⟩
    rw [if_neg (by simpa using hSome)]
    rfl

/-- The second document is valid over the first, from which it has the name of the license, and not
alone. -/
theorem load_overlays_retiring :
    (∃ c, (load (some ⟨"base", .document shipped⟩) (some ⟨"user", .document retiring⟩)).value =
      .ok c ∧ Overlays shipped retiring c) ∧
    ∃ problems, problems ≠ [] ∧
      (load (some ⟨"user", .document retiring⟩) none).value = .error (.invalid problems) := by
  constructor
  · have hValid : Valid shipped retiring :=
      (allProblems_eq_nil_iff distinct_shipped distinct_retiring).1 (by decide)
    have hLoad := @load_overlays (some ⟨"base", .document shipped⟩)
      (some ⟨"user", .document retiring⟩) shipped retiring rfl rfl distinct_shipped
      distinct_retiring
    exact hLoad.1 hValid
  · have hInvalid : ¬ Valid retiring [] := fun h =>
      absurd ((allProblems_eq_nil_iff distinct_retiring Table.Distinct.nil).2 h) (by decide)
    have hLoad := @load_overlays (some ⟨"user", .document retiring⟩) none retiring [] rfl rfl
      distinct_retiring Table.Distinct.nil
    exact hLoad.2 hInvalid

/-- The built-in document has no name twice, so what is said of loading holds for it too. -/
theorem distinct_builtinDocument : builtinDocument.Distinct := by
  have hFields (name : String) (deprecated : Bool) :
      (Value.table (builtinFields name deprecated)).Distinct := by
    cases deprecated with
    | false => exact distinct_singleton (.plain rfl)
    | true =>
        have hName : Table.Distinct [(nameField, .text name)] := distinct_singleton (.plain rfl)
        have hFlag : (Value.boolean true).Distinct := .plain rfl
        exact hName.put hFlag deprecatedField
  have hPart {entries : List (String × String × Bool)} (hOnce : (entries.map Prod.fst).Nodup) :
      (builtinPart entries).Distinct := by
    refine .table ?_ fun entry hEntry => ?_
    · rw [Listing.names, List.map_map]
      exact hOnce
    · obtain ⟨⟨id, name, deprecated⟩, -, rfl⟩ := List.mem_map.1 hEntry
      exact hFields name deprecated
  have hLicenses : (builtinLicenses.map Prod.fst).Nodup := by decide +kernel
  have hExceptions : (builtinExceptions.map Prod.fst).Nodup := by decide +kernel
  have hFirst : Table.Distinct [(Part.licenses.name, builtinPart builtinLicenses)] :=
    distinct_singleton (hPart hLicenses)
  exact hFirst.put (hPart hExceptions) Part.exceptions.name

end Licensing.Catalog
