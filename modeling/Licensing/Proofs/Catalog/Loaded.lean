import Licensing.Proofs.Catalog.Legible
import Licensing.Proofs.Catalog.Overlay

/-!
What a loaded catalog can be relied on for, whatever the files held: entries carry the identifiers
that find them, a `+` at the end marks a deprecated license, and no identifier is both a license and
an exception. A document changes nothing about an identifier that it does not list.
-/

namespace Licensing

/-- The entry without what is said about its family, which can depend on other entries. -/
def LicenseEntry.alone (e : LicenseEntry) : LicenseEntry :=
  { e with orLaterEligible := false }

namespace Catalog

open Toml (Value Table)

/-- What the checks of loading leave true of a catalog. -/
structure Consistent (c : Catalog) : Prop where
  keyed : c.Keyed
  plus : ∀ {stem : String} {e : LicenseEntry}, c.license? (stem ++ plusSuffix) = some e →
    e.deprecated = true
  apart : ∀ {id : String}, (c.license? id).isSome → c.exception? id = none

/-- A catalog that is loaded was drafted from the documents of its files, and nothing was wrong with
the draft. -/
theorem exists_drafted_of_load {base user : Option Source} {c : Catalog}
    (h : (load base user).value = .ok c) :
    ∃ baseDocument userDocument,
      base.elim (.ok builtinDocument) Source.document = .ok baseDocument ∧
      user.elim (.ok []) Source.document = .ok userDocument ∧
      (drafted baseDocument userDocument).allProblems = [] ∧
      c = (drafted baseDocument userDocument).catalog := by
  rw [value_load] at h
  cases hBase : base.elim (.ok builtinDocument) Source.document with
  | error e => simp [ofSources, hBase] at h
  | ok baseDocument =>
      cases hUser : user.elim (.ok []) Source.document with
      | error e =>
          cases user with
          | none => cases hUser
          | some source =>
              have hDocument : source.document = .error e := hUser
              simp [ofSources, hBase, hDocument] at h
      | ok userDocument =>
          obtain ⟨layer, rfl, hSources⟩ := exists_ofSources_eq hBase hUser
          rw [hSources, build, ofDocuments_eq_drafted] at h
          split at h
          · rename_i hNone
            exact ⟨_, _, rfl, rfl, List.isEmpty_iff.1 hNone, (Except.ok.inj h).symm⟩
          · cases h

/-- Whatever the files hold, a catalog that is loaded from them is consistent. -/
theorem consistent_of_load {base user : Option Source} {c : Catalog}
    (h : (load base user).value = .ok c) : c.Consistent := by
  obtain ⟨baseDocument, userDocument, -, -, hProblems, rfl⟩ := exists_drafted_of_load h
  rw [Draft.allProblems, List.append_eq_nil_iff, List.append_eq_nil_iff,
    Draft.plusProblems_eq_nil_iff (nodup_drafted baseDocument userDocument .licenses),
    Draft.overlapProblems_eq_nil_iff (nodup_drafted baseDocument userDocument .exceptions)]
    at hProblems
  obtain ⟨⟨-, hPlus⟩, hApart⟩ := hProblems
  refine ⟨Draft.keyed_catalog _, fun {stem e} hFound => ?_, fun {id} hFound => ?_⟩
  · rw [Draft.license?_catalog] at hFound
    obtain ⟨fields, hFields, rfl⟩ := Option.map_eq_some_iff.1 hFound
    exact isDeprecated_iff.2 (hPlus stem fields hFields)
  · rw [Draft.license?_catalog, Option.isSome_map] at hFound
    rw [Draft.exception?_catalog, Option.map_eq_none_iff, ← Option.not_isSome_iff_eq_none]
    exact hApart id hFound

/-- What a user's file does not list is in the catalog as it is without the file. -/
theorem entries_of_not_listed {base : Option Source} {source : Source} {userDocument : Table}
    {c d : Catalog} (hBase : (load base none).value = .ok c)
    (hUser : (load base (some source)).value = .ok d)
    (hDocument : source.document = .ok userDocument) (id : String) :
    (listed? userDocument .licenses id = none →
      (d.license? id).map LicenseEntry.alone = (c.license? id).map LicenseEntry.alone) ∧
    (listed? userDocument .exceptions id = none → d.exception? id = c.exception? id) := by
  obtain ⟨baseDocument, empty, hFirst, hEmpty, -, rfl⟩ := exists_drafted_of_load hBase
  obtain ⟨other, layer, hSecond, hLayer, -, rfl⟩ := exists_drafted_of_load hUser
  obtain rfl := Except.ok.inj (hFirst.symm.trans hSecond)
  obtain rfl : [] = empty := Except.ok.inj hEmpty
  obtain rfl := Except.ok.inj (hDocument.symm.trans hLayer)
  constructor
  · intro h
    have hKept : (drafted baseDocument userDocument).licenses.get? id =
        (drafted baseDocument []).licenses.get? id :=
      Draft.get?_add_of_not_listed h
    rw [Draft.license?_catalog, Draft.license?_catalog, hKept, Option.map_map, Option.map_map]
    rfl
  · intro h
    have hKept : (drafted baseDocument userDocument).exceptions.get? id =
        (drafted baseDocument []).exceptions.get? id :=
      Draft.get?_add_of_not_listed h
    rw [Draft.exception?_catalog, Draft.exception?_catalog, hKept]

end Catalog

end Licensing
