import Licensing.Catalog.Builtin

/-!
Catalogs whose licenses can be read back from what is written for them. A license that covers later
versions is written with a `+`, unless its identifier says "or later" itself; so a deprecated
identifier, which says it by the `+` alone, must not end in `-or-later`. The built-in catalog is of
this kind: every field of a draft stands in a document, and the document has no such identifier.
-/

namespace Licensing

namespace Catalog

open Toml (Value Table)

/-- An overlay has no field of its own. -/
theorem mem_of_mem_overlay {earlier later : Table} {field : String × Value}
    (h : field ∈ overlay earlier later) : field ∈ earlier ∨ field ∈ later := by
  induction later generalizing earlier with
  | nil => exact Or.inl h
  | cons entry rest ih =>
      rcases ih h with hPut | hRest
      · rcases Listing.mem_of_mem_put hPut with hNew | hOld
        · exact Or.inr (hNew ▸ List.mem_cons_self)
        · exact Or.inl hOld
      · exact Or.inr (List.mem_cons_of_mem _ hRest)

def Gives (document : Table) (part : Part) (id : String) (field : String × Value) : Prop :=
  ∃ entries fields, document.get? part.name = some (.table entries) ∧
    (id, .table fields) ∈ entries ∧ field ∈ fields

namespace Merged

theorem mem_fields_addEntry {part : Part} {m : Merged} {entry : String × Value}
    {listed : String × Table} {field : String × Value}
    (h : listed ∈ (m.addEntry part entry).entries) (hField : field ∈ listed.2) :
    (∃ earlier, (listed.1, earlier) ∈ m.entries ∧ field ∈ earlier) ∨
      ∃ later, entry = (listed.1, .table later) ∧ field ∈ later := by
  obtain ⟨id, value⟩ := entry
  have hKept (hOld : listed ∈ m.entries) :
      ∃ earlier, (listed.1, earlier) ∈ m.entries ∧ field ∈ earlier := ⟨listed.2, hOld, hField⟩
  unfold addEntry at h
  split at h
  · rename_i later hTable
    obtain rfl : value = .table later := hTable
    dsimp only at h
    split at h
    · rcases Listing.mem_of_mem_put h with rfl | hOld
      · dsimp only at hField ⊢
        split at hField
        · rename_i earlier hEarlier
          rcases mem_of_mem_overlay hField with hIn | hIn
          · exact Or.inl ⟨earlier, Listing.mem_of_get? hEarlier, hIn⟩
          · exact Or.inr ⟨later, rfl, hIn⟩
        · exact Or.inr ⟨later, rfl, hField⟩
      · exact Or.inl (hKept hOld)
    · exact Or.inl (hKept h)
  · exact Or.inl (hKept h)

theorem mem_fields_foldl {part : Part} {entries : List (String × Value)} {m : Merged}
    {listed : String × Table} {field : String × Value}
    (h : listed ∈ (entries.foldl (addEntry part) m).entries) (hField : field ∈ listed.2) :
    (∃ earlier, (listed.1, earlier) ∈ m.entries ∧ field ∈ earlier) ∨
      ∃ later, (listed.1, .table later) ∈ entries ∧ field ∈ later := by
  induction entries generalizing m with
  | nil => exact Or.inl ⟨listed.2, h, hField⟩
  | cons entry rest ih =>
      rcases ih h with ⟨earlier, hEarlier, hIn⟩ | ⟨later, hLater, hIn⟩
      · rcases mem_fields_addEntry hEarlier hIn with hOld | ⟨later, rfl, hIn⟩
        · exact Or.inl hOld
        · exact Or.inr ⟨later, List.mem_cons_self, hIn⟩
      · exact Or.inr ⟨later, List.mem_cons_of_mem _ hLater, hIn⟩

/-- Laying one part of a document over others brings no field that is in none of them. -/
theorem mem_fields_addPart {part : Part} {m : Merged} {document : Table}
    {listed : String × Table} {field : String × Value}
    (h : listed ∈ (m.addPart part document).entries) (hField : field ∈ listed.2) :
    (∃ earlier, (listed.1, earlier) ∈ m.entries ∧ field ∈ earlier) ∨
      Gives document part listed.1 field := by
  unfold addPart at h
  split at h
  · exact Or.inl ⟨listed.2, h, hField⟩
  · rename_i entries hEntries
    rcases mem_fields_foldl h hField with hOld | ⟨later, hLater, hIn⟩
    · exact Or.inl hOld
    · exact Or.inr ⟨entries, later, hEntries, hLater, hIn⟩
  · exact Or.inl ⟨listed.2, h, hField⟩

end Merged

namespace Draft

/-- Every field of a license that is drafted from one document stands in the document. -/
theorem gives_of_mem_licenses {base : Table} {listed : String × Table} {field : String × Value}
    (h : listed ∈ (ofDocuments base none).licenses) (hField : field ∈ listed.2) :
    Gives base .licenses listed.1 field := by
  have hAdded : listed ∈ (Merged.addPart .licenses ⟨[], []⟩ base).entries := h
  rcases Merged.mem_fields_addPart hAdded hField with ⟨earlier, hEarlier, -⟩ | hGiven
  · exact absurd hEarlier List.not_mem_nil
  · exact hGiven

/-- A license that a catalog finds was made from fields that were drafted under its identifier. -/
theorem exists_of_license? {d : Draft} {id : String} {e : LicenseEntry}
    (h : d.catalog.license? id = some e) :
    ∃ fields, (id, fields) ∈ d.licenses ∧ e = d.licenseEntry id fields := by
  obtain ⟨⟨other, fields⟩, hListed, hEntry⟩ := List.mem_map.1 (Listing.mem_of_get? h)
  obtain ⟨rfl, rfl⟩ := Prod.mk.inj hEntry
  exact ⟨fields, hListed, rfl⟩

/-- The catalog of a draft lists every entry under its own identifier. -/
theorem keyed_catalog (d : Draft) : d.catalog.Keyed where
  license h := by
    obtain ⟨fields, -, rfl⟩ := exists_of_license? h
    rfl
  exception h := by
    obtain ⟨listed, -, hEntry⟩ := List.mem_map.1 (Listing.mem_of_get? h)
    obtain ⟨rfl, rfl⟩ := Prod.mk.inj hEntry
    rfl

end Draft

/-- Every entry carries the identifier that finds it, and no deprecated license has an identifier
that says "or later", with or without a `+`. -/
structure Legible (c : Catalog) : Prop where
  keyed : c.Keyed
  marked : ∀ {id : String} {e : LicenseEntry}, c.license? id = some e → e.deprecated = true →
    Text.hasSuffix e.id orLaterSuffix = false ∧
      Text.hasSuffix e.id (orLaterSuffix ++ plusSuffix) = false

theorem mem_fields_of_isDeprecated {fields : Table} (h : isDeprecated fields = true) :
    (deprecatedField, .boolean true) ∈ fields := by
  unfold isDeprecated flagOf at h
  cases hFlag : fields.get? deprecatedField with
  | none => simp [hFlag] at h
  | some value =>
      cases value with
      | boolean b =>
          obtain rfl : b = true := by simpa [hFlag, Value.boolean?] using h
          exact Listing.mem_of_get? hFlag
      | _ => simp [hFlag, Value.boolean?] at h

/-- Only the licenses that are marked so in the built-in document are deprecated by it. -/
theorem mem_builtinLicenses_of_gives {id : String}
    (h : Gives builtinDocument .licenses id (deprecatedField, .boolean true)) :
    ∃ name, (id, name, true) ∈ builtinLicenses := by
  obtain ⟨entries, fields, hPart, hEntry, hField⟩ := h
  have hFirst (first second : Value) : Listing.get? [(Part.licenses.name, first),
      (Part.exceptions.name, second)] Part.licenses.name = some first := by
    simp [Listing.get?_cons]
  rw [builtinDocument, hFirst, builtinPart] at hPart
  obtain rfl := Value.table.inj (Option.some.inj hPart)
  obtain ⟨⟨other, name, deprecated⟩, hListed, hSame⟩ := List.mem_map.1 hEntry
  obtain ⟨rfl, hTable⟩ := Prod.mk.inj hSame
  obtain rfl := Value.table.inj hTable
  cases deprecated with
  | true => exact ⟨name, hListed⟩
  | false =>
      simp only [builtinFields, Bool.false_eq_true, if_false, List.mem_singleton, Prod.mk.injEq]
        at hField
      exact absurd hField.1 (by decide)

/-- The built-in catalog is legible: of its licenses only those with a mark are deprecated, and none
of their identifiers says "or later". -/
theorem legible_builtin : builtin.Legible where
  keyed := Draft.keyed_catalog _
  marked := by
    intro id e hFound hDeprecated
    rw [builtin] at hFound
    have hId : e.id = id := (Draft.keyed_catalog _).license hFound
    obtain ⟨fields, hListed, hEntry⟩ := Draft.exists_of_license? hFound
    have hFields : isDeprecated fields = true := by
      rw [hEntry] at hDeprecated
      exact hDeprecated
    have hGiven := Draft.gives_of_mem_licenses hListed (mem_fields_of_isDeprecated hFields)
    obtain ⟨name, hBuiltin⟩ := mem_builtinLicenses_of_gives hGiven
    have hAll : (builtinLicenses.all fun listed => !listed.2.2 ||
        (!Text.hasSuffix listed.1 orLaterSuffix &&
          !Text.hasSuffix listed.1 (orLaterSuffix ++ plusSuffix))) = true := by
      decide +kernel
    have hOne := List.all_eq_true.1 hAll _ hBuiltin
    rw [hId]
    simpa using hOne

end Catalog

end Licensing
