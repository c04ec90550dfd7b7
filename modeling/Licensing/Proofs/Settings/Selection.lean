import Licensing.Proofs.Settings.Checks

/-!
Settings wherever they are found. A file that can be read has a table of settings, and this table
decides what is read from the file. A directory has its settings in a file of their own, if there is
one, whatever is in it, and in its project file else.
-/

namespace Licensing.Settings

open Toml (Value Table)

/-- The table is the one with the settings of a document: the document itself or, in a project file,
a table in it. -/
def Selects (path : FilePath) (document t : Table) : Prop :=
  if path.name = projectFileName then
    ∃ tool, document.get? "tool" = some (.table tool) ∧
      Listing.get? tool "licensekit" = some (.table t)
  else t = document

/-- The table of a file decides the result: it is accepted when all checks pass, the settings then
carry what it gives, and else it is refused for the first check that fails, unless this is stuck. -/
structure Decides (tree : FileTree) (path : FilePath) (t : Table)
    (result : Except Failure Settings) : Prop where
  accepted : (∃ s, result = .ok s) ↔ ∀ c : Check, c.Passes tree path t
  carried : ∀ s, result = .ok s → Carries path t s
  refused : ∀ c : Check, c.FailsFirst tree path t →
    ((∃ cause, c.Explains path t cause ∧ result = .error (.refused path cause)) ↔
      ¬ c.Stuck tree path t)

inductive FoundAt (tree : FileTree) (directory : FilePath) : FilePath → Prop where
  | own {bytes : ByteArray} (h : tree.file? (directory.descend fileName) = .ok (some bytes)) :
      FoundAt tree directory (directory.descend fileName)
  | project {bytes : ByteArray} (hOwn : tree.file? (directory.descend fileName) = .ok none)
      (h : tree.file? (directory.descend projectFileName) = .ok (some bytes)) :
      FoundAt tree directory (directory.descend projectFileName)

section

variable {tree : FileTree} {path : FilePath} {document t : Table}

theorem tableOf_eq_some_iff : tableOf path document = .ok (some t) ↔ Selects path document t := by
  by_cases hName : path.name = projectFileName
  · simp only [tableOf, Selects, if_pos hName]
    cases hTool : document.get? "tool" with
    | none => simp
    | some v =>
        cases v with
        | table tool =>
            cases hFound : Listing.get? tool "licensekit" with
            | none => simp [hFound]
            | some w => cases w <;> simp [hFound]
        | _ => simp
  · simp [tableOf, Selects, hName, eq_comm]

/-- A file that is there is read from its bytes alone. -/
theorem ofFile_of_file? {bytes : ByteArray} (hFile : tree.file? path = .ok (some bytes)) :
    ofFile tree path = ofBytes tree path bytes := by
  simp [ofFile, lookUp, hFile]

theorem ofBytes_of_selects {bytes : ByteArray}
    (hDocument : Toml.readBytes bytes = .document document) (hTable : Selects path document t) :
    ofBytes tree path bytes = ofTable tree path t := by
  simp [ofBytes, hDocument, tableOf_eq_some_iff.2 hTable]

/-- Every table decides its result: either all checks pass or one of them fails first. -/
theorem decides_ofTable (tree : FileTree) (path : FilePath) (t : Table) :
    Decides tree path t (ofTable tree path t) := by
  by_cases hAll : ∀ c : Check, c.Passes tree path t
  · obtain ⟨s, hLoaded, hCarries⟩ := ofTable_of_passes hAll
    rw [hLoaded]
    refine ⟨⟨fun _ => hAll, fun _ => ⟨s, rfl⟩⟩, ?_, fun c hFirst => absurd (hAll c) hFirst.1⟩
    rintro _ ⟨⟩
    exact hCarries
  · have hFailure (c : Check) (hFirst : c.FailsFirst tree path t) := ofTable_of_failsFirst hFirst
    obtain ⟨c, hFirst⟩ := Check.exists_failsFirst hAll
    obtain ⟨failure, hFailed, -⟩ := hFailure c hFirst
    refine ⟨⟨?_, fun h => absurd h hAll⟩, ?_, fun c hFirst => ?_⟩
    · rintro ⟨s, hLoaded⟩
      cases hFailed.symm.trans hLoaded
    · intro s hLoaded
      cases hFailed.symm.trans hLoaded
    · obtain ⟨failure, hFailed, hWith⟩ := hFailure c hFirst
      rw [hFailed]
      cases hWith with
      | refused hSeen hCause => exact ⟨fun _ => hSeen, fun _ => ⟨_, hCause, rfl⟩⟩
      | stuck hStuck hOther =>
          refine ⟨?_, fun hSeen => absurd hStuck hSeen⟩
          rintro ⟨cause, -, hSame⟩
          exact absurd (Except.error.inj hSame) (hOther path cause)

theorem ofDirectory_of_foundAt {directory : FilePath} (h : FoundAt tree directory path) :
    ofDirectory tree directory = ofFile tree path := by
  cases h with
  | own h => simp [ofDirectory, candidates, firstFile?, ofFile, lookUp, h]
  | project hOwn h =>
      simp [ofDirectory, candidates, firstFile?, ofFile, lookUp, hOwn, h]

theorem ofDirectory_of_none {directory : FilePath}
    (h : ∀ path ∈ candidates directory, tree.file? path = .ok none) :
    ofDirectory tree directory = .ok {} := by
  have hOwn := h _ List.mem_cons_self
  have hProject := h _ (List.mem_cons_of_mem _ List.mem_cons_self)
  simp [ofDirectory, candidates, firstFile?, lookUp, hOwn, hProject]

/-! ### The catalog of settings that were read -/

variable {s : Settings}

/-- The overrides of settings that were read are a file of the tree. -/
theorem exists_file_of_ofTable {overrides : FilePath} (h : ofTable tree path t = .ok s)
    (hOverrides : s.overrides = some overrides) :
    ∃ bytes, tree.file? overrides = .ok (some bytes) := by
  have hDecides := decides_ofTable tree path t
  have hCarries := hDecides.carried s h
  cases hGiven : t.get? overridesKey with
  | none => cases hOverrides.symm.trans (hCarries.overrides hGiven)
  | some v =>
      obtain ⟨written, rfl, hSame⟩ := hCarries.overridden v hGiven
      obtain ⟨named, hNamed, -, bytes, hFile⟩ := hDecides.accepted.1 ⟨s, h⟩ .overrides _ hGiven
      obtain rfl := Value.text.inj hNamed
      obtain rfl := Option.some.inj (hOverrides.symm.trans hSame)
      exact ⟨bytes, hFile⟩

/-- Settings are the default ones or what a table gives. -/
theorem eq_default_or_ofTable {bytes : ByteArray} (h : ofBytes tree path bytes = .ok s) :
    s = {} ∨ ∃ t, ofTable tree path t = .ok s := by
  unfold ofBytes at h
  split at h
  · cases h
  · cases h
  · cases h
  · split at h
    · cases h
    · exact .inl (Except.ok.inj h).symm
    · exact .inr ⟨_, h⟩

theorem exists_file_of_ofBytes {bytes : ByteArray} {overrides : FilePath}
    (h : ofBytes tree path bytes = .ok s) (hOverrides : s.overrides = some overrides) :
    ∃ bytes, tree.file? overrides = .ok (some bytes) := by
  rcases eq_default_or_ofTable h with rfl | ⟨t, hTable⟩
  · cases hOverrides
  · exact exists_file_of_ofTable hTable hOverrides

/-- The overrides stand in the tree that the settings were read from, so their catalog is not
refused for want of a file; a tree that has changed since may well lack it. -/
theorem catalog_ne_unreachable
    (h : ofFile tree path = .ok s ∨ ∃ directory, ofDirectory tree directory = .ok s)
    (place : FilePath) (obstacle : Obstacle) :
    (s.catalog tree).value ≠ .error (.unreachable place obstacle) := by
  have hFile (overrides : FilePath) (hOverrides : s.overrides = some overrides) :
      ∃ bytes, tree.file? overrides = .ok (some bytes) := by
    rcases h with h | ⟨directory, h⟩
    · unfold ofFile at h
      split at h
      · cases h
      · cases h
      · exact exists_file_of_ofBytes h hOverrides
    · unfold ofDirectory at h
      split at h
      · cases h
      · obtain rfl := Except.ok.inj h
        cases hOverrides
      · exact exists_file_of_ofBytes h hOverrides
  unfold catalog
  cases hOverrides : s.overrides with
  | none => nofun
  | some overrides =>
      obtain ⟨bytes, hBytes⟩ := hFile overrides hOverrides
      simp only [FileTree.read_of_file? hBytes, Log.Logged.value_bind, Log.Logged.value_pure]
      cases (Catalog.load none (some ⟨overrides.text, Toml.readBytes bytes⟩)).value <;> nofun

end

/-- The table that is found in a file decides what is read from it, and a directory is read like the
file with its settings, whatever this file holds; without such a file there are the default ones. -/
theorem settings_decided (tree : FileTree) :
    (∀ path bytes document t, tree.file? path = .ok (some bytes) →
      Toml.readBytes bytes = .document document → Selects path document t →
      Decides tree path t (ofFile tree path)) ∧
    (∀ directory path, FoundAt tree directory path →
      ofDirectory tree directory = ofFile tree path) ∧
    ∀ directory, (∀ path ∈ candidates directory, tree.file? path = .ok none) →
      ofDirectory tree directory = .ok {} := by
  refine ⟨fun path bytes document t hFile hDocument hTable => ?_,
    fun directory path => ofDirectory_of_foundAt, fun directory => ofDirectory_of_none⟩
  rw [ofFile_of_file? hFile, ofBytes_of_selects hDocument hTable]
  exact decides_ofTable tree path t

/-! ### Files of a project -/

/-- The name and the text of the only entry in what bytes hold. Unlike two contents, two texts can
be compared, so what given bytes hold can be worked out by asking for it. -/
def onlyText? : Toml.Content → Option (String × String)
  | .document [(name, .text s)] => some (name, s)
  | _ => none

theorem eq_of_onlyText?_eq_some {content : Toml.Content} {name s : String}
    (h : onlyText? content = some (name, s)) : content = .document [(name, .text s)] := by
  unfold onlyText? at h
  split at h
  · obtain ⟨rfl, rfl⟩ := Prod.mk.inj (Option.some.inj h)
    rfl
  · cases h

def project : FilePath := ⟨["project"], false⟩

/-- A project with settings of its own, entries to lay over the catalog, and a project file that is
not looked at. -/
def extended : FileTree := .ofEntries project
  [("licensekit.toml", .file "catalog_overrides = \"extra.toml\"\n".toUTF8),
    ("extra.toml", .file "".toUTF8), ("pyproject.toml", .file "tool = 1\n".toUTF8)]

/-- The settings of the project have the overrides, with the path resolved, and where they are
from. -/
theorem settings_decided_extended :
    ∃ s, ofDirectory extended project = .ok s ∧
      s.overrides = some ⟨["project", "extra.toml"], false⟩ ∧
      s.source = some ⟨["project", "licensekit.toml"], false⟩ := by
  obtain ⟨hFiles, hDirectories, -⟩ := settings_decided extended
  have hOwn : extended.file? (project.descend fileName) =
      .ok (some "catalog_overrides = \"extra.toml\"\n".toUTF8) := rfl
  have hDocument : Toml.readBytes "catalog_overrides = \"extra.toml\"\n".toUTF8 =
      .document [(overridesKey, .text "extra.toml")] :=
    eq_of_onlyText?_eq_some (by decide +kernel)
  have hTable : Selects (project.descend fileName) [(overridesKey, .text "extra.toml")]
      [(overridesKey, .text "extra.toml")] := rfl
  have hDecides := hFiles _ _ _ _ hOwn hDocument hTable
  have hOthers (key : String) (hKey : key ≠ overridesKey) :
      Listing.get? [(overridesKey, Value.text "extra.toml")] key = none := by
    simp [Listing.get?_cons, hKey.symm]
  have hPasses (c : Check) : c.Passes extended (project.descend fileName)
      [(overridesKey, .text "extra.toml")] := by
    cases c with
    | keys => simp [Check.Passes, Listing.names, knownKeys]
    | overrides =>
        rintro _ ⟨⟩
        exact ⟨"extra.toml", rfl, rfl, _, rfl⟩
    | namespaces => simp [Check.Passes, hOthers namespacesKey (by decide)]
    | threshold => simp [Check.Passes, hOthers thresholdKey (by decide)]
    | strictness => simp [Check.Passes, hOthers strictnessKey (by decide)]
  obtain ⟨s, hLoaded⟩ := hDecides.accepted.2 hPasses
  have hCarries := hDecides.carried s hLoaded
  obtain ⟨written, hWritten, hOverrides⟩ := hCarries.overridden _ rfl
  obtain rfl := Value.text.inj hWritten
  exact ⟨s, (hDirectories _ _ (.own hOwn)).trans hLoaded, hOverrides, hCarries.source⟩

def misnamed : FileTree := .ofEntries project
  [("licensekit.toml", .file "catalog_overrides = \"extra\\u0000.toml\"\n".toUTF8)]

/-- The settings of the project fail the check of the overrides, and none before it, and are not
refused for it. -/
theorem not_refused_misnamed :
    (∃ document t, Toml.readBytes "catalog_overrides = \"extra\\u0000.toml\"\n".toUTF8 =
        .document document ∧ Selects (project.descend fileName) document t ∧
      Check.overrides.FailsFirst misnamed (project.descend fileName) t) ∧
    ofFile misnamed (project.descend fileName) =
      .error (.unreachable ⟨["project", "extra\x00.toml"], false⟩ .zeroCharacter) := by
  have hDocument : Toml.readBytes "catalog_overrides = \"extra\\u0000.toml\"\n".toUTF8 =
      .document [(overridesKey, .text "extra\x00.toml")] :=
    eq_of_onlyText?_eq_some (by decide +kernel)
  have hOwn : misnamed.file? (project.descend fileName) =
      .ok (some "catalog_overrides = \"extra\\u0000.toml\"\n".toUTF8) := rfl
  have hTable : Selects (project.descend fileName) [(overridesKey, .text "extra\x00.toml")]
      [(overridesKey, .text "extra\x00.toml")] := rfl
  have hKeys : Check.keys.Passes misnamed (project.descend fileName)
      [(overridesKey, .text "extra\x00.toml")] := by
    simp [Check.Passes, Listing.names, knownKeys]
  have hNamespaces : Check.namespaces.Passes misnamed (project.descend fileName)
      [(overridesKey, .text "extra\x00.toml")] := by
    have hNone : Listing.get? [(overridesKey, Value.text "extra\x00.toml")] namespacesKey = none :=
      rfl
    simp [Check.Passes, hNone]
  refine ⟨⟨_, _, hDocument, hTable, ?_, fun earlier hEarlier => ?_⟩, ?_⟩
  · intro hPasses
    obtain ⟨written, hWritten, hZero, -⟩ := hPasses _ rfl
    obtain rfl := Value.text.inj hWritten
    revert hZero
    decide
  · cases earlier with
    | keys => exact hKeys
    | namespaces => exact hNamespaces
    | _ => exact absurd hEarlier (by decide)
  · rw [ofFile_of_file? hOwn, ofBytes_of_selects hDocument hTable]
    exact ofTable_of_overridesOf_error hKeys hNamespaces rfl

end Licensing.Settings
