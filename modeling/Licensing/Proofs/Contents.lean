import Licensing.Proofs.Catalog.Overlay
import Licensing.Proofs.Settings.Selection

/-!
What the bytes of a file can lead to. A file that is there, whatever its bytes, gives settings or a
catalog or is refused with a reason, unless its bytes cannot be read at all, or settings are given
that cannot even be looked up or shown.
-/

namespace Licensing

/-- The bytes are no text, or the text has an integer with too many digits. -/
inductive Unreadable (bytes : ByteArray) : Prop where
  | undecodable (h : ¬ bytes.IsValidUTF8)
  | oversized {digits : Nat} (h : Toml.readBytes bytes = .flawed (.oversized digits))

/-- Bytes are refused as no text just when they are not UTF-8. -/
theorem readBytes_eq_undecodable_iff {bytes : ByteArray} :
    Toml.readBytes bytes = .undecodable ↔ ¬ bytes.IsValidUTF8 := by
  unfold Toml.readBytes String.fromUTF8?
  by_cases h : bytes.IsValidUTF8
  · rw [dif_pos h]
    dsimp only
    split <;> simp [h]
  · simp [h]

theorem unreadable_iff {bytes : ByteArray} :
    Unreadable bytes ↔ Toml.readBytes bytes = .undecodable ∨
      ∃ digits, Toml.readBytes bytes = .flawed (.oversized digits) := by
  rw [readBytes_eq_undecodable_iff]
  constructor
  · rintro (h | h)
    · exact .inl h
    · exact .inr ⟨_, h⟩
  · rintro (h | ⟨digits, h⟩)
    · exact .undecodable h
    · exact .oversized h

theorem Unreadable.ne_document {bytes : ByteArray} {document : Toml.Table} (h : Unreadable bytes) :
    Toml.readBytes bytes ≠ .document document := by
  rcases unreadable_iff.1 h with h | ⟨digits, h⟩ <;> simp [h]

theorem Unreadable.ne_malformed {bytes : ByteArray} (h : Unreadable bytes) :
    Toml.readBytes bytes ≠ .flawed .malformed := by
  rcases unreadable_iff.1 h with h | ⟨digits, h⟩ <;> simp [h]

namespace Settings

/-- There are settings, or a reason why they are refused. -/
def Answered (path : FilePath) (result : Except Failure Settings) : Prop :=
  (∃ s, result = .ok s) ∨ ∃ cause, result = .error (.refused path cause)

/-- What the bytes of a file hold cannot be read, or the first check of its table that fails is
stuck. -/
inductive Escapes (tree : FileTree) (path : FilePath) (bytes : ByteArray) : Prop where
  | unreadable (h : Unreadable bytes)
  | stuck {document t : Toml.Table} {c : Check}
      (hDocument : Toml.readBytes bytes = .document document) (hTable : Selects path document t)
      (hFirst : c.FailsFirst tree path t) (hStuck : c.Stuck tree path t)

/-- A table has an answer unless the first check that fails is stuck. -/
theorem answered_ofTable_iff {tree : FileTree} {path : FilePath} {t : Toml.Table} :
    Answered path (ofTable tree path t) ↔
      ∀ c : Check, c.FailsFirst tree path t → ¬ c.Stuck tree path t := by
  constructor
  · intro hAnswered c hFirst
    obtain ⟨failure, hFailed, hWith⟩ := ofTable_of_failsFirst hFirst
    rw [hFailed] at hAnswered
    obtain ⟨s, hLoaded⟩ | ⟨cause, hRefused⟩ := hAnswered
    · cases hLoaded
    · obtain rfl := Except.error.inj hRefused
      cases hWith with
      | refused hSeen => exact hSeen
      | stuck _ hOther => exact absurd rfl (hOther path cause)
  · intro hSeen
    by_cases hAll : ∀ c : Check, c.Passes tree path t
    · obtain ⟨s, hLoaded, -⟩ := ofTable_of_passes hAll
      exact .inl ⟨s, hLoaded⟩
    · obtain ⟨c, hFirst⟩ := Check.exists_failsFirst hAll
      obtain ⟨cause, -, hRefused⟩ :=
        ((decides_ofTable tree path t).refused c hFirst).2 (hSeen c hFirst)
      exact .inr ⟨cause, hRefused⟩

theorem answered_ofBytes_iff {tree : FileTree} {path : FilePath} {bytes : ByteArray} :
    Answered path (ofBytes tree path bytes) ↔ ¬ Escapes tree path bytes := by
  cases hContent : Toml.readBytes bytes with
  | undecodable =>
      have hUnreadable := unreadable_iff.2 (.inl hContent)
      simp [Answered, ofBytes, hContent, Escapes.unreadable hUnreadable]
  | flawed flaw =>
      cases flaw with
      | malformed =>
          have hReadable : ¬ Escapes tree path bytes := by
            rintro (h | ⟨hDocument, -, -, -⟩)
            · exact h.ne_malformed hContent
            · cases hContent.symm.trans hDocument
          simp [Answered, ofBytes, hContent, hReadable]
      | oversized digits =>
          have hUnreadable := unreadable_iff.2 (.inr ⟨digits, hContent⟩)
          simp [Answered, ofBytes, hContent, Escapes.unreadable hUnreadable]
  | document document =>
      have hEscapes : Escapes tree path bytes ↔ ∃ t, Selects path document t ∧
          ∃ c : Check, c.FailsFirst tree path t ∧ c.Stuck tree path t := by
        constructor
        · rintro (h | ⟨hDocument, hTable, hFirst, hStuck⟩)
          · exact absurd hContent h.ne_document
          · obtain rfl := Toml.Content.document.inj (hContent.symm.trans hDocument)
            exact ⟨_, hTable, _, hFirst, hStuck⟩
        · rintro ⟨t, hTable, c, hFirst, hStuck⟩
          exact .stuck hContent hTable hFirst hStuck
      rw [hEscapes]
      simp only [← tableOf_eq_some_iff]
      cases hTable : tableOf path document with
      | error cause => simp [Answered, ofBytes, hContent, hTable]
      | ok found =>
          cases found with
          | none => simp [Answered, ofBytes, hContent, hTable]
          | some t => simp [ofBytes, hContent, hTable, answered_ofTable_iff]

end Settings

namespace Catalog

/-- There is a catalog, or a reason why there is none. -/
def Answered (result : Except LoadError Catalog) : Prop :=
  (∃ c, result = .ok c) ∨ (∃ path, result = .error (.malformed path)) ∨
    ∃ problems, result = .error (.invalid problems)

/-- The first file that holds no document, the base before the user's, cannot be read at all. -/
inductive Escapes (base user : Option ByteArray) : Prop where
  | base {bytes : ByteArray} (hFile : base = some bytes) (h : Unreadable bytes)
  | user {bytes : ByteArray}
      (hBase : ∀ earlier, base = some earlier →
        ∃ document, Toml.readBytes earlier = .document document)
      (hFile : user = some bytes) (h : Unreadable bytes)

def Source.ofFile (file : String × ByteArray) : Source :=
  ⟨file.1, Toml.readBytes file.2⟩

inductive Reading (file : Option ByteArray) : Except LoadError Toml.Table → Prop where
  | unreadable {bytes : ByteArray} {e : LoadError} (hFile : file = some bytes)
      (h : Unreadable bytes) (hOther : ¬ Answered (.error e)) : Reading file (.error e)
  | malformed {bytes : ByteArray} {path : String} (hFile : file = some bytes)
      (h : Toml.readBytes bytes = .flawed .malformed) : Reading file (.error (.malformed path))
  | document {document : Toml.Table} (h : ∀ bytes, file = some bytes →
      ∃ document, Toml.readBytes bytes = .document document) : Reading file (.ok document)

theorem reading_document (file : Option (String × ByteArray)) (default : Toml.Table) :
    Reading (file.map Prod.snd)
      ((file.map Source.ofFile).elim (.ok default) Source.document) := by
  cases file with
  | none => exact .document nofun
  | some file =>
      obtain ⟨path, bytes⟩ := file
      simp only [Option.map_some, Option.elim_some, Source.document, Source.ofFile]
      cases hContent : Toml.readBytes bytes with
      | undecodable => exact .unreadable rfl (unreadable_iff.2 (.inl hContent)) (by simp [Answered])
      | flawed flaw =>
          cases flaw with
          | malformed => exact .malformed rfl hContent
          | oversized digits =>
              exact .unreadable rfl (unreadable_iff.2 (.inr ⟨digits, hContent⟩))
                (by simp [Answered])
      | document document =>
          refine .document ?_
          rintro _ ⟨⟩
          exact ⟨document, hContent⟩

/-- The base is read first: when it cannot be read the user's file does not matter. -/
theorem ofSources_of_base_error {base user : Option Source} {e : LoadError}
    (h : base.elim (.ok builtinDocument) Source.document = .error e) :
    ofSources base user = .error e := by
  simp [ofSources, h]

theorem ofSources_of_user_error {base user : Option Source} {baseDocument : Toml.Table}
    {e : LoadError} (hBase : base.elim (.ok builtinDocument) Source.document = .ok baseDocument)
    (h : user.elim (.ok []) Source.document = .error e) : ofSources base user = .error e := by
  cases user with
  | none => cases h
  | some source =>
      have hSource : source.document = .error e := h
      simp [ofSources, hBase, hSource]

/-- Documents that can be read always have an answer, valid or not. -/
theorem answered_load_of_documents {base user : Option Source}
    {baseDocument userDocument : Toml.Table}
    (hBase : base.elim (.ok builtinDocument) Source.document = .ok baseDocument)
    (hUser : user.elim (.ok []) Source.document = .ok userDocument) :
    Answered (ofSources base user) := by
  obtain ⟨layer, -, hSources⟩ := exists_ofSources_eq hBase hUser
  rw [hSources]
  cases build baseDocument layer with
  | ok c => exact .inl ⟨c, rfl⟩
  | error problems => exact .inr (.inr ⟨problems, rfl⟩)

/-- Loading has an answer just when no file escapes. -/
theorem answered_load_iff {base user : Option (String × ByteArray)} :
    Answered (load (base.map Source.ofFile) (user.map Source.ofFile)).value ↔
      ¬ Escapes (base.map Prod.snd) (user.map Prod.snd) := by
  have hBase := reading_document base builtinDocument
  have hUser := reading_document user []
  rw [value_load]
  generalize hFirst : (base.map Source.ofFile).elim (.ok builtinDocument) Source.document = first
    at hBase
  generalize hSecond : (user.map Source.ofFile).elim (.ok []) Source.document = second at hUser
  cases hBase with
  | unreadable hFile h hOther =>
      rw [ofSources_of_base_error hFirst]
      exact ⟨fun hAnswered => absurd hAnswered hOther, fun hNone => absurd (.base hFile h) hNone⟩
  | malformed hFile h =>
      rw [ofSources_of_base_error hFirst]
      refine ⟨fun _ => ?_, fun _ => .inr (.inl ⟨_, rfl⟩)⟩
      rintro (⟨hSame, hUnreadable⟩ | ⟨hDocument, -, -⟩)
      · obtain rfl := Option.some.inj (hFile.symm.trans hSame)
        exact hUnreadable.ne_malformed h
      · obtain ⟨document, hDocument⟩ := hDocument _ hFile
        cases h.symm.trans hDocument
  | document hDocument =>
      have hNotBase {bytes : ByteArray} (hFile : base.map Prod.snd = some bytes) :
          ¬ Unreadable bytes := fun hUnreadable => by
        obtain ⟨document, hRead⟩ := hDocument bytes hFile
        exact hUnreadable.ne_document hRead
      cases hUser with
      | unreadable hFile h hOther =>
          rw [ofSources_of_user_error hFirst hSecond]
          exact ⟨fun hAnswered => absurd hAnswered hOther,
            fun hNone => absurd (.user hDocument hFile h) hNone⟩
      | malformed hFile h =>
          rw [ofSources_of_user_error hFirst hSecond]
          refine ⟨fun _ => ?_, fun _ => .inr (.inl ⟨_, rfl⟩)⟩
          rintro (⟨hSame, hUnreadable⟩ | ⟨-, hSame, hUnreadable⟩)
          · exact hNotBase hSame hUnreadable
          · obtain rfl := Option.some.inj (hFile.symm.trans hSame)
            exact hUnreadable.ne_malformed h
      | document hLater =>
          refine ⟨fun _ => ?_, fun _ => answered_load_of_documents hFirst hSecond⟩
          rintro (⟨hSame, hUnreadable⟩ | ⟨-, hSame, hUnreadable⟩)
          · exact hNotBase hSame hUnreadable
          · obtain ⟨document, hRead⟩ := hLater _ hSame
            exact hUnreadable.ne_document hRead

end Catalog

/-- A file of settings that is there gives settings or is refused, whatever its bytes, unless it
escapes; so do files with catalog data. -/
theorem contents_answered (tree : FileTree) :
    (∀ path bytes, tree.file? path = .ok (some bytes) →
      (Settings.Answered path (Settings.ofFile tree path) ↔ ¬ Settings.Escapes tree path bytes)) ∧
    ∀ base user : Option (String × ByteArray),
      Catalog.Answered
          (Catalog.load (base.map Catalog.Source.ofFile) (user.map Catalog.Source.ofFile)).value ↔
        ¬ Catalog.Escapes (base.map Prod.snd) (user.map Prod.snd) := by
  refine ⟨fun path bytes hFile => ?_, fun base user => Catalog.answered_load_iff⟩
  rw [Settings.ofFile_of_file? hFile]
  exact Settings.answered_ofBytes_iff

/-! ### Files of a project -/

def flaw? : Toml.Content → Option Toml.Flaw
  | .flawed flaw => some flaw
  | _ => none

theorem flaw?_eq_some_iff {content : Toml.Content} {flaw : Toml.Flaw} :
    flaw? content = some flaw ↔ content = .flawed flaw := by
  cases content <;> simp [flaw?]

/-- A project whose settings end in the middle of a value. -/
def unfinished : FileTree := .ofEntries Settings.project
  [("licensekit.toml", .file "strictness =".toUTF8)]

/-- Both loaders refuse the unfinished file. -/
theorem contents_answered_unfinished :
    Settings.Answered (Settings.project.descend Settings.fileName)
        (Settings.ofFile unfinished (Settings.project.descend Settings.fileName)) ∧
      Catalog.Answered (Catalog.load
        (some (Catalog.Source.ofFile ("catalog.toml", "strictness =".toUTF8))) none).value := by
  obtain ⟨hSettings, hCatalog⟩ := contents_answered unfinished
  have hFlaw : Toml.readBytes "strictness =".toUTF8 = .flawed .malformed :=
    flaw?_eq_some_iff.1 (by decide +kernel)
  refine ⟨(hSettings _ "strictness =".toUTF8 rfl).2 ?_,
    (hCatalog (some ("catalog.toml", "strictness =".toUTF8)) none).2 ?_⟩
  · rintro (h | ⟨hDocument, -, -, -⟩)
    · exact h.ne_malformed hFlaw
    · cases hFlaw.symm.trans hDocument
  · rintro (⟨⟨⟩, h⟩ | ⟨-, ⟨⟩, -⟩)
    exact h.ne_malformed hFlaw

def lostByte : ByteArray := ⟨#[0xff]⟩

def garbled : FileTree := .ofEntries Settings.project [("licensekit.toml", .file lostByte)]

/-- Neither loader has a reason of its own for bytes that are no text. -/
theorem not_answered_garbled :
    Settings.ofFile garbled (Settings.project.descend Settings.fileName) = .error .undecodable ∧
      (Catalog.load (some (Catalog.Source.ofFile ("catalog.toml", lostByte))) none).value =
        .error .undecodable := by
  have hContent : Toml.readBytes lostByte = .undecodable :=
    readBytes_eq_undecodable_iff.2 (by decide +kernel)
  constructor
  · rw [@Settings.ofFile_of_file? garbled _ lostByte rfl, Settings.ofBytes, hContent]
  · simp [Catalog.value_load, Catalog.ofSources, Catalog.Source.document, Catalog.Source.ofFile,
      hContent]

end Licensing
