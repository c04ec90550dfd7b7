import Mathlib.Tactic.ByContra
import Licensing.Containers
import Licensing.Settings

/-!
Which tables of settings are accepted. A table has five checks to pass, each of which looks at one
key of it, or at all of them, and at nothing that another check has found. The settings carry what
the table gives; a table that fails is refused for the first check that it fails, as far as that can
be said of it at all.
-/

namespace Licensing.Settings

open Toml (Value Table)

/-- The checks of a table, in their order. -/
inductive Check where
  | keys
  | namespaces
  | overrides
  | threshold
  | strictness
  deriving DecidableEq, Repr

def NamesFile (tree : FileTree) (named : FilePath) : Prop :=
  named.hasZero = false ∧ ∃ bytes, tree.file? named.resolve = .ok (some bytes)

namespace Check

def rank : Check → Nat
  | keys => 0
  | namespaces => 1
  | overrides => 2
  | threshold => 3
  | strictness => 4

/-- The table of a file has nothing that the check objects to. -/
def Passes (tree : FileTree) (path : FilePath) (t : Table) : Check → Prop
  | keys => ∀ key ∈ t.names, key ∈ knownKeys
  | namespaces => ∀ v, t.get? namespacesKey = some v →
    ∃ names : List String, (∀ name ∈ names, name ≠ "") ∧ v = .array (names.map .text)
  | overrides => ∀ v, t.get? overridesKey = some v →
    ∃ written, v = .text written ∧ NamesFile tree (path.parent.descend written)
  | threshold => ∀ v, t.get? thresholdKey = some v → ∃ n, v = .integer n ∧ 1 ≤ n
  | strictness => ∀ v, t.get? strictnessKey = some v →
    ∃ strictness : Strictness, v = .text strictness.name

/-- What the check is about cannot be looked up or shown: a path that no file can have, or a value
with an integer that has too many digits. -/
def Stuck (tree : FileTree) (path : FilePath) (t : Table) : Check → Prop
  | overrides => ∃ written, t.get? overridesKey = some (.text written) ∧
    ((path.parent.descend written).hasZero = true ∨
      tree.file? (path.parent.descend written).resolve = .error .tooLong)
  | strictness => ∃ v, t.get? strictnessKey = some v ∧ v.showable = false
  | keys | namespaces | threshold => False

/-- The cause that is given when a check fails. -/
inductive Explains (path : FilePath) (t : Table) : Check → Cause → Prop where
  | keys {unknown : List String} (h : ∀ key, key ∈ unknown ↔ key ∈ t.names ∧ key ∉ knownKeys)
      (hSorted : unknown.Pairwise (· ≤ ·)) : Explains path t keys (.unknownKeys unknown)
  | namespaces : Explains path t namespaces .namespacesInvalid
  | overridesNotText {v : Value} (h : t.get? overridesKey = some v) (hKind : ∀ s, v ≠ .text s) :
      Explains path t overrides (.overridesNotText v.kindName)
  | overridesMissing {written : String} (h : t.get? overridesKey = some (.text written)) :
      Explains path t overrides (.overridesMissing (path.parent.descend written).resolve)
  | threshold : Explains path t threshold .thresholdInvalid
  | strictness {v : Value} (h : t.get? strictnessKey = some v) :
      Explains path t strictness (.strictnessInvalid v.display)

/-- The failure of a check: its cause, or anything else where it is stuck. -/
inductive FailsWith (tree : FileTree) (path : FilePath) (t : Table) (c : Check) :
    Failure → Prop where
  | refused {cause : Cause} (hSeen : ¬ c.Stuck tree path t) (h : c.Explains path t cause) :
      FailsWith tree path t c (.refused path cause)
  | stuck {failure : Failure} (h : c.Stuck tree path t)
      (hOther : ∀ place cause, failure ≠ .refused place cause) : FailsWith tree path t c failure

def FailsFirst (tree : FileTree) (path : FilePath) (t : Table) (c : Check) : Prop :=
  ¬ c.Passes tree path t ∧ ∀ earlier : Check, earlier.rank < c.rank → earlier.Passes tree path t

variable {tree : FileTree} {path : FilePath} {t : Table}

/-- Of the checks that fail one comes first. -/
theorem exists_failsFirst (h : ¬ ∀ c : Check, c.Passes tree path t) :
    ∃ c : Check, c.FailsFirst tree path t := by
  obtain ⟨c, hFails⟩ := not_forall.1 h
  -- Going back to an earlier check that fails lowers the rank.
  induction hRank : c.rank using Nat.strongRecOn generalizing c with
  | _ rank ih =>
      by_cases hEarlier : ∀ earlier : Check, earlier.rank < c.rank → earlier.Passes tree path t
      · exact ⟨c, hFails, hEarlier⟩
      · simp only [not_forall] at hEarlier
        obtain ⟨earlier, hBefore, hOther⟩ := hEarlier
        exact ih earlier.rank (hRank ▸ hBefore) earlier hOther rfl

end Check

/-- The settings carry what the table of a file gives, and defaults for what it does not give. -/
structure Carries (path : FilePath) (t : Table) (s : Settings) : Prop where
  namespaces : (t.get? namespacesKey).getD (.array (Reference.defaultNamespaces.map .text)) =
    .array (s.namespaces.map .text)
  overrides : t.get? overridesKey = none → s.overrides = none
  overridden : ∀ v, t.get? overridesKey = some v →
    ∃ written, v = .text written ∧ s.overrides = some (path.parent.descend written).resolve
  threshold : (t.get? thresholdKey).getD (.integer NormalForm.defaultThreshold) =
    .integer s.threshold
  strictness : (t.get? strictnessKey).getD (.text Strictness.allowAny.name) =
    .text s.strictness.name
  source : s.source = some path

/-! ### One check -/

section

variable {tree : FileTree} {path : FilePath} {t : Table}

theorem mem_unknownKeys_iff {key : String} :
    key ∈ unknownKeys t ↔ key ∈ t.names ∧ key ∉ knownKeys := by
  simp [unknownKeys]

theorem unknownKeys_eq_nil_iff : unknownKeys t = [] ↔ Check.keys.Passes tree path t := by
  simp only [List.eq_nil_iff_forall_not_mem, mem_unknownKeys_iff, not_and, not_not, Check.Passes]

/-- Unknown keys are reported in order, not as they stand in the file. -/
theorem sorted_unknownKeys (t : Table) : (unknownKeys t).Pairwise (· ≤ ·) := by
  have trans (a b c : String) (hab : decide (a ≤ b) = true) (hbc : decide (b ≤ c) = true) :
      decide (a ≤ c) = true :=
    decide_eq_true (String.le_trans (of_decide_eq_true hab) (of_decide_eq_true hbc))
  have total (a b : String) : (decide (a ≤ b) || decide (b ≤ a)) = true := by
    simpa using String.le_total a b
  exact (List.pairwise_mergeSort trans total _).imp of_decide_eq_true

theorem text?_eq_some_iff {v : Value} {s : String} : v.text? = some s ↔ v = .text s := by
  cases v <;> simp [Value.text?]

theorem mapM_nonEmpty_eq_some_iff {items : List Value} {names : List String} :
    (items.mapM fun item => item.text?.filter (· ≠ "")) = some names ↔
      (∀ name ∈ names, name ≠ "") ∧ items = names.map .text := by
  induction items generalizing names with
  | nil => cases names <;> simp
  | cons item rest ih =>
      rw [List.mapM_cons]
      constructor
      · intro h
        obtain ⟨name, hName, h⟩ := Option.bind_eq_some_iff.1 h
        obtain ⟨others, hOthers, h⟩ := Option.bind_eq_some_iff.1 h
        obtain rfl := Option.some.inj h
        obtain ⟨hText, hNonempty⟩ := Option.filter_eq_some_iff.1 hName
        obtain ⟨hAll, rfl⟩ := ih.1 hOthers
        obtain rfl := text?_eq_some_iff.1 hText
        simpa using ⟨by simpa using hNonempty, hAll⟩
      · rintro ⟨hAll, hItems⟩
        cases names with
        | nil => cases hItems
        | cons name others =>
            obtain ⟨rfl, hRest⟩ := List.cons.inj hItems
            obtain ⟨hName, hOthers⟩ := List.forall_mem_cons.1 hAll
            have hFirst : (Value.text name).text?.filter (· ≠ "") = some name := by
              simp [Value.text?, Option.filter, hName]
            rw [hFirst, ih.2 ⟨hOthers, hRest⟩]
            rfl

/-- Only an array of texts, none of them empty, is read as a list of names, and as the list that it
writes. -/
theorem nonEmptyTexts?_eq_some_iff {v : Value} {names : List String} :
    nonEmptyTexts? v = some names ↔
      (∀ name ∈ names, name ≠ "") ∧ v = .array (names.map .text) := by
  cases v with
  | array items => rw [nonEmptyTexts?, mapM_nonEmpty_eq_some_iff, Value.array.injEq]
  | _ => simp [nonEmptyTexts?]

theorem name_of_ofName? {name : String} {strictness : Strictness}
    (h : Strictness.ofName? name = some strictness) : strictness.name = name := by
  simpa using List.find?_some h

/-- Only a path that is too long keeps a file from being looked for. -/
theorem eq_tooLong_of_file?_eq_error {tree : FileTree} {p : FilePath} {obstacle : Obstacle}
    (h : tree.file? p = .error obstacle) : obstacle = .tooLong := by
  unfold FileTree.file? at h
  split at h
  · cases h
  · exact (Except.error.inj h).symm
  · cases h

/-! Whether a check passes decides what is read for it. -/

theorem namespacesOf_of_passes (h : Check.namespaces.Passes tree path t) :
    ∃ names, namespacesOf t = .ok names ∧
      (t.get? namespacesKey).getD (.array (Reference.defaultNamespaces.map .text)) =
        .array (names.map .text) := by
  unfold namespacesOf
  cases hGiven : t.get? namespacesKey with
  | none => exact ⟨_, rfl, rfl⟩
  | some v =>
      obtain ⟨names, hNames, rfl⟩ := h v hGiven
      exact ⟨names, by simp only [nonEmptyTexts?_eq_some_iff.2 ⟨hNames, rfl⟩], rfl⟩

theorem namespacesOf_of_not_passes (h : ¬ Check.namespaces.Passes tree path t) :
    namespacesOf t = .error .namespacesInvalid := by
  simp only [Check.Passes, not_forall] at h
  obtain ⟨v, hGiven, hOther⟩ := h
  have hNone : nonEmptyTexts? v = none := Option.eq_none_iff_forall_ne_some.2 fun names hNames =>
    hOther ⟨names, nonEmptyTexts?_eq_some_iff.1 hNames⟩
  simp only [namespacesOf, hGiven, hNone]

/-- Overrides that are given are resolved against the directory of the file that gives them, and
only then must name a file. -/
theorem overridesOf_of_passes (h : Check.overrides.Passes tree path t) :
    ∃ overrides, overridesOf tree path t = .ok overrides ∧
      (t.get? overridesKey = none → overrides = none) ∧
      ∀ v, t.get? overridesKey = some v → ∃ written, v = .text written ∧
        overrides = some (path.parent.descend written).resolve := by
  unfold overridesOf
  cases hGiven : t.get? overridesKey with
  | none => exact ⟨none, rfl, fun _ => rfl, nofun⟩
  | some v =>
      obtain ⟨written, rfl, hZero, bytes, hFile⟩ := h v hGiven
      refine ⟨some (path.parent.descend written).resolve, ?_, nofun, ?_⟩
      · simp [hZero, lookUp, hFile]
      · rintro _ ⟨⟩
        exact ⟨written, rfl, rfl⟩

/-- Overrides that are no text or name no file are refused. A path that no file can have fails as
well, but not with a cause. -/
theorem overridesOf_of_not_passes (h : ¬ Check.overrides.Passes tree path t) :
    ∃ failure, overridesOf tree path t = .error failure ∧
      Check.overrides.FailsWith tree path t failure := by
  simp only [Check.Passes, not_forall] at h
  obtain ⟨v, hGiven, hOther⟩ := h
  by_cases hText : ∃ written, v = .text written
  · obtain ⟨written, rfl⟩ := hText
    have hStuck : Check.overrides.Stuck tree path t ↔
        (path.parent.descend written).hasZero = true ∨
          tree.file? (path.parent.descend written).resolve = .error .tooLong := by
      simp [Check.Stuck, hGiven]
    cases hZero : (path.parent.descend written).hasZero with
    | true =>
        refine ⟨.unreachable (path.parent.descend written) .zeroCharacter, ?_,
          .stuck (hStuck.2 (.inl hZero)) (fun _ _ => nofun)⟩
        simp [overridesOf, hGiven, hZero]
    | false =>
        cases hFound : tree.file? (path.parent.descend written).resolve with
        | error obstacle =>
            obtain rfl := eq_tooLong_of_file?_eq_error hFound
            refine ⟨.unreachable (path.parent.descend written).resolve .tooLong, ?_,
              .stuck (hStuck.2 (.inr hFound)) (fun _ _ => nofun)⟩
            simp [overridesOf, hGiven, hZero, lookUp, hFound]
        | ok found =>
            cases found with
            | some bytes => exact absurd ⟨written, rfl, hZero, bytes, hFound⟩ hOther
            | none =>
                have hSeen : ¬ Check.overrides.Stuck tree path t := by simp [hStuck, hZero, hFound]
                refine ⟨_, ?_, .refused hSeen (.overridesMissing hGiven)⟩
                simp [overridesOf, hGiven, hZero, lookUp, hFound]
  · have hKind (s : String) : v ≠ .text s := fun hs => hText ⟨s, hs⟩
    have hSeen : ¬ Check.overrides.Stuck tree path t := by
      rintro ⟨written, hWritten, -⟩
      exact hKind written (Option.some.inj (hGiven.symm.trans hWritten))
    refine ⟨_, ?_, .refused hSeen (.overridesNotText hGiven hKind)⟩
    cases v with
    | text s => exact absurd rfl (hKind s)
    | _ => simp [overridesOf, hGiven]

theorem thresholdOf_of_passes (h : Check.threshold.Passes tree path t) :
    ∃ threshold, thresholdOf t = .ok threshold ∧
      (t.get? thresholdKey).getD (.integer NormalForm.defaultThreshold) = .integer threshold := by
  unfold thresholdOf
  cases hGiven : t.get? thresholdKey with
  | none => exact ⟨_, rfl, rfl⟩
  | some v =>
      obtain ⟨n, rfl, hn⟩ := h v hGiven
      exact ⟨n, if_pos hn, rfl⟩

theorem thresholdOf_of_not_passes (h : ¬ Check.threshold.Passes tree path t) :
    thresholdOf t = .error .thresholdInvalid := by
  simp only [Check.Passes, not_forall] at h
  obtain ⟨v, hGiven, hOther⟩ := h
  unfold thresholdOf
  rw [hGiven]
  cases v with
  | integer n => exact if_neg fun hn => hOther ⟨n, rfl, hn⟩
  | _ => rfl

theorem strictnessOf_of_passes (h : Check.strictness.Passes tree path t) :
    ∃ strictness, strictnessOf path t = .ok strictness ∧
      (t.get? strictnessKey).getD (.text Strictness.allowAny.name) = .text strictness.name := by
  unfold strictnessOf
  cases hGiven : t.get? strictnessKey with
  | none => exact ⟨_, rfl, rfl⟩
  | some v =>
      obtain ⟨strictness, rfl⟩ := h v hGiven
      exact ⟨strictness, by simp [Value.text?], rfl⟩

/-- A strictness of any other value is refused, with the value in the message where it can be shown.
-/
theorem strictnessOf_of_not_passes (h : ¬ Check.strictness.Passes tree path t) :
    ∃ failure, strictnessOf path t = .error failure ∧
      Check.strictness.FailsWith tree path t failure := by
  simp only [Check.Passes, not_forall] at h
  obtain ⟨v, hGiven, hOther⟩ := h
  have hNone : v.text?.bind Strictness.ofName? = none := by
    refine Option.eq_none_iff_forall_ne_some.2 fun strictness hFound => ?_
    obtain ⟨name, hName, hStrictness⟩ := Option.bind_eq_some_iff.1 hFound
    obtain rfl := text?_eq_some_iff.1 hName
    exact hOther ⟨strictness, by rw [name_of_ofName? hStrictness]⟩
  have hStuck : Check.strictness.Stuck tree path t ↔ v.showable = false := by
    simp [Check.Stuck, hGiven]
  cases hShown : v.showable with
  | true =>
      refine ⟨_, ?_, .refused (by simp [hStuck, hShown]) (.strictness hGiven)⟩
      simp [strictnessOf, hGiven, hNone, hShown]
  | false =>
      refine ⟨.unshowable, ?_, .stuck (hStuck.2 hShown) (fun _ _ => nofun)⟩
      simp [strictnessOf, hGiven, hNone, hShown]

/-! ### All checks -/

/-- A table that all checks pass gives settings, and they carry what it gives. -/
theorem ofTable_of_passes (h : ∀ c : Check, c.Passes tree path t) :
    ∃ s, ofTable tree path t = .ok s ∧ Carries path t s := by
  obtain ⟨names, hNames, hNamespaces⟩ := namespacesOf_of_passes (h .namespaces)
  obtain ⟨overrides, hOverrides, hAbsent, hGiven⟩ := overridesOf_of_passes (h .overrides)
  obtain ⟨threshold, hThreshold, hInteger⟩ := thresholdOf_of_passes (h .threshold)
  obtain ⟨strictness, hStrictness, hName⟩ := strictnessOf_of_passes (h .strictness)
  have hKnown := unknownKeys_eq_nil_iff.2 (h .keys)
  refine ⟨⟨names, overrides, threshold, strictness, some path⟩, ?_,
    hNamespaces, hAbsent, hGiven, hInteger, hName, rfl⟩
  simp [ofTable, hKnown, hNames, hOverrides, hThreshold, hStrictness]
  rfl

/-- What is found of the overrides when the checks before theirs pass and theirs does not is what is
found of the table. -/
theorem ofTable_of_overridesOf_error {failure : Failure} (hKeys : Check.keys.Passes tree path t)
    (hNamespaces : Check.namespaces.Passes tree path t)
    (h : overridesOf tree path t = .error failure) : ofTable tree path t = .error failure := by
  have hKnown := unknownKeys_eq_nil_iff.2 hKeys
  obtain ⟨names, hNames, -⟩ := namespacesOf_of_passes hNamespaces
  simp [ofTable, hKnown, hNames, h]
  rfl

/-- A table is refused for the first check that fails, whatever the checks behind it would say. With
`ofTable_of_passes` this decides every table. -/
theorem ofTable_of_failsFirst {c : Check} (h : c.FailsFirst tree path t) :
    ∃ failure, ofTable tree path t = .error failure ∧ c.FailsWith tree path t failure := by
  obtain ⟨hFails, hEarlier⟩ := h
  -- What the earlier checks read, for each place at which a check can fail first.
  have hKnown (hRank : Check.keys.rank < c.rank) : unknownKeys t = [] :=
    unknownKeys_eq_nil_iff.2 (hEarlier .keys hRank)
  have hNames (hRank : Check.namespaces.rank < c.rank) : ∃ names, namespacesOf t = .ok names :=
    (namespacesOf_of_passes (hEarlier .namespaces hRank)).imp fun _ => And.left
  have hOverrides (hRank : Check.overrides.rank < c.rank) :
      ∃ overrides, overridesOf tree path t = .ok overrides :=
    (overridesOf_of_passes (hEarlier .overrides hRank)).imp fun _ => And.left
  have hThreshold (hRank : Check.threshold.rank < c.rank) :
      ∃ threshold, thresholdOf t = .ok threshold :=
    (thresholdOf_of_passes (hEarlier .threshold hRank)).imp fun _ => And.left
  cases c with
  | keys =>
      have hUnknown : unknownKeys t ≠ [] := fun hNil => hFails (unknownKeys_eq_nil_iff.1 hNil)
      refine ⟨_, ?_, .refused id (.keys (fun _ => mem_unknownKeys_iff) (sorted_unknownKeys t))⟩
      simp [ofTable, hUnknown]
      rfl
  | namespaces =>
      refine ⟨_, ?_, .refused id .namespaces⟩
      simp [ofTable, hKnown (by decide), namespacesOf_of_not_passes hFails]
      rfl
  | overrides =>
      obtain ⟨failure, hFailure, hWith⟩ := overridesOf_of_not_passes hFails
      exact ⟨failure, ofTable_of_overridesOf_error (hEarlier .keys (by decide))
        (hEarlier .namespaces (by decide)) hFailure, hWith⟩
  | threshold =>
      obtain ⟨names, hNames⟩ := hNames (by decide)
      obtain ⟨overrides, hOverrides⟩ := hOverrides (by decide)
      refine ⟨_, ?_, .refused id .threshold⟩
      simp [ofTable, hKnown (by decide), hNames, hOverrides, thresholdOf_of_not_passes hFails]
      rfl
  | strictness =>
      obtain ⟨names, hNames⟩ := hNames (by decide)
      obtain ⟨overrides, hOverrides⟩ := hOverrides (by decide)
      obtain ⟨threshold, hThreshold⟩ := hThreshold (by decide)
      obtain ⟨failure, hFailure, hWith⟩ := strictnessOf_of_not_passes hFails
      refine ⟨failure, ?_, hWith⟩
      simp [ofTable, hKnown (by decide), hNames, hOverrides, hThreshold, hFailure]
      rfl

end

end Licensing.Settings
