import Licensing.Proofs.Catalog.Loaded
import Licensing.Proofs.Grammar.Composition
import Licensing.Proofs.Grammar.Filtering

/-!
The entries of a catalog as texts. An identifier is looked up by different routes, with a `+` and
without; in a catalog that is loaded each route leads to the entry that has the identifier, and
gives the leaf that the combinators make of the entry.
-/

namespace Licensing

open Token (Spells)

/-- The text is parsed to the tree, except where a strictness refuses what is deprecated. -/
structure Resolves (k : Lookup) (text : String) (e : Expr) (deprecated : Bool) : Prop where
  accepted : (k.strictness = .allowCurrent → deprecated = false) → (parse k text).value = .ok e
  refused : k.strictness = .allowCurrent → deprecated = true →
    ∃ error, (parse k text).value = .error error

theorem LicenseEntry.deprecated_leaf (e : LicenseEntry) :
    e.leaf.deprecated = e.deprecated := by
  obtain ⟨id, orLater, hLeaf⟩ := e.exists_leaf_eq
  rw [hLeaf]
  rfl

theorem LicenseEntry.covers_leaf (e : LicenseEntry) (c : Catalog) : c.Covers (.license e.leaf) := by
  obtain ⟨id, orLater, hLeaf⟩ := e.exists_leaf_eq
  rw [hLeaf]
  trivial

/-- A tree whose leaves are all covered is refused only for one that is deprecated. -/
theorem resolves_of_lenient {k : Lookup} (hKeyed : k.catalog.Keyed) {text : String} {e : Expr}
    (h : (parse k.lenient text).value = .ok e) (hCovered : ∀ l ∈ e.leaves, k.catalog.Covers l) :
    Resolves k text e (e.leaves.any Leaf.deprecated) where
  accepted hStrict := by
    refine (parse_iff_lenient hKeyed).2 ⟨h, fun l hl => ⟨fun _ => hCovered l hl, ?_⟩⟩
    intro hCurrent
    exact Bool.eq_false_iff.2 (List.any_eq_false.1 (hStrict hCurrent) l hl)
  refused hCurrent hDeprecated := by
    obtain ⟨l, hl, hOld⟩ := List.any_eq_true.1 hDeprecated
    cases hParse : (parse k text).value with
    | error error => exact ⟨error, rfl⟩
    | ok f =>
        obtain ⟨hLenient, hAdmits⟩ := (parse_iff_lenient hKeyed).1 hParse
        obtain rfl := Except.ok.inj (h.symm.trans hLenient)
        have hNew := (hAdmits l hl).current hCurrent
        rw [hOld] at hNew
        cases hNew

namespace Catalog.Consistent

variable {c : Catalog}

/-- A license is named by its identifier, taken apart into a name and a `+`. -/
theorem namesLicense (h : c.Consistent) {id value : String} {orLater : Bool} {entry : LicenseEntry}
    (hFound : c.license? id = some entry)
    (hSpelled : Spells (.identifier value orLater) id.toList) :
    Lookup.NamesLicense ⟨c, .allowAny⟩ value orLater entry.leaf := by
  have hAccepted : Strictness.allowAny ≠ .allowCurrent := by decide
  have hFree : c.exception? id = none := h.apart (Option.isSome_of_eq_some hFound)
  generalize hWord : id.toList = word at hSpelled
  cases hSpelled with
  | plain identifier free =>
      rw [← hWord, String.ofList_toList]
      exact .listed hFree hFound fun _ => hAccepted
  | @marked name identifier =>
      have hId : id = String.ofList name ++ plusSuffix := by
        rw [← String.toList_inj, hWord]
        simp [plusSuffix]
      rw [hId] at hFound
      exact .marked hFound (h.plus hFound) hAccepted

theorem namesException (h : c.Consistent) {name value : String} {entry : ExceptionEntry}
    (hFound : c.exception? name = some entry)
    (hSpelled : Spells (.identifier value false) name.toList) :
    Lookup.NamesException ⟨c, .allowAny⟩ value entry.leaf := by
  have hAccepted : Strictness.allowAny ≠ .allowCurrent := by decide
  have hFree : c.license? name = none := by
    rw [← Option.not_isSome_iff_eq_none]
    intro hListed
    have hNone := h.apart hListed
    rw [hFound] at hNone
    cases hNone
  generalize hWord : name.toList = word at hSpelled
  cases hSpelled with
  | plain identifier free =>
      rw [← hWord, String.ofList_toList]
      exact .listed hFree hFound fun _ => hAccepted

end Catalog.Consistent

section

variable {c : Catalog} {id value : String} {orLater : Bool} {license : LicenseEntry}

/-- A license of the catalog is parsed from its identifier, unless it is deprecated and the
strictness refuses that. -/
theorem resolves_license (hConsistent : c.Consistent) (strictness : Strictness)
    (hFound : c.license? id = some license)
    (hSpelled : Spells (.identifier value orLater) id.toList) :
    Resolves ⟨c, strictness⟩ id (.license license.leaf) license.deprecated := by
  have hNames := hConsistent.namesLicense hFound hSpelled
  have hParse : (parse ⟨c, .allowAny⟩ id).value = .ok (.license license.leaf) :=
    parse_eq_ok_iff.2 ⟨_, Token.splits_of_spells 0 hSpelled,
      .conjunction (.granted (.primary (.license hNames)))⟩
  have hCovered : ∀ l ∈ (Expr.license license.leaf).leaves, c.Covers l :=
    List.forall_mem_cons.2 ⟨license.covers_leaf c, List.forall_mem_nil _⟩
  have hResolves := resolves_of_lenient (k := ⟨c, strictness⟩) hConsistent.keyed hParse hCovered
  simpa [Expr.leaves, Leaf.deprecated, license.deprecated_leaf] using hResolves

/-- So is a license with an exception, which is refused when either of them is. -/
theorem resolves_grant (hConsistent : c.Consistent) (strictness : Strictness)
    (hFound : c.license? id = some license)
    (hSpelled : Spells (.identifier value orLater) id.toList) {name word : String}
    {exception : ExceptionEntry} (hException : c.exception? name = some exception)
    (hWord : Spells (.identifier word false) name.toList) :
    Resolves ⟨c, strictness⟩ (id ++ " WITH " ++ name)
      (.join (.license license.leaf) .attach (.exception exception.leaf))
      (license.deprecated || exception.deprecated) := by
  have hNames := hConsistent.namesLicense hFound hSpelled
  have hAttached := hConsistent.namesException hException hWord
  have hText : (id ++ " WITH " ++ name).toList =
      id.toList ++ ' ' :: (Operator.attach.word.toList ++ ' ' :: name.toList) := by
    simp [Operator.word]
  have hSingle : Grammar.Spelled ⟨c, .allowAny⟩ .primary id.toList (.license license.leaf) :=
    fun position => ⟨_, Token.splits_of_spells position hSpelled, .license hNames⟩
  obtain ⟨tokens, place, hDerives, hSplits⟩ :=
    hSingle.exists_attached (Token.splits_of_spells 0 hWord)
  rw [← hText] at hSplits
  have hParse : (parse ⟨c, .allowAny⟩ (id ++ " WITH " ++ name)).value =
      .ok (.join (.license license.leaf) .attach (.exception exception.leaf)) :=
    parse_eq_ok_iff.2 ⟨_, hSplits, .conjunction (.granted (.attach hDerives rfl hAttached))⟩
  have hListed : c.exception? exception.leaf.id ≠ none := by
    have hId : exception.leaf.id = name := hConsistent.keyed.exception hException
    simp [hId, hException]
  have hCovered : ∀ l ∈ (Expr.join (.license license.leaf) .attach
      (.exception exception.leaf)).leaves, c.Covers l :=
    List.forall_mem_cons.2
      ⟨license.covers_leaf c, List.forall_mem_cons.2
        ⟨fun hNone => absurd hNone hListed, List.forall_mem_nil _⟩⟩
  have hResolves := resolves_of_lenient (k := ⟨c, strictness⟩) hConsistent.keyed hParse hCovered
  simpa [Expr.leaves, Leaf.deprecated, license.deprecated_leaf, ExceptionEntry.leaf] using hResolves

/-- In a catalog that is loaded an identifier of a license is parsed to what the combinators make
of the entry, and so is a license with an exception attached; only what is deprecated may be
refused. -/
theorem parse_entries {base user : Option Catalog.Source}
    (h : (Catalog.load base user).value = .ok c) (strictness : Strictness)
    (hFound : c.license? id = some license)
    (hSpelled : Spells (.identifier value orLater) id.toList) :
    Resolves ⟨c, strictness⟩ id (.license license.leaf) license.deprecated ∧
      ∀ name word exception, c.exception? name = some exception →
        Spells (.identifier word false) name.toList →
        ∃ e, Expr.grant (.license license) (.exception exception) = .ok e ∧
          Resolves ⟨c, strictness⟩ (id ++ " WITH " ++ name) e
            (license.deprecated || exception.deprecated) := by
  have hConsistent := Catalog.consistent_of_load h
  refine ⟨resolves_license hConsistent strictness hFound hSpelled, ?_⟩
  intro name word exception hException hWord
  exact ⟨_, rfl, resolves_grant hConsistent strictness hFound hSpelled hException hWord⟩

end

def marked : Toml.Table :=
  [("licenses", .table [("GPL-2.0+", .table [("name", .text "GNU General Public License v2.0+"),
      ("deprecated", .boolean true)])]),
    ("exceptions", .table [("Classpath-exception-2.0",
      .table [("name", .text "Classpath exception 2.0")])])]

/-- The license is found with its `+`, which is not part of its name, and is deprecated. -/
theorem parse_entries_marked :
    let license : LicenseEntry := ⟨"GPL-2.0+", "GNU General Public License v2.0+", true, false⟩
    let exception : ExceptionEntry :=
      ⟨"Classpath-exception-2.0", "Classpath exception 2.0", false⟩
    ∃ c e, (Catalog.load (some ⟨"base", .document marked⟩) none).value = .ok c ∧
      Expr.grant (.license license) (.exception exception) = .ok e ∧
      (parse ⟨c, .allowDeprecated⟩ "GPL-2.0+ WITH Classpath-exception-2.0").value = .ok e ∧
      ∃ error, (parse ⟨c, .allowCurrent⟩ "GPL-2.0+ WITH Classpath-exception-2.0").value =
        .error error := by
  intro license exception
  have hLoad : (Catalog.load (some ⟨"base", .document marked⟩) none).value =
      .ok (.ofEntries [license] [exception]) := by
    rfl
  have hGpl : Spells (.identifier "GPL-2.0" true) "GPL-2.0+".toList :=
    .marked (.run ⟨by decide, List.all_eq_true.1 (by decide)⟩)
  have hName : Spells (.identifier "Classpath-exception-2.0" false)
      "Classpath-exception-2.0".toList :=
    .plain (.run ⟨by decide, List.all_eq_true.1 (by decide)⟩) fun op => by cases op <;> decide
  have hEntries (strictness : Strictness) := parse_entries hLoad strictness rfl hGpl
  obtain ⟨e, hGrant, hAccepted⟩ := (hEntries .allowDeprecated).2 _ _ exception rfl hName
  obtain ⟨f, hSame, hRefused⟩ := (hEntries .allowCurrent).2 _ _ exception rfl hName
  exact ⟨_, e, hLoad, hGrant, hAccepted.accepted nofun, hRefused.refused rfl rfl⟩

end Licensing
