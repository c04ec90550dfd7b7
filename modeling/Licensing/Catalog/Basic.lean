import Licensing.Listing
import Licensing.Text.Quoted

/-!
The catalog: the identifiers of licenses and of license exceptions that are known, with what is
known about each. Identifiers are looked up as they are written; letter case matters.
-/

namespace Licensing

/-- The ending of a deprecated identifier that covers later versions too. -/
def plusSuffix : String := "+"

/-- The ending of a current identifier that covers later versions too. -/
def orLaterSuffix : String := "-or-later"

structure LicenseEntry where
  id : String
  name : String
  /-- The identifier has been superseded. -/
  deprecated : Bool := false
  /-- The license family has an `-or-later` form. -/
  orLaterEligible : Bool := false
  deriving DecidableEq, Repr

structure ExceptionEntry where
  id : String
  name : String
  deprecated : Bool := false
  deriving DecidableEq, Repr

def displayFlag (b : Bool) : String :=
  if b then "True" else "False"

def LicenseEntry.display (e : LicenseEntry) : String :=
  "SpdxLicense(id=" ++ Text.quoted e.id ++ ", name=" ++ Text.quoted e.name ++ ", deprecated=" ++
    displayFlag e.deprecated ++ ", or_later_eligible=" ++ displayFlag e.orLaterEligible ++ ")"

def ExceptionEntry.display (e : ExceptionEntry) : String :=
  "SpdxLicenseException(id=" ++ Text.quoted e.id ++ ", name=" ++ Text.quoted e.name ++
    ", deprecated=" ++ displayFlag e.deprecated ++ ")"

/-- The licenses and the exceptions that are known, each under the identifier that finds it. -/
structure Catalog where
  licenses : Listing LicenseEntry
  exceptions : Listing ExceptionEntry
  deriving DecidableEq, Repr

namespace Catalog

def license? (c : Catalog) (id : String) : Option LicenseEntry :=
  c.licenses.get? id

def exception? (c : Catalog) (id : String) : Option ExceptionEntry :=
  c.exceptions.get? id

/-- The catalog of the given entries, each under its own identifier. Of two entries with one
identifier the later one counts. -/
def ofEntries (licenses : List LicenseEntry) (exceptions : List ExceptionEntry) : Catalog where
  licenses := licenses.foldl (fun listed e => listed.put e.id e) []
  exceptions := exceptions.foldl (fun listed e => listed.put e.id e) []

def deprecatedLicenses (c : Catalog) : List String :=
  Listing.names (c.licenses.filter fun listed => listed.2.deprecated)

/-- Every entry that is found carries the identifier that finds it. -/
structure Keyed (c : Catalog) : Prop where
  license : ∀ {id : String} {e : LicenseEntry}, c.license? id = some e → e.id = id
  exception : ∀ {id : String} {e : ExceptionEntry}, c.exception? id = some e → e.id = id

theorem keyed_ofEntries (licenses : List LicenseEntry) (exceptions : List ExceptionEntry) :
    (ofEntries licenses exceptions).Keyed where
  license h := Listing.name_of_get?_foldl_put (fun hNone => by cases hNone) h
  exception h := Listing.name_of_get?_foldl_put (fun hNone => by cases hNone) h

end Catalog

end Licensing
