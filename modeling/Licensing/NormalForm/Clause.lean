import Licensing.Distinct
import Licensing.Expr.Render

/-!
Terms and clauses. A term is a license, possibly with an exception; a clause is a set of terms that
hold together; a set of clauses leaves the choice of one. Sets are lists in which no element occurs
twice, compared without regard to order. Deprecation flags are no part of the comparison: of two
terms that differ in them only, the first one stays.
-/

namespace Licensing

/-- A license with the exception that is attached to it, if any. -/
structure Term where
  license : License
  exception : Option LicenseException := none
  deriving DecidableEq, Repr

namespace Term

/-- The term without deprecation flags. -/
def bare (t : Term) : Term where
  license := t.license.bare
  exception := t.exception.map LicenseException.bare

/-- Whether two terms differ in deprecation flags at most. -/
def same (t u : Term) : Bool :=
  t.bare = u.bare

def orLater (t : Term) : Bool :=
  t.license.orLater

/-- Whether the license or the exception is deprecated. -/
def deprecated (t : Term) : Bool :=
  t.license.deprecated || t.exception.any (·.deprecated)

def toExpr (t : Term) : Expr :=
  match t.exception with
  | none => .license t.license
  | some x => .join (.license t.license) .attach (.exception x)

def text (t : Term) : String :=
  t.toExpr.render

/-- The term with an exception in place of its own. -/
def grant (x : LicenseException) (t : Term) : Term :=
  { t with exception := some x }

end Term

/-- Terms that hold together. -/
abbrev Clause := List Term

namespace Clause

def same (c d : Clause) : Bool :=
  c.all (fun t => d.any t.same) && d.all (fun t => c.any t.same)

def union (c d : Clause) : Clause :=
  unionOn Term.same c d

def grant (x : LicenseException) (c : Clause) : Clause :=
  distinctOn Term.same (c.map (Term.grant x))

end Clause

namespace Clauses

def union (cs ds : List Clause) : List Clause :=
  unionOn Clause.same cs ds

/-- Every clause of one set together with every clause of the other. -/
def product (cs ds : List Clause) : List Clause :=
  distinctOn Clause.same (cs.flatMap fun c => ds.map c.union)

def grant (x : LicenseException) (cs : List Clause) : List Clause :=
  distinctOn Clause.same (cs.map (Clause.grant x))

def subset (cs ds : List Clause) : Bool :=
  cs.all fun c => ds.any c.same

end Clauses

end Licensing
