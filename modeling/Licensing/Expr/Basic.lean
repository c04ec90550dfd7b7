import Licensing.Catalog.Basic
import Licensing.Decimal.Digits
import Licensing.Text.Affix

/-!
License expressions: trees whose leaves name licenses, references and exceptions, joined by `OR`,
`AND` and `WITH`. A tree may also have foreign leaves, which are values that mean nothing here; they
can be carried and shown, and everything that reads a tree refuses them.

Two trees are the same when they differ in nothing but the deprecation flags of their leaves;
`Expr.bare` forgets the flags.
-/

namespace Licensing

inductive Operator where
  | or
  | and
  /-- The right operand is an exception that the left one is granted. -/
  | attach
  deriving DecidableEq, Repr

namespace Operator

def word : Operator → String
  | or => "OR"
  | and => "AND"
  | attach => "WITH"

/-- How tightly the operator binds: the greater, the tighter. -/
def strength : Operator → Nat
  | or => 0
  | and => 1
  | attach => 2

end Operator

inductive License where
  /-- One that the catalog lists; its identifier has no `+` at the end any more. -/
  | listed (id : String) (orLater : Bool) (deprecated : Bool)
  /-- One that is carried as it was written. -/
  | reference (raw : String)
  deriving DecidableEq, Repr

namespace License

def id : License → String
  | listed id _ _ => id
  | reference raw => raw

def orLater : License → Bool
  | listed _ orLater _ => orLater
  | reference _ => false

def deprecated : License → Bool
  | listed _ _ deprecated => deprecated
  | reference _ => false

/-- The license without its deprecation flag. -/
def bare : License → License
  | listed id orLater _ => listed id orLater false
  | reference raw => reference raw

/-- The license as it is written. A `+` is added unless the identifier says "or later" itself. -/
def text : License → String
  | listed id orLater _ =>
    if orLater && !Text.hasSuffix id orLaterSuffix then id ++ plusSuffix else id
  | reference raw => raw

end License

structure LicenseException where
  id : String
  deprecated : Bool := false
  deriving DecidableEq, Repr

/-- The exception without its deprecation flag. -/
def LicenseException.bare (x : LicenseException) : LicenseException :=
  { x with deprecated := false }

/-- A value that is no expression: the name of its kind, its text, and its text in messages. Neither
text can be made when an integer in the value has too many digits. -/
structure Foreign where
  kind : String
  text : String
  quoted : String
  showable : Bool := true
  deriving DecidableEq, Repr

/-- An integer where an expression should stand. -/
def Foreign.ofInt (n : Int) : Foreign where
  kind := "int"
  text := toString n
  quoted := toString n
  showable := Decimal.showable n

inductive Leaf where
  | license (l : License)
  | exception (x : LicenseException)
  | foreign (v : Foreign)
  deriving DecidableEq, Repr

namespace Leaf

def bare : Leaf → Leaf
  | license l => license l.bare
  | exception x => exception x.bare
  | foreign v => foreign v

def text : Leaf → String
  | license l => l.text
  | exception x => x.id
  | foreign v => v.text

def deprecated : Leaf → Bool
  | license l => l.deprecated
  | exception x => x.deprecated
  | foreign _ => false

/-- Whether the text of a leaf can be made. -/
def showable : Leaf → Bool
  | foreign v => v.showable
  | _ => true

end Leaf

inductive Expr where
  | leaf (l : Leaf)
  | join (left : Expr) (op : Operator) (right : Expr)
  deriving DecidableEq, Repr

namespace Expr

@[match_pattern] abbrev license (l : License) : Expr := leaf (.license l)

@[match_pattern] abbrev exception (x : LicenseException) : Expr := leaf (.exception x)

@[match_pattern] abbrev foreign (v : Foreign) : Expr := leaf (.foreign v)

def kindName : Expr → String
  | license (.listed ..) => "SimpleLicense"
  | license (.reference _) => "LicenseRef"
  | exception _ => "LicenseException"
  | foreign v => v.kind
  | join .. => "Compound"

/-- The tree without the deprecation flags. -/
def bare : Expr → Expr
  | leaf l => leaf l.bare
  | join left op right => join left.bare op right.bare

/-- Whether two trees differ in deprecation flags at most. -/
def same (a b : Expr) : Bool :=
  a.bare = b.bare

/-- The leaves from left to right. -/
def leaves : Expr → List Leaf
  | leaf l => [l]
  | join left _ right => left.leaves ++ right.leaves

def size : Expr → Nat
  | leaf _ => 1
  | join left _ right => left.size + right.size + 1

/-- Whether an exception is attached somewhere in the tree. -/
def hasAttachment : Expr → Bool
  | leaf _ => false
  | join left op right => op == .attach || left.hasAttachment || right.hasAttachment

end Expr

end Licensing
