import Licensing.Text.Affix
import Licensing.Text.Blank
import Licensing.Text.CaseFold

/-!
References that scanners make up for licenses without an identifier of their own:
`LicenseRef-` followed by a name, with the name of the scanner and a hyphen before the name if the
scanner adds them. Names compare with or without regard to case, scanner names always without.
-/

namespace Licensing.Reference

/-- What every reference begins with. -/
def mark : String := "LicenseRef-"

/-- The names of the scanners that are known by themselves. -/
def defaultNamespaces : List String :=
  ["ORT", "Askalono", "BoyterLc", "Licensee", "scancode"]

/-- Whether a name can be referred to: it is not blank and has no hyphen at either end. -/
def isName (name : List Char) : Bool :=
  !name.all Text.isBlank && name.head? != some '-' && name.getLast? != some '-'

/-- Whether two texts are the same name. -/
def sameName (ignoreCase : Bool) (a b : List Char) : Bool :=
  if ignoreCase then Text.fold a == Text.fold b else a == b

/-- Whether a text is the name of a known scanner with a hyphen after it. -/
def isNamespace (namespaces : List String) (text : List Char) : Bool :=
  text.getLast? == some '-' &&
    namespaces.any fun ns => Text.fold ns.toList == Text.fold text.dropLast

/-- Whether the text after the mark is a name, possibly after that of a scanner. The last characters
of the text are compared with the name, as many as the name has. -/
def restMatches (ignoreCase : Bool) (namespaces : List String) (rest name : List Char) : Bool :=
  let count := rest.length - name.length
  let before := rest.take count
  name.length ≤ rest.length && sameName ignoreCase (rest.drop count) name &&
    (before.isEmpty || isNamespace namespaces before)

def refersTo (candidate name : String) (ignoreCase : Bool := true)
    (namespaces : List String := defaultNamespaces) : Bool :=
  isName name.toList &&
    match Text.dropPrefix? candidate mark with
    | none => false
    | some rest => restMatches ignoreCase namespaces rest.toList name.toList

/-- The order in which names are tried: longer names first, and names of one length by their
characters. -/
def triedBefore (a b : String) : Bool :=
  b.length < a.length || (a.length == b.length && a ≤ b)

/-- The first of the names, in the order in which they are tried, that a candidate refers to. -/
def findTarget? (candidate : String) (names : List String) (ignoreCase : Bool := true)
    (namespaces : List String := defaultNamespaces) : Option String :=
  (names.mergeSort triedBefore).find? fun name => refersTo candidate name ignoreCase namespaces

end Licensing.Reference
