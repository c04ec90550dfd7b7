import Licensing.Text.Charset

/-!
Blank characters: the ones that separate the words of an expression and that may not stand in an
identifier. They are the characters of bidirectional class WS, B or S together with those of
category Zs; U+200B and U+FEFF, which have no width either, are not among them.
-/

namespace Licensing.Text

def blanks : Charset :=
  [(0x09, 0x0D), (0x1C, 0x20), (0x85, 0x85), (0xA0, 0xA0), (0x1680, 0x1680), (0x2000, 0x200A),
    (0x2028, 0x2029), (0x202F, 0x202F), (0x205F, 0x205F), (0x3000, 0x3000)]

def isBlank (c : Char) : Bool :=
  blanks.has c

/-- Whether a text has no character other than blanks; the empty text is one. -/
def allBlank (s : String) : Bool :=
  s.toList.all isBlank

/-- Whether a blank occurs in a text. -/
def someBlank (s : String) : Bool :=
  s.toList.any isBlank

end Licensing.Text
