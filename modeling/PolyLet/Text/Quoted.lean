import PolyLet.Text.GraphemeExtend
import PolyLet.Text.Unprintable

/-!
# Quoted characters and texts

A character or a text is shown between quotes. Inside, the quote itself and the backslash follow a
backslash, the common controls have short names, and every other character that could not be seen
on its own is shown by its code point in hexadecimal.

## Main definitions

* `escapeChar q c`: the form of `c` between quotes `q`
* `quotedChar c`: a character in single quotes
* `quotedString s`: a text in double quotes
-/

namespace PolyLet

/-- The code point of a character in lower-case hexadecimal without leading zeros. -/
def codePointHex (c : Char) : String :=
  String.ofList (Nat.toDigits 16 c.toNat)

/-- Whether a character needs its code point shown: it is drawn onto its neighbour or not at all. -/
def isHidden (c : Char) : Bool :=
  isGraphemeExtend c || isUnprintable c

/-- The form of a character between quotes `quote`. -/
def escapeChar (quote c : Char) : String :=
  if c = '\x00' then "\\0"
  else if c = '\t' then "\\t"
  else if c = '\r' then "\\r"
  else if c = '\n' then "\\n"
  else if c = '\\' || c = quote then "\\" ++ String.singleton c
  else if isHidden c then "\\u\x7b" ++ codePointHex c ++ "\x7d"
  else String.singleton c

/-- A character in single quotes. -/
def quotedChar (c : Char) : String :=
  "'" ++ escapeChar '\x27' c ++ "'"

/-- A text in double quotes. -/
def quotedString (s : String) : String :=
  "\"" ++ String.join (s.toList.map (escapeChar '\x22')) ++ "\""

end PolyLet
