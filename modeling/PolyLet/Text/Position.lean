/-!
# Lines and columns

A byte offset into a text, as the line and the column that a reader counts. A line ends after a
line feed, a carriage return, the two together, a vertical tab, a form feed, a next-line character
or a line or paragraph separator. The end of the text belongs to its last line.

## Main definitions

* `Position`: a line and a column, both counted from one
* `Position.ofOffset text offset`: where a byte offset lies
-/

namespace PolyLet

/-- A place in a text: line and column, both counted from one. -/
structure Position where
  line : Nat
  column : Nat
  deriving DecidableEq, Repr

namespace Position

/-- Whether a character by itself ends a line. -/
def isLineEnd (c : Char) : Bool :=
  c = '\n' || c = '\r' || c = '\x0b' || c = '\x0c' || c = '\x85' || c = '\u2028' || c = '\u2029'

/-- Whether a line ends after `c` when `rest` follows. A carriage return directly before a line feed
leaves the line to it, and the last line of a text has no line after it. -/
def endsLine (c : Char) : List Char → Bool
  | [] => false
  | d :: _ => isLineEnd c && !(c = '\r' && d = '\n')

/-- The place `offset` bytes after `here`, where `cs` is the text from `here` on. -/
def advance (here : Position) : Nat → List Char → Position
  | 0, _ => here
  | _, [] => here
  | offset, c :: cs =>
    advance (if endsLine c cs then ⟨here.line + 1, 1⟩ else ⟨here.line, here.column + 1⟩)
      (offset - c.utf8Size) cs

/-- The place of a byte offset. An offset past the text is taken to be at its end. -/
def ofOffset (text : String) (offset : Nat) : Position :=
  advance ⟨1, 1⟩ offset text.toList

end Position

end PolyLet
