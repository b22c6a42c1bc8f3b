import PolyLet.Token

/-!
# Syntax errors

Why a source is no program: a piece of it is no token, or a token stands where the grammar wants
another one.

## Main definitions

* `Wanted`: what the grammar wants at a token
* `SyntaxError`: the two causes, with `SyntaxError.message`, `SyntaxError.span` and
  `SyntaxError.related`
-/

namespace PolyLet

/-- What the grammar wants at a token. -/
inductive Wanted where
  | token (kind : TokenKind)
  | expression
  | pattern
  /-- The parenthesis that closes the one opened at a place. -/
  | closing (opened : Span)
  deriving DecidableEq, Repr

/-- The wording of what is wanted. -/
def Wanted.describe : Wanted → String
  | token kind => kind.describe
  | expression => "expression"
  | pattern => "pattern"
  | closing _ => TokenKind.closeParen.describe

/-- Why a source is no program. -/
inductive SyntaxError where
  /-- A piece of text is no token. -/
  | lexical (error : LexError)
  /-- At `span` stands a token of kind `found` where something else is wanted. -/
  | unexpected (wanted : Wanted) (found : TokenKind) (span : Span)
  deriving DecidableEq, Repr

namespace SyntaxError

/-- The message for an error. -/
def message : SyntaxError → String
  | lexical error => error.fault.message
  | unexpected wanted found _ => "expected " ++ wanted.describe ++ ", found " ++ found.describe

/-- The place of an error. -/
def span : SyntaxError → Span
  | lexical error => error.span
  | unexpected _ _ span => span

/-- A second place that explains the error, with its explanation: the parenthesis left open. -/
def related : SyntaxError → Option (String × Span)
  | unexpected (.closing opened) _ _ => some ("`(` opened here", opened)
  | _ => none

end SyntaxError

end PolyLet
