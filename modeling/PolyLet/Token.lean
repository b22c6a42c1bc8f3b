import PolyLet.Span
import PolyLet.Text.Quoted

/-!
# Tokens

The words of a program: keywords, punctuation, integer literals and names, together with the
comments between them, the end of the input, and the pieces of text that are no word at all.

## Main definitions

* `TokenKind`: what a token is, `TokenKind.label` its label and `TokenKind.describe` its wording
  in messages
* `TokenKind.ofKeyword?`: the keywords
* `Token`: a kind with its text and its place in the source
* `LexFault`, `LexError`: why a piece of text is no token, and where it stands
-/

namespace PolyLet

/-- What a token is. -/
inductive TokenKind where
  | kwLet
  | kwIn
  | kwFn
  | kwIf
  | kwThen
  | kwElse
  | kwTrue
  | kwFalse
  | equals
  | arrow
  | openParen
  | closeParen
  | comma
  | integer
  | name
  | lineComment
  | blockComment
  | endOfInput
  | invalid
  deriving DecidableEq, Repr

namespace TokenKind

/-- All kinds: keywords, punctuation, literals and names, comments, and the two special ones. -/
def all : List TokenKind :=
  [kwLet, kwIn, kwFn, kwIf, kwThen, kwElse, kwTrue, kwFalse, equals, arrow, openParen, closeParen,
    comma, integer, name, lineComment, blockComment, endOfInput, invalid]

/-- The label of a kind in a token listing. -/
def label : TokenKind → String
  | kwLet => "Let"
  | kwIn => "In"
  | kwFn => "Fn"
  | kwIf => "If"
  | kwThen => "Then"
  | kwElse => "Else"
  | kwTrue => "True"
  | kwFalse => "False"
  | equals => "Eq"
  | arrow => "Arrow"
  | openParen => "LParen"
  | closeParen => "RParen"
  | comma => "Comma"
  | integer => "IntLiteral"
  | name => "Ident"
  | lineComment => "Comment"
  | blockComment => "BlockComment"
  | endOfInput => "Eof"
  | invalid => "Error"

/-- The wording of a kind in messages. -/
def describe : TokenKind → String
  | kwLet => "`let`"
  | kwIn => "`in`"
  | kwFn => "`fn`"
  | kwIf => "`if`"
  | kwThen => "`then`"
  | kwElse => "`else`"
  | kwTrue => "`True`"
  | kwFalse => "`False`"
  | equals => "`=`"
  | arrow => "`->`"
  | openParen => "`(`"
  | closeParen => "`)`"
  | comma => "`,`"
  | integer => "integer literal"
  | name => "identifier"
  | lineComment => "comment"
  | blockComment => "comment"
  | endOfInput => "end of input"
  | invalid => "invalid token"

/-- Whether tokens of this kind say nothing about the program: the comments. -/
def isTrivia : TokenKind → Bool
  | lineComment | blockComment => true
  | _ => false

/-- The kind of a keyword, or `none` for any other word. -/
def ofKeyword? : String → Option TokenKind
  | "let" => some kwLet
  | "in" => some kwIn
  | "fn" => some kwFn
  | "if" => some kwIf
  | "then" => some kwThen
  | "else" => some kwElse
  | "True" => some kwTrue
  | "False" => some kwFalse
  | _ => none

end TokenKind

/-- A token: its kind, the source text it was read from, and where that text stands. -/
structure Token where
  kind : TokenKind
  text : String
  span : Span
  deriving DecidableEq, Repr

/-- Why a piece of text is no token. -/
inductive LexFault where
  /-- No token starts with the character. -/
  | unexpectedCharacter (c : Char)
  /-- A block comment is not closed before the end of the source. -/
  | unterminatedBlockComment
  /-- A block comment is closed where none is open. -/
  | unmatchedBlockCommentClose
  /-- An integer literal is larger than the largest integer. -/
  | invalidNumberLiteral (digits : String)
  deriving DecidableEq, Repr

/-- The message for a fault. -/
def LexFault.message : LexFault → String
  | unexpectedCharacter c => "unexpected character: " ++ quotedChar c
  | unterminatedBlockComment => "unterminated block comment"
  | unmatchedBlockCommentClose => "unmatched `-\x7d` with no block comment open"
  | invalidNumberLiteral digits => "invalid number literal: " ++ digits

/-- A fault and the text it concerns. -/
structure LexError where
  fault : LexFault
  span : Span
  deriving DecidableEq, Repr

end PolyLet
