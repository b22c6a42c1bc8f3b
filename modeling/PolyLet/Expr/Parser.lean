import PolyLet.Expr
import PolyLet.Expr.SyntaxError
import PolyLet.Token.Lexer

/-!
# From tokens to expressions

A reader for each phrase of the grammar takes the tokens that are left and gives the phrase at their
front and the tokens behind it, or the first error. No reader goes back, and one token of lookahead
is enough except after `let`, where a second one tells a function from a plain name. Every reader
reports that it took at least one token, so that the readers call each other on ever shorter lists.

The grammar, where application groups to the left and a last argument may be a function, a `let` or
an `if` without parentheses:

```text
expr    := 'fn' pattern '->' expr
         | 'let' name pattern* '=' expr 'in' expr | 'let' pattern '=' expr 'in' expr
         | 'if' expr 'then' expr 'else' expr
         | atom+ [expr]
atom    := integer | 'True' | 'False' | name | '(' [expr (',' expr)*] ')'
pattern := name | '(' [pattern (',' pattern)*] ')'
```

## Main definitions

* `Phrase n α`: what a reader gives, with fewer than `n` tokens left
* `readPattern`, `readExpr`: the readers of patterns and of expressions
* `parseTokens`, `parse`: the program of a token list and of a source
-/

namespace PolyLet

/-! ## Phrases -/

/-- A phrase read from the front of a token list, and the fewer than `bound` tokens behind it. -/
structure Phrase (bound : Nat) (α : Type) where
  value : α
  rest : List Token
  rest_length_lt : rest.length < bound

/-- The error at the front of `ts`, where `stop` is the end of the source. -/
def unexpectedAt (stop : Span) (wanted : Wanted) : List Token → SyntaxError
  | [] => .unexpected wanted .endOfInput stop
  | t :: _ => .unexpected wanted t.kind t.span

/-- Reads a token of the given kind. -/
def readToken (stop : Span) (kind : TokenKind) (ts : List Token) :
    Except SyntaxError (Phrase ts.length Token) :=
  match ts with
  | [] => .error (unexpectedAt stop (.token kind) [])
  | t :: rest =>
    if t.kind = kind then .ok ⟨t, rest, by simp⟩
    else .error (unexpectedAt stop (.token kind) (t :: rest))

/-- The kind of the first token, or of the end of the input. -/
def headKind : List Token → TokenKind
  | [] => .endOfInput
  | t :: _ => t.kind

/-! ## Patterns -/

mutual

/-- Reads a pattern. Its place is given beside it. -/
def readPattern (stop : Span) (ts : List Token) :
    Except SyntaxError (Phrase ts.length (Pattern × Span)) :=
  match ts with
  | [] => .error (unexpectedAt stop .pattern [])
  | t :: rest =>
    match t.kind with
    | .name => .ok ⟨(.var t.text, t.span), rest, by simp⟩
    | .openParen =>
      if headKind rest = .closeParen then do
        let ⟨close, r, h⟩ ← readToken stop .closeParen rest
        .ok ⟨(.tuple [], t.span.merge close.span), r, by simp; omega⟩
      else do
        let ⟨(p, _), r, h⟩ ← readPattern stop rest
        let ⟨(ps, close), r', h'⟩ ← readPatternElems stop t.span r
        .ok ⟨(.ofElems (p :: ps), t.span.merge close), r', by simp; omega⟩
    | _ => .error (unexpectedAt stop .pattern (t :: rest))
termination_by ts.length

/-- Reads the patterns after the first one in the parentheses opened at `opened`, and the place of
the closing parenthesis. -/
def readPatternElems (stop opened : Span) (ts : List Token) :
    Except SyntaxError (Phrase ts.length (List Pattern × Span)) :=
  match ts with
  | [] => .error (unexpectedAt stop (.closing opened) [])
  | t :: rest =>
    match t.kind with
    | .comma => do
      let ⟨(p, _), r, h⟩ ← readPattern stop rest
      let ⟨(ps, close), r', h'⟩ ← readPatternElems stop opened r
      .ok ⟨(p :: ps, close), r', by simp; omega⟩
    | .closeParen => .ok ⟨([], t.span), rest, by simp⟩
    | _ => .error (unexpectedAt stop (.closing opened) (t :: rest))
termination_by ts.length

end

/-- Reads patterns up to an equals sign, each with its place. -/
def readParams (stop : Span) (ts : List Token) :
    Except SyntaxError (Phrase (ts.length + 1) (List (Pattern × Span))) :=
  if headKind ts = .equals then .ok ⟨[], ts, by simp⟩
  else do
    let ⟨p, r, h⟩ ← readPattern stop ts
    let ⟨ps, r', h'⟩ ← readParams stop r
    .ok ⟨p :: ps, r', by omega⟩
termination_by ts.length

/-- Reads what a `let` binds: a function name with its parameters if a name is not directly before
the equals sign, otherwise a pattern. -/
def readBinder (stop : Span) (ts : List Token) :
    Except SyntaxError (Phrase ts.length (Pattern × List (Pattern × Span))) :=
  match ts with
  | [] => .error (unexpectedAt stop .pattern [])
  | t :: rest =>
    if t.kind = .name ∧ headKind rest ≠ .equals then do
      let ⟨ps, r, h⟩ ← readParams stop rest
      .ok ⟨(.var t.text, ps), r, by simp; omega⟩
    else do
      let ⟨(p, _), r, h⟩ ← readPattern stop (t :: rest)
      .ok ⟨(p, []), r, h⟩

/-! ## Expressions -/

/-- Whether an atom starts with a token of this kind. -/
def startsAtom : TokenKind → Bool
  | .integer | .kwTrue | .kwFalse | .name | .openParen => true
  | _ => false

/-- Whether a function, a `let` or an `if` starts with a token of this kind. -/
def startsBlock : TokenKind → Bool
  | .kwFn | .kwLet | .kwIf => true
  | _ => false

/-- The application of a function to an argument, around both. -/
def applyTo (func arg : Expr) : Expr :=
  .app (func.span.merge arg.span) func arg

/-- The function with the given parameters. Each parameter makes a function of its own that reaches
from the parameter to the end of the body. -/
def curry (params : List (Pattern × Span)) (body : Expr) : Expr :=
  params.foldr (fun p e => .lam (p.2.merge e.span) p.1 e) body

/-- The expression of a parenthesised list: parentheses around a single expression only widen its
place. -/
def ofParens (span : Span) : List Expr → Expr
  | [e] => e.withSpan span
  | es => .tuple span es

/-- The integer that the text of an integer literal stands for. -/
def literalValue (text : String) : Int64 :=
  Int64.ofNat (decimalValue text.toList)

mutual

/-- Reads an expression. -/
def readExpr (stop : Span) (ts : List Token) : Except SyntaxError (Phrase ts.length Expr) :=
  match ts with
  | [] => .error (unexpectedAt stop .expression [])
  | t :: rest =>
    match t.kind with
    | .kwFn => do
      let ⟨(p, _), r₁, h₁⟩ ← readPattern stop rest
      let ⟨_, r₂, h₂⟩ ← readToken stop .arrow r₁
      let ⟨body, r₃, h₃⟩ ← readExpr stop r₂
      .ok ⟨.lam (t.span.merge body.span) p body, r₃, by simp; omega⟩
    | .kwLet => do
      let ⟨(p, params), r₁, h₁⟩ ← readBinder stop rest
      let ⟨_, r₂, h₂⟩ ← readToken stop .equals r₁
      let ⟨bound, r₃, h₃⟩ ← readExpr stop r₂
      let ⟨_, r₄, h₄⟩ ← readToken stop .kwIn r₃
      let ⟨body, r₅, h₅⟩ ← readExpr stop r₄
      .ok ⟨.letIn (t.span.merge body.span) p (curry params bound) body, r₅, by simp; omega⟩
    | .kwIf => do
      let ⟨c, r₁, h₁⟩ ← readExpr stop rest
      let ⟨_, r₂, h₂⟩ ← readToken stop .kwThen r₁
      let ⟨a, r₃, h₃⟩ ← readExpr stop r₂
      let ⟨_, r₄, h₄⟩ ← readToken stop .kwElse r₃
      let ⟨b, r₅, h₅⟩ ← readExpr stop r₄
      .ok ⟨.ite (t.span.merge b.span) c a b, r₅, by simp; omega⟩
    | _ => do
      let ⟨func, r₁, h₁⟩ ← readAtom stop (t :: rest)
      let ⟨e, r₂, h₂⟩ ← readArgs stop func r₁
      .ok ⟨e, r₂, by omega⟩
termination_by (ts.length, 1)

/-- Reads the arguments of `func`, as many as there are. A function, a `let` or an `if` is the last
argument. -/
def readArgs (stop : Span) (func : Expr) (ts : List Token) :
    Except SyntaxError (Phrase (ts.length + 1) Expr) :=
  if startsAtom (headKind ts) then do
    let ⟨arg, r₁, h₁⟩ ← readAtom stop ts
    let ⟨e, r₂, h₂⟩ ← readArgs stop (applyTo func arg) r₁
    .ok ⟨e, r₂, Nat.lt_of_lt_of_le h₂ (Nat.le_succ_of_le h₁)⟩
  else if startsBlock (headKind ts) then do
    let ⟨arg, r, h⟩ ← readExpr stop ts
    .ok ⟨applyTo func arg, r, Nat.lt_succ_of_lt h⟩
  else .ok ⟨func, ts, Nat.lt_add_one _⟩
termination_by (ts.length, 2)

/-- Reads a literal, a name or a parenthesised list. -/
def readAtom (stop : Span) (ts : List Token) : Except SyntaxError (Phrase ts.length Expr) :=
  match ts with
  | [] => .error (unexpectedAt stop .expression [])
  | t :: rest =>
    match t.kind with
    | .integer => .ok ⟨.int t.span (literalValue t.text), rest, by simp⟩
    | .kwTrue => .ok ⟨.bool t.span true, rest, by simp⟩
    | .kwFalse => .ok ⟨.bool t.span false, rest, by simp⟩
    | .name => .ok ⟨.var t.span t.text, rest, by simp⟩
    | .openParen =>
      if headKind rest = .closeParen then do
        let ⟨close, r, h⟩ ← readToken stop .closeParen rest
        .ok ⟨.tuple (t.span.merge close.span) [], r, by simp; omega⟩
      else do
        let ⟨e, r, h⟩ ← readExpr stop rest
        let ⟨(es, close), r', h'⟩ ← readElems stop t.span r
        .ok ⟨ofParens (t.span.merge close) (e :: es), r', by simp; omega⟩
    | _ => .error (unexpectedAt stop .expression (t :: rest))
termination_by (ts.length, 0)

/-- Reads the expressions after the first one in the parentheses opened at `opened`, and the place
of the closing parenthesis. -/
def readElems (stop opened : Span) (ts : List Token) :
    Except SyntaxError (Phrase ts.length (List Expr × Span)) :=
  match ts with
  | [] => .error (unexpectedAt stop (.closing opened) [])
  | t :: rest =>
    match t.kind with
    | .comma => do
      let ⟨e, r, h⟩ ← readExpr stop rest
      let ⟨(es, close), r', h'⟩ ← readElems stop opened r
      .ok ⟨(e :: es, close), r', by simp; omega⟩
    | .closeParen => .ok ⟨([], t.span), rest, by simp⟩
    | _ => .error (unexpectedAt stop (.closing opened) (t :: rest))
termination_by (ts.length, 0)

end

/-! ## Programs -/

/-- The tokens that make up the program: neither comments nor the end of the input. -/
def significant (ts : List Token) : List Token :=
  ts.filter fun t => !t.kind.isTrivia && t.kind ≠ .endOfInput

/-- The program that the significant tokens `ts` of a source make up, where `stop` is the end of the
source. -/
def parseTokens (stop : Span) (ts : List Token) : Except SyntaxError Expr :=
  match readExpr stop ts with
  | .error error => .error error
  | .ok ⟨e, rest, _⟩ =>
    match rest with
    | [] => .ok e
    | _ :: _ => .error (unexpectedAt stop (.token .endOfInput) rest)

/-- The program of a source, or the first thing that is wrong with it. -/
def parse (source : String) : Except SyntaxError Expr :=
  match lex source with
  | .error error => .error (.lexical error)
  | .ok tokens => parseTokens (.point source.utf8ByteSize) (significant tokens)

end PolyLet
