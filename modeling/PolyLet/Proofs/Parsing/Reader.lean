import PolyLet.Expr.Parser

/-!
# Readers as computations

A reader takes tokens from the front of those that are left, so it is a computation that carries the
tokens as its state and may fail. Written this way the readers have no bounds in their results, and
what is proved of a sequence of readers is put together from its parts. Each reader satisfies one
equation, in which the only thing it looks at is the kind of the next token.

## Main definitions

* `Reader α`: computations on the tokens that are left
* `Reader.peek`, `Reader.fail`: looking at the next token, and giving up at it
* `exprReader`, `atomReader` and the others: the readers of the language as computations
* `blockReader`: what reads a function, a `let` or an `if`

## Main results

* `exprReader_eq`, `argsReader_eq`, `atomReader_eq`, `elemsReader_eq`, `patternReader_eq`,
  `patternElemsReader_eq`, `paramsReader_eq`, `binderReader_eq`: the equations
-/

namespace PolyLet

/-! ## Computations on tokens -/

/-- Computations that take tokens from those that are left and may fail. -/
abbrev Reader :=
  StateT (List Token) (Except SyntaxError)

variable {α β : Type} {m n : Nat} {stop : Span}

namespace Reader

/-- The kind of the next token. -/
def peek : Reader TokenKind :=
  fun ts => .ok (headKind ts, ts)

/-- Gives up at the next token. -/
def fail (stop : Span) (wanted : Wanted) : Reader α :=
  fun ts => .error (unexpectedAt stop wanted ts)

theorem peek_bind (f : TokenKind → Reader α) (ts : List Token) :
    (peek >>= f) ts = f (headKind ts) ts :=
  rfl

theorem bind_of_ok {r : Reader α} {f : α → Reader β} {ts rest : List Token} {v : α}
    (h : r ts = .ok (v, rest)) : (r >>= f) ts = f v rest := by
  show (r ts >>= fun q => f q.1 q.2) = _
  rw [h]
  rfl

theorem bind_of_error {r : Reader α} {f : α → Reader β} {ts : List Token} {e : SyntaxError}
    (h : r ts = .error e) : (r >>= f) ts = .error e := by
  show (r ts >>= fun q => f q.1 q.2) = _
  rw [h]
  rfl

end Reader

/-! ## The readers without their bounds -/

/-- What a reader gives, without the bound on what is left. -/
def outcome (r : Except SyntaxError (Phrase n α)) : Except SyntaxError (α × List Token) :=
  r.map fun p => (p.value, p.rest)

theorem outcome_bind {r : Reader α} {x : Except SyntaxError (Phrase n α)} {ts : List Token}
    {f : Phrase n α → Except SyntaxError (Phrase m β)} {g : α → Reader β} (hx : outcome x = r ts)
    (hf : ∀ p, outcome (f p) = g p.value p.rest) : outcome (x >>= f) = (r >>= g) ts := by
  cases x with
  | error e => exact (Reader.bind_of_error hx.symm).symm
  | ok p => exact (hf p).trans (Reader.bind_of_ok hx.symm).symm

theorem outcome_bind_ok {x : Except SyntaxError (Phrase n α)}
    {f : Phrase n α → Except SyntaxError (Phrase m α)}
    (hf : ∀ p, outcome (f p) = .ok (p.value, p.rest)) : outcome (x >>= f) = outcome x := by
  cases x with
  | error e => rfl
  | ok p => exact hf p

/-- The reader of a token of the given kind. -/
def tokenReader (stop : Span) (kind : TokenKind) : Reader Token :=
  fun ts => outcome (readToken stop kind ts)

/-- The reader of patterns. -/
def patternReader (stop : Span) : Reader (Pattern × Span) :=
  fun ts => outcome (readPattern stop ts)

/-- The reader of the patterns after the first one in parentheses. -/
def patternElemsReader (stop opened : Span) : Reader (List Pattern × Span) :=
  fun ts => outcome (readPatternElems stop opened ts)

/-- The reader of patterns up to an equals sign. -/
def paramsReader (stop : Span) : Reader (List (Pattern × Span)) :=
  fun ts => outcome (readParams stop ts)

/-- The reader of what a `let` binds. -/
def binderReader (stop : Span) : Reader (Pattern × List (Pattern × Span)) :=
  fun ts => outcome (readBinder stop ts)

/-- The reader of expressions. -/
def exprReader (stop : Span) : Reader Expr :=
  fun ts => outcome (readExpr stop ts)

/-- The reader of the arguments of `func`. -/
def argsReader (stop : Span) (func : Expr) : Reader Expr :=
  fun ts => outcome (readArgs stop func ts)

/-- The reader of literals, names and parenthesised lists. -/
def atomReader (stop : Span) : Reader Expr :=
  fun ts => outcome (readAtom stop ts)

/-- The reader of the expressions after the first one in parentheses. -/
def elemsReader (stop opened : Span) : Reader (List Expr × Span) :=
  fun ts => outcome (readElems stop opened ts)

/-- The reader of a function, a `let` or an `if`. -/
def blockReader (stop : Span) : Reader Expr := do
  let k ← Reader.peek
  if k = .kwFn then
    let f ← tokenReader stop .kwFn
    let p ← patternReader stop
    let _ ← tokenReader stop .arrow
    let body ← exprReader stop
    return .lam (f.span.merge body.span) p.1 body
  else if k = .kwLet then
    let l ← tokenReader stop .kwLet
    let b ← binderReader stop
    let _ ← tokenReader stop .equals
    let bound ← exprReader stop
    let _ ← tokenReader stop .kwIn
    let body ← exprReader stop
    return .letIn (l.span.merge body.span) b.1 (curry b.2 bound) body
  else if k = .kwIf then
    let i ← tokenReader stop .kwIf
    let cond ← exprReader stop
    let _ ← tokenReader stop .kwThen
    let a ← exprReader stop
    let _ ← tokenReader stop .kwElse
    let b ← exprReader stop
    return .ite (i.span.merge b.span) cond a b
  else Reader.fail stop .expression

/-! ## Tokens -/

theorem headKind_cons (t : Token) (ts : List Token) : headKind (t :: ts) = t.kind :=
  rfl

theorem tokenReader_of_eq {t : Token} {kind : TokenKind} (h : t.kind = kind) (rest : List Token) :
    tokenReader stop kind (t :: rest) = .ok (t, rest) := by
  show outcome (readToken stop kind (t :: rest)) = _
  rw [readToken, if_pos h]
  rfl

theorem tokenReader_of_ne {kind : TokenKind} {ts : List Token} (h : headKind ts ≠ kind) :
    tokenReader stop kind ts = .error (unexpectedAt stop (.token kind) ts) := by
  cases ts with
  | nil => rfl
  | cons t rest =>
    rw [headKind_cons] at h
    show outcome (readToken stop kind (t :: rest)) = _
    rw [readToken, if_neg h]
    rfl

theorem bind_tokenReader {t : Token} {kind : TokenKind} (h : t.kind = kind)
    (f : Token → Reader α) (rest : List Token) :
    (tokenReader stop kind >>= f) (t :: rest) = f t rest :=
  Reader.bind_of_ok (tokenReader_of_eq h rest)

/-! ## Patterns -/

theorem patternReader_eq (stop : Span) :
    patternReader stop = (do
      let k ← Reader.peek
      if k = .name then
        let x ← tokenReader stop .name
        return (.var x.text, x.span)
      else if k = .openParen then
        let o ← tokenReader stop .openParen
        let k' ← Reader.peek
        if k' = .closeParen then
          let c ← tokenReader stop .closeParen
          return (.tuple [], o.span.merge c.span)
        else
          let p ← patternReader stop
          let q ← patternElemsReader stop o.span
          return (.ofElems (p.1 :: q.1), o.span.merge q.2)
      else Reader.fail stop .pattern) := by
  funext ts
  rw [Reader.peek_bind]
  show outcome (readPattern stop ts) = _
  cases ts with
  | nil =>
    rw [readPattern]
    rfl
  | cons t rest =>
    rw [readPattern, headKind_cons]
    split
    next h =>
      rw [if_pos h, bind_tokenReader h]
      rfl
    next h =>
      simp only [h, reduceCtorEq, if_false, if_true]
      rw [bind_tokenReader h, Reader.peek_bind]
      split
      next => exact outcome_bind rfl fun c => rfl
      next => exact outcome_bind rfl fun p => outcome_bind rfl fun q => rfl
    next h₁ h₂ =>
      rw [if_neg h₁, if_neg h₂]
      rfl

theorem patternElemsReader_eq (stop opened : Span) :
    patternElemsReader stop opened = (do
      let k ← Reader.peek
      if k = .comma then
        let _ ← tokenReader stop .comma
        let p ← patternReader stop
        let q ← patternElemsReader stop opened
        return (p.1 :: q.1, q.2)
      else if k = .closeParen then
        let c ← tokenReader stop .closeParen
        return ([], c.span)
      else Reader.fail stop (.closing opened)) := by
  funext ts
  rw [Reader.peek_bind]
  show outcome (readPatternElems stop opened ts) = _
  cases ts with
  | nil =>
    rw [readPatternElems]
    rfl
  | cons t rest =>
    rw [readPatternElems, headKind_cons]
    split
    next h =>
      rw [if_pos h, bind_tokenReader h]
      exact outcome_bind rfl fun p => outcome_bind rfl fun q => rfl
    next h =>
      simp only [h, reduceCtorEq, if_false, if_true]
      rw [bind_tokenReader h]
      rfl
    next h₁ h₂ =>
      rw [if_neg h₁, if_neg h₂]
      rfl

theorem paramsReader_eq (stop : Span) :
    paramsReader stop = (do
      let k ← Reader.peek
      if k = .equals then
        return []
      else
        let p ← patternReader stop
        let ps ← paramsReader stop
        return p :: ps) := by
  funext ts
  rw [Reader.peek_bind]
  show outcome (readParams stop ts) = _
  rw [readParams]
  split
  next => rfl
  next => exact outcome_bind rfl fun p => outcome_bind rfl fun ps => rfl

theorem patternReader_nil (stop : Span) :
    patternReader stop [] = .error (unexpectedAt stop .pattern []) := by
  rw [patternReader_eq]
  rfl

theorem patternReader_name {t : Token} (h : t.kind = .name) (rest : List Token) :
    patternReader stop (t :: rest) = .ok ((.var t.text, t.span), rest) := by
  rw [patternReader_eq, Reader.peek_bind, headKind_cons, if_pos h, bind_tokenReader h]
  rfl

theorem paramsReader_equals {ts : List Token} (h : headKind ts = .equals) :
    paramsReader stop ts = .ok ([], ts) := by
  rw [paramsReader_eq, Reader.peek_bind, if_pos h]
  rfl

/-- A name is read in the same way whether parameters follow it or not: the second token, which
tells the two forms of a binder apart, is also the first one that the parameters are read from. -/
theorem binderReader_eq (stop : Span) :
    binderReader stop = (do
      let k ← Reader.peek
      if k = .name then
        let x ← tokenReader stop .name
        let ps ← paramsReader stop
        return (.var x.text, ps)
      else
        let p ← patternReader stop
        return (p.1, [])) := by
  funext ts
  rw [Reader.peek_bind]
  show outcome (readBinder stop ts) = _
  cases ts with
  | nil => exact (Reader.bind_of_error (patternReader_nil stop)).symm
  | cons t rest =>
    rw [readBinder, headKind_cons]
    by_cases hname : t.kind = .name
    · rw [if_pos hname, bind_tokenReader hname]
      by_cases heq : headKind rest = .equals
      · rw [if_neg (fun h => h.2 heq), Reader.bind_of_ok (paramsReader_equals heq)]
        exact (outcome_bind rfl fun p => rfl).trans
          (Reader.bind_of_ok (f := fun p => pure (p.1, [])) (patternReader_name hname rest))
      · rw [if_pos ⟨hname, heq⟩]
        exact outcome_bind rfl fun ps => rfl
    · rw [if_neg (fun h => hname h.1), if_neg hname]
      exact outcome_bind rfl fun p => rfl

/-! ## Expressions -/

theorem startsBlock_iff {k : TokenKind} :
    startsBlock k = true ↔ k = .kwFn ∨ k = .kwLet ∨ k = .kwIf := by
  cases k <;> simp [startsBlock]

theorem exprReader_of_startsBlock {ts : List Token} (h : startsBlock (headKind ts) = true) :
    exprReader stop ts = blockReader stop ts := by
  rw [blockReader, Reader.peek_bind]
  show outcome (readExpr stop ts) = _
  cases ts with
  | nil => cases h
  | cons t rest =>
    rw [headKind_cons] at h ⊢
    rw [readExpr]
    split
    next hk =>
      rw [if_pos hk, bind_tokenReader hk]
      exact outcome_bind rfl fun p => outcome_bind rfl fun _ => outcome_bind rfl fun body => rfl
    next hk =>
      simp only [hk, reduceCtorEq, if_false, if_true]
      rw [bind_tokenReader hk]
      exact outcome_bind rfl fun b => outcome_bind rfl fun _ => outcome_bind rfl fun bound =>
        outcome_bind rfl fun _ => outcome_bind rfl fun body => rfl
    next hk =>
      simp only [hk, reduceCtorEq, if_false, if_true]
      rw [bind_tokenReader hk]
      exact outcome_bind rfl fun cond => outcome_bind rfl fun _ => outcome_bind rfl fun a =>
        outcome_bind rfl fun _ => outcome_bind rfl fun b => rfl
    next h₁ h₂ h₃ =>
      rcases startsBlock_iff.mp h with hk | hk | hk
      · exact absurd hk h₁
      · exact absurd hk h₂
      · exact absurd hk h₃

theorem exprReader_of_not_startsBlock {ts : List Token} (h : ¬startsBlock (headKind ts) = true) :
    exprReader stop ts = (atomReader stop >>= argsReader stop) ts := by
  show outcome (readExpr stop ts) = _
  cases ts with
  | nil =>
    have ha : atomReader stop [] = .error (unexpectedAt stop .expression []) := by
      show outcome (readAtom stop []) = _
      rw [readAtom]
      rfl
    rw [readExpr, Reader.bind_of_error ha]
    rfl
  | cons t rest =>
    rw [headKind_cons, startsBlock_iff] at h
    rw [readExpr]
    split
    next hk => exact absurd (.inl hk) h
    next hk => exact absurd (.inr (.inl hk)) h
    next hk => exact absurd (.inr (.inr hk)) h
    next => exact outcome_bind rfl fun func => outcome_bind_ok fun e => rfl

theorem exprReader_eq (stop : Span) :
    exprReader stop = (do
      let k ← Reader.peek
      if startsBlock k = true then
        blockReader stop
      else
        let func ← atomReader stop
        argsReader stop func) := by
  funext ts
  rw [Reader.peek_bind]
  split
  next h => exact exprReader_of_startsBlock h
  next h => exact exprReader_of_not_startsBlock h

theorem argsReader_eq (stop : Span) (func : Expr) :
    argsReader stop func = (do
      let k ← Reader.peek
      if startsAtom k = true then
        let arg ← atomReader stop
        argsReader stop (applyTo func arg)
      else if startsBlock k = true then
        let arg ← blockReader stop
        return applyTo func arg
      else
        return func) := by
  funext ts
  rw [Reader.peek_bind]
  show outcome (readArgs stop func ts) = _
  rw [readArgs]
  split
  next => exact outcome_bind rfl fun arg => outcome_bind_ok fun e => rfl
  next =>
    split
    next h => exact outcome_bind (exprReader_of_startsBlock h) fun arg => rfl
    next => rfl

theorem atomReader_eq (stop : Span) :
    atomReader stop = (do
      let k ← Reader.peek
      if k = .integer then
        let t ← tokenReader stop .integer
        return .int t.span (literalValue t.text)
      else if k = .kwTrue then
        let t ← tokenReader stop .kwTrue
        return .bool t.span true
      else if k = .kwFalse then
        let t ← tokenReader stop .kwFalse
        return .bool t.span false
      else if k = .name then
        let t ← tokenReader stop .name
        return .var t.span t.text
      else if k = .openParen then
        let o ← tokenReader stop .openParen
        let k' ← Reader.peek
        if k' = .closeParen then
          let c ← tokenReader stop .closeParen
          return .tuple (o.span.merge c.span) []
        else
          let e ← exprReader stop
          let q ← elemsReader stop o.span
          return ofParens (o.span.merge q.2) (e :: q.1)
      else Reader.fail stop .expression) := by
  funext ts
  rw [Reader.peek_bind]
  show outcome (readAtom stop ts) = _
  cases ts with
  | nil =>
    rw [readAtom]
    rfl
  | cons t rest =>
    rw [readAtom, headKind_cons]
    split
    next h =>
      rw [if_pos h, bind_tokenReader h]
      rfl
    next h =>
      simp only [h, reduceCtorEq, if_false, if_true]
      rw [bind_tokenReader h]
      rfl
    next h =>
      simp only [h, reduceCtorEq, if_false, if_true]
      rw [bind_tokenReader h]
      rfl
    next h =>
      simp only [h, reduceCtorEq, if_false, if_true]
      rw [bind_tokenReader h]
      rfl
    next h =>
      simp only [h, reduceCtorEq, if_false, if_true]
      rw [bind_tokenReader h, Reader.peek_bind]
      split
      next => exact outcome_bind rfl fun c => rfl
      next => exact outcome_bind rfl fun e => outcome_bind rfl fun q => rfl
    next h₁ h₂ h₃ h₄ h₅ =>
      rw [if_neg h₁, if_neg h₂, if_neg h₃, if_neg h₄, if_neg h₅]
      rfl

/-- A name is read as a whole expression if nothing that follows is an argument. -/
theorem exprReader_name {t : Token} {rest : List Token} (ht : t.kind = .name)
    (hatom : ¬startsAtom (headKind rest) = true) (hblock : ¬startsBlock (headKind rest) = true) :
    exprReader stop (t :: rest) = .ok (.var t.span t.text, rest) := by
  have hread : atomReader stop (t :: rest) = .ok (.var t.span t.text, rest) := by
    rw [atomReader_eq, Reader.peek_bind, headKind_cons, ht]
    exact bind_tokenReader ht _ rest
  rw [exprReader_of_not_startsBlock (by rw [headKind_cons, ht]; decide), Reader.bind_of_ok hread,
    argsReader_eq, Reader.peek_bind, if_neg hatom, if_neg hblock]
  rfl

theorem elemsReader_eq (stop opened : Span) :
    elemsReader stop opened = (do
      let k ← Reader.peek
      if k = .comma then
        let _ ← tokenReader stop .comma
        let e ← exprReader stop
        let q ← elemsReader stop opened
        return (e :: q.1, q.2)
      else if k = .closeParen then
        let c ← tokenReader stop .closeParen
        return ([], c.span)
      else Reader.fail stop (.closing opened)) := by
  funext ts
  rw [Reader.peek_bind]
  show outcome (readElems stop opened ts) = _
  cases ts with
  | nil =>
    rw [readElems]
    rfl
  | cons t rest =>
    rw [readElems, headKind_cons]
    split
    next h =>
      rw [if_pos h, bind_tokenReader h]
      exact outcome_bind rfl fun e => outcome_bind rfl fun q => rfl
    next h =>
      simp only [h, reduceCtorEq, if_false, if_true]
      rw [bind_tokenReader h]
      rfl
    next h₁ h₂ =>
      rw [if_neg h₁, if_neg h₂]
      rfl

/-! ## Programs -/

theorem parseTokens_eq (stop : Span) (ts : List Token) :
    parseTokens stop ts = exprReader stop ts >>= fun q =>
      if q.2 = [] then .ok q.1 else .error (unexpectedAt stop (.token .endOfInput) q.2) := by
  show _ = outcome (readExpr stop ts) >>= _
  rw [parseTokens]
  rcases readExpr stop ts with error | ⟨e, _ | ⟨t, rest⟩, _⟩
  · rfl
  · rfl
  · rfl

theorem parseTokens_eq_ok_iff {ts : List Token} {e : Expr} :
    parseTokens stop ts = .ok e ↔ exprReader stop ts = .ok (e, []) := by
  rw [parseTokens_eq]
  rcases exprReader stop ts with error | ⟨e', _ | ⟨t, rest⟩⟩
  · exact iff_of_false nofun nofun
  · show Except.ok e' = .ok e ↔ _
    simp
  · exact iff_of_false nofun nofun

/-- Parsing fails where reading an expression fails, or at the first token behind an expression. -/
theorem parseTokens_error_cases {ts : List Token} {error : SyntaxError}
    (h : parseTokens stop ts = .error error) :
    exprReader stop ts = .error error ∨
      ∃ e t rest, exprReader stop ts = .ok (e, t :: rest) ∧
        error = unexpectedAt stop (.token .endOfInput) (t :: rest) := by
  rw [parseTokens_eq] at h
  rcases hr : exprReader stop ts with error' | ⟨e, _ | ⟨t, rest⟩⟩
  · rw [hr] at h
    obtain rfl := Except.error.inj h
    exact .inl rfl
  · rw [hr] at h
    cases h
  · rw [hr] at h
    exact .inr ⟨e, t, rest, rfl, (Except.error.inj h).symm⟩

end PolyLet
