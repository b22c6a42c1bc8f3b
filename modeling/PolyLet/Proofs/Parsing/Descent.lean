import PolyLet.Proofs.Parsing.Reader

/-!
# Descent through a token stream

The readers take tokens from a list. The same grammar can be read by moving a position forward
through a stream of tokens that ends with the end of the input, one function for each phrase and a
loop for each list of phrases, where nothing in the text of the functions says that the position
ever reaches an end: such a computation may run forever. It does not. From every position it does
what the readers do on the tokens up to the next end of the input, which are lists that get shorter.

## Main definitions

* `TokenStream`: tokens that end with the end of the input, and `TokenStream.ofTokens` of any tokens
* `Descent α`: computations that move a position, and may fail or not come to an end
* `TokenStream.expr`, `TokenStream.pattern` and the others: the phrases of the grammar
* `Ahead ks eof pos ws`: from the position on there are the tokens `ws` and then the end `eof`
* `Follows ks eof K n least x r`: a computation does what a reader does on fewer than `n` tokens

## Main results

* `Follows.bind`: one computation after another
* `follows_pattern`, `follows_paramLoop`, `follows_binder`: the descent through patterns
* `follows_expr`, `follows_atom`, `follows_argLoop` and the others: the descent through expressions
-/

namespace PolyLet

/-! ## Token streams -/

/-- Tokens that end with the end of the input. What is behind the last token is taken for an end of
the input at `stop`. -/
structure TokenStream where
  tokens : List Token
  stop : Span
  ends : tokens.getLast?.map Token.kind = some .endOfInput

namespace TokenStream

/-- The stream of the tokens that are no comments. An end of the input is added if there is none. -/
def ofTokens (stop : Span) (ts : List Token) : TokenStream :=
  let kept := ts.filter fun t => !t.kind.isTrivia
  if h : kept.getLast?.map Token.kind = some .endOfInput then ⟨kept, stop, h⟩
  else ⟨kept ++ [⟨.endOfInput, "", stop⟩], stop, by simp⟩

theorem tokens_ofTokens {stop : Span} {ts : List Token}
    (h : (ts.filter fun t => !t.kind.isTrivia).getLast?.map Token.kind = some .endOfInput) :
    (ofTokens stop ts).tokens = ts.filter fun t => !t.kind.isTrivia := by
  rw [ofTokens]
  simp only [dif_pos h]

/-- The token at a position. -/
def tokenAt (ks : TokenStream) (pos : Nat) : Token :=
  ks.tokens[pos]?.getD ⟨.endOfInput, "", ks.stop⟩

end TokenStream

/-! ## Computations that move a position -/

/-- Computations that move a position and may fail. There is no result if the computation does not
come to an end. -/
abbrev Descent :=
  ExceptT SyntaxError (StateT Nat Option)

namespace Descent

variable {α β : Type}

/-- The result of a computation from a position on, and the position that it has come to. -/
def runAt (x : Descent α) (pos : Nat) : Option (Except SyntaxError α × Nat) :=
  x.run.run pos

theorem runAt_bind_of_ok {x : Descent α} {f : α → Descent β} {v : α} {pos pos' : Nat}
    (h : x.runAt pos = some (.ok v, pos')) : (x >>= f).runAt pos = (f v).runAt pos' := by
  show (x.runAt pos >>= fun q => (ExceptT.bindCont f q.1).run q.2) = _
  rw [h]
  rfl

theorem runAt_bind_of_error {x : Descent α} {f : α → Descent β} {e : SyntaxError} {pos pos' : Nat}
    (h : x.runAt pos = some (.error e, pos')) : (x >>= f).runAt pos = some (.error e, pos') := by
  show (x.runAt pos >>= fun q => (ExceptT.bindCont f q.1).run q.2) = _
  rw [h]
  rfl

end Descent

namespace TokenStream

open PolyLet.Descent

variable {α : Type}

/-- The token at the position. -/
def current (ks : TokenStream) : Descent Token := do
  return ks.tokenAt (← get)

/-- The token behind the one at the position. -/
def second (ks : TokenStream) : Descent Token := do
  return ks.tokenAt ((← get) + 1)

/-- Takes the token at the position. The end of the input is never taken. -/
def advance (ks : TokenStream) : Descent Token := do
  let t ← ks.current
  if t.kind ≠ .endOfInput then
    modify (· + 1)
  return t

/-- Gives up at the position. -/
def fail (ks : TokenStream) (wanted : Wanted) : Descent α := do
  let t ← ks.current
  throw (.unexpected wanted t.kind t.span)

/-- Takes a token of the given kind, or gives up. -/
def expect (ks : TokenStream) (wanted : Wanted) (kind : TokenKind) : Descent Token := do
  let t ← ks.current
  if t.kind = kind then ks.advance else ks.fail wanted

/-- Takes a token of the given kind if there is one. -/
def eat (ks : TokenStream) (kind : TokenKind) : Descent Bool := do
  let t ← ks.current
  if t.kind = kind then
    let _ ← ks.advance
    return true
  else
    return false

/-! ## The phrases of the grammar -/

mutual

/-- A pattern and its place. -/
def pattern (ks : TokenStream) : Descent (Pattern × Span) := do
  let t ← ks.current
  if t.kind = .name then
    let x ← ks.advance
    return (.var x.text, x.span)
  else if t.kind = .openParen then
    let o ← ks.advance
    let t' ← ks.current
    let ps ← (if t'.kind = .closeParen then pure [] else do
      let p ← ks |>.pattern
      ks |>.patternLoop [p.1])
    let c ← ks.expect (.closing o.span) .closeParen
    return (.ofElems ps, o.span.merge c.span)
  else
    ks.fail .pattern
partial_fixpoint

/-- The patterns in parentheses, where `ps` are those before the position. -/
def patternLoop (ks : TokenStream) (ps : List Pattern) : Descent (List Pattern) := do
  if ← ks.eat .comma then
    let p ← ks |>.pattern
    ks |>.patternLoop (ps ++ [p.1])
  else
    return ps
partial_fixpoint

end

/-- The parameters of a function, where `ps` are those before the position. -/
def paramLoop (ks : TokenStream) (ps : List (Pattern × Span)) :
    Descent (List (Pattern × Span)) := do
  let t ← ks.current
  if t.kind = .equals then
    return ps
  else
    let p ← ks |>.pattern
    ks |>.paramLoop (ps ++ [p])
partial_fixpoint

/-- What a `let` binds. -/
def binder (ks : TokenStream) : Descent (Pattern × List (Pattern × Span)) := do
  let t ← ks.current
  let t' ← ks.second
  if t.kind = .name ∧ t'.kind ≠ .equals then
    let x ← ks.advance
    let ps ← ks |>.paramLoop []
    return (.var x.text, ps)
  else
    let p ← ks |>.pattern
    return (p.1, [])

mutual

/-- An expression. -/
def expr (ks : TokenStream) : Descent Expr := do
  let t ← ks.current
  if t.kind = .kwFn then
    ks |>.function
  else if t.kind = .kwLet then
    ks |>.letIn
  else if t.kind = .kwIf then
    ks |>.conditional
  else
    ks |>.application
partial_fixpoint

/-- A function. -/
def function (ks : TokenStream) : Descent Expr := do
  let f ← ks.expect (.token .kwFn) .kwFn
  let p ← ks |>.pattern
  let _ ← ks.expect (.token .arrow) .arrow
  let body ← ks |>.expr
  return .lam (f.span.merge body.span) p.1 body
partial_fixpoint

/-- A `let`. -/
def letIn (ks : TokenStream) : Descent Expr := do
  let l ← ks.expect (.token .kwLet) .kwLet
  let b ← ks |>.binder
  let _ ← ks.expect (.token .equals) .equals
  let bound ← ks |>.expr
  let _ ← ks.expect (.token .kwIn) .kwIn
  let body ← ks |>.expr
  return .letIn (l.span.merge body.span) b.1 (curry b.2 bound) body
partial_fixpoint

/-- An `if`. -/
def conditional (ks : TokenStream) : Descent Expr := do
  let i ← ks.expect (.token .kwIf) .kwIf
  let cond ← ks |>.expr
  let _ ← ks.expect (.token .kwThen) .kwThen
  let a ← ks |>.expr
  let _ ← ks.expect (.token .kwElse) .kwElse
  let b ← ks |>.expr
  return .ite (i.span.merge b.span) cond a b
partial_fixpoint

/-- An atom and its arguments. -/
def application (ks : TokenStream) : Descent Expr := do
  let func ← ks |>.atom
  ks |>.argLoop func
partial_fixpoint

/-- The arguments of a function, where `func` is the application to those before the position. -/
def argLoop (ks : TokenStream) (func : Expr) : Descent Expr := do
  let t ← ks.current
  if startsAtom t.kind = true then
    let arg ← ks |>.atom
    ks |>.argLoop (applyTo func arg)
  else if startsBlock t.kind = true then
    let arg ← ks |>.expr
    return applyTo func arg
  else
    return func
partial_fixpoint

/-- A literal, a name or an expression in parentheses. -/
def atom (ks : TokenStream) : Descent Expr := do
  let t ← ks.current
  if t.kind = .integer then
    let x ← ks.advance
    return .int t.span (literalValue x.text)
  else if t.kind = .kwTrue ∨ t.kind = .kwFalse then
    let x ← ks.advance
    return .bool t.span (x.kind = .kwTrue)
  else if t.kind = .name then
    let x ← ks.advance
    return .var t.span x.text
  else if t.kind = .openParen then
    ks |>.parens
  else
    ks.fail .expression
partial_fixpoint

/-- An expression or a tuple in parentheses. -/
def parens (ks : TokenStream) : Descent Expr := do
  let o ← ks.expect (.token .openParen) .openParen
  let t ← ks.current
  let es ← (if t.kind = .closeParen then pure [] else do
    let e ← ks |>.expr
    ks |>.elemLoop [e])
  let c ← ks.expect (.closing o.span) .closeParen
  return ofParens (o.span.merge c.span) es
partial_fixpoint

/-- The expressions in parentheses, where `es` are those before the position. -/
def elemLoop (ks : TokenStream) (es : List Expr) : Descent (List Expr) := do
  if ← ks.eat .comma then
    let e ← ks |>.expr
    ks |>.elemLoop (es ++ [e])
  else
    return es
partial_fixpoint

end

/-- An expression up to the end of the input. -/
def program (ks : TokenStream) : Descent Expr := do
  let e ← ks |>.expr
  let t ← ks.current
  if t.kind ≠ .endOfInput then
    ks.fail (.token .endOfInput)
  else
    return e

theorem runAt_advance {ks : TokenStream} {pos : Nat} (h : (ks.tokenAt pos).kind ≠ .endOfInput) :
    ks.advance.runAt pos = some (.ok (ks.tokenAt pos), pos + 1) := by
  rw [advance, runAt_bind_of_ok rfl, if_pos h]
  rfl

end TokenStream

/-! ## The tokens ahead -/

variable {α β : Type} {ks : TokenStream} {eof : Token} {pos n m l : Nat} {ws used rest : List Token}

/-- From the position on there are the tokens `ws` and then the end of the input `eof`. -/
structure Ahead (ks : TokenStream) (eof : Token) (pos : Nat) (ws : List Token) : Prop where
  exists_drop : ∃ behind, ks.tokens.drop pos = ws ++ eof :: behind
  kind_ne : ∀ t ∈ ws, t.kind ≠ .endOfInput
  kind_eof : eof.kind = .endOfInput

/-- The stream has an end of the input at or behind each of its positions. -/
theorem TokenStream.exists_ahead (ks : TokenStream) (h : pos < ks.tokens.length) :
    ∃ eof ws, Ahead ks eof pos ws := by
  obtain ⟨last, hlast, hkind⟩ := Option.map_eq_some_iff.mp ks.ends
  have hmem : last ∈ ks.tokens.drop pos := by
    refine List.mem_of_getLast? ?_
    rw [List.getLast?_drop, if_neg (by omega), hlast]
  have hfound : ((ks.tokens.drop pos).find? (·.kind = .endOfInput)).isSome = true :=
    List.find?_isSome.mpr ⟨last, hmem, decide_eq_true hkind⟩
  obtain ⟨eof, heof⟩ := Option.isSome_iff_exists.mp hfound
  obtain ⟨hk, ws, behind, hdrop, hws⟩ := List.find?_eq_some_iff_append.mp heof
  exact ⟨eof, ws, ⟨behind, hdrop⟩, fun t ht => by simpa using hws t ht, of_decide_eq_true hk⟩

namespace Ahead

theorem tokenAt_eq (h : Ahead ks eof pos ws) : ks.tokenAt pos = ws.head?.getD eof := by
  obtain ⟨behind, hdrop⟩ := h.exists_drop
  rw [TokenStream.tokenAt, ← List.head?_drop, hdrop]
  cases ws <;> rfl

theorem kind_tokenAt (h : Ahead ks eof pos ws) : (ks.tokenAt pos).kind = headKind ws := by
  rw [h.tokenAt_eq]
  cases ws with
  | nil => exact h.kind_eof
  | cons t rest => rfl

theorem unexpectedAt_eq (h : Ahead ks eof pos ws) (wanted : Wanted) :
    unexpectedAt eof.span wanted ws =
      .unexpected wanted (ks.tokenAt pos).kind (ks.tokenAt pos).span := by
  rw [h.kind_tokenAt, h.tokenAt_eq]
  cases ws <;> rfl

theorem drop (h : Ahead ks eof pos (used ++ rest)) : Ahead ks eof (pos + used.length) rest := by
  obtain ⟨behind, hdrop⟩ := h.exists_drop
  refine ⟨⟨behind, ?_⟩, fun t ht => h.kind_ne t (List.mem_append_right used ht), h.kind_eof⟩
  rw [← List.drop_drop, hdrop, List.append_assoc, List.drop_left]

theorem tail {t : Token} (h : Ahead ks eof pos (t :: ws)) : Ahead ks eof (pos + 1) ws :=
  have h' : Ahead ks eof pos ([t] ++ ws) := h
  h'.drop

theorem lt_length (h : Ahead ks eof pos ws) : pos + ws.length < ks.tokens.length := by
  obtain ⟨behind, hdrop⟩ := h.exists_drop
  have hlength := congrArg List.length hdrop
  simp only [List.length_drop, List.length_append, List.length_cons] at hlength
  omega

end Ahead

/-! ## Computations that do what readers do -/

/-- The reader of a token of the given kind, where something else is said to be wanted. -/
def expectReader (stop : Span) (wanted : Wanted) (kind : TokenKind) : Reader Token := do
  let k ← Reader.peek
  if k = kind then tokenReader stop kind else Reader.fail stop wanted

theorem expectReader_token (stop : Span) (kind : TokenKind) :
    expectReader stop (.token kind) kind = tokenReader stop kind := by
  funext ts
  rw [expectReader, Reader.peek_bind]
  split
  next => rfl
  next h => exact (tokenReader_of_ne h).symm

/-- From the position on, the computation does what the reader does with the tokens ahead, and moves
the position by the tokens that it takes. If it succeeds, these are at least `least` many. -/
inductive Agrees (x : Descent α) (r : Reader α) (least pos : Nat) : List Token → Prop
  | ok {v : α} (used rest : List Token) (hr : r (used ++ rest) = .ok (v, rest))
      (hx : x.runAt pos = some (.ok v, pos + used.length)) (hleast : least ≤ used.length) :
      Agrees x r least pos (used ++ rest)
  | error {e : SyntaxError} (used rest : List Token) (hr : r (used ++ rest) = .error e)
      (hx : x.runAt pos = some (.error e, pos + used.length)) :
      Agrees x r least pos (used ++ rest)

/-- The computation does what the reader does wherever fewer than `n` tokens are ahead and the token
at the position is one of `K`. -/
def Follows (ks : TokenStream) (eof : Token) (K : Token → Prop) (n least : Nat) (x : Descent α)
    (r : Reader α) : Prop :=
  ∀ pos ws, Ahead ks eof pos ws → ws.length < n → K (ks.tokenAt pos) → Agrees x r least pos ws

namespace Follows

open PolyLet.Descent PolyLet.TokenStream

variable {K : Token → Prop} {x : Descent α} {f : α → Descent β} {r : Reader α} {g : α → Reader β}

theorem of_forall (h : Follows ks eof (fun _ => True) n m x r) : Follows ks eof K n m x r :=
  fun pos ws hahead hlength _ => h pos ws hahead hlength trivial

theorem of_le (h : Follows ks eof K n m x r) (hl : l ≤ m) : Follows ks eof K n l x r := by
  intro pos ws hahead hlength hK
  cases h pos ws hahead hlength hK with
  | error used rest hr hx => exact .error used rest hr hx
  | ok used rest hr hx hm => exact .ok used rest hr hx (Nat.le_trans hl hm)

theorem mono {k : Nat} (h : Follows ks eof K n m x r) (hk : k ≤ n) : Follows ks eof K k m x r :=
  fun pos ws hahead hlength hK => h pos ws hahead (Nat.lt_of_lt_of_le hlength hk) hK

theorem zero (x : Descent α) (r : Reader α) : Follows ks eof K 0 m x r :=
  fun _ _ _ hlength _ => absurd hlength (Nat.not_lt_zero _)

theorem pure (v : α) : Follows ks eof K n 0 (Pure.pure v) (Pure.pure v) :=
  fun _ ws _ _ _ => .ok [] ws rfl rfl (Nat.zero_le 0)

theorem fail (wanted : Wanted) :
    Follows ks eof K n m (ks.fail wanted : Descent α) (Reader.fail eof.span wanted) :=
  fun _ ws hahead _ _ => .error [] ws (congrArg Except.error (hahead.unexpectedAt_eq wanted)) rfl

/-- **One computation after another.** The second one has fewer tokens ahead, by those that the
first one takes. -/
theorem bind_of_le {k : Nat} (hk : k ≤ n + m) (hx : Follows ks eof K k m x r)
    (hf : ∀ v, Follows ks eof (fun _ => True) n l (f v) (g v)) :
    Follows ks eof K k m (x >>= f) (r >>= g) := by
  intro pos ws hahead hlength hK
  cases hx pos ws hahead hlength hK with
  | error used rest hr hx =>
    exact .error used rest (Reader.bind_of_error hr) (runAt_bind_of_error hx)
  | @ok v used rest hr hx hm =>
    rw [List.length_append] at hlength
    cases hf v _ rest hahead.drop (by omega) trivial with
    | error used' rest' hr' hx' =>
      rw [← List.append_assoc] at hr ⊢
      refine .error _ _ ((Reader.bind_of_ok hr).trans hr')
        ((runAt_bind_of_ok hx).trans (hx'.trans ?_))
      rw [List.length_append, Nat.add_assoc]
    | ok used' rest' hr' hx' hm' =>
      rw [← List.append_assoc] at hr ⊢
      refine .ok _ _ ((Reader.bind_of_ok hr).trans hr')
        ((runAt_bind_of_ok hx).trans (hx'.trans ?_)) ?_
      · rw [List.length_append, Nat.add_assoc]
      · rw [List.length_append]
        omega

theorem bind (hx : Follows ks eof K (n + 1) 1 x r)
    (hf : ∀ v, Follows ks eof (fun _ => True) n l (f v) (g v)) :
    Follows ks eof K (n + 1) 1 (x >>= f) (r >>= g) :=
  hx.bind_of_le (Nat.le_refl _) hf

theorem andThen (hx : Follows ks eof K n m x r)
    (hf : ∀ v, Follows ks eof (fun _ => True) n l (f v) (g v)) :
    Follows ks eof K n m (x >>= f) (r >>= g) :=
  hx.bind_of_le (Nat.le_add_right n m) hf

/-- A look at the token at the position. -/
theorem current {f : Token → Descent α} {g : TokenKind → Reader α}
    (h : ∀ t, K t → Follows ks eof (· = t) n m (f t) (g t.kind)) :
    Follows ks eof K n m (ks.current >>= f) (Reader.peek >>= g) := by
  intro pos ws hahead hlength hK
  have hx : (ks.current >>= f).runAt pos = (f (ks.tokenAt pos)).runAt pos := rfl
  have hr : (Reader.peek >>= g) ws = g (ks.tokenAt pos).kind ws := by
    rw [Reader.peek_bind, hahead.kind_tokenAt]
  cases h _ hK pos ws hahead hlength rfl with
  | error used rest hr' hx' => exact .error used rest (hr.trans hr') (hx.trans hx')
  | ok used rest hr' hx' hm => exact .ok used rest (hr.trans hr') (hx.trans hx') hm

theorem ite {c : Prop} [Decidable c] {y : Descent α} {r' : Reader α}
    (hpos : c → Follows ks eof K n m x r) (hneg : ¬c → Follows ks eof K n m y r') :
    Follows ks eof K n m (if c then x else y) (if c then r else r') := by
  split
  next h => exact hpos h
  next h => exact hneg h

/-- Taking the token at the position, and then another computation. -/
theorem advance_bind {t : Token} {kind : TokenKind} {f : Token → Descent α} {g : Token → Reader α}
    (ht : t.kind = kind) (hkind : kind ≠ .endOfInput)
    (h : Follows ks eof (fun _ => True) n m (f t) (g t)) :
    Follows ks eof (· = t) (n + 1) 1 (ks.advance >>= f) (tokenReader eof.span kind >>= g) := by
  rintro pos ws hahead hlength rfl
  cases ws with
  | nil => exact absurd (ht.symm.trans hahead.kind_tokenAt) hkind
  | cons w rest =>
    obtain rfl : ks.tokenAt pos = w := hahead.tokenAt_eq
    have hx := runAt_bind_of_ok (f := f) (runAt_advance (ht ▸ hkind))
    have hr (rest : List Token) : (tokenReader eof.span kind >>= g) (_ :: rest) = _ :=
      bind_tokenReader ht g rest
    have hmove (used : List Token) :
        pos + 1 + used.length = pos + (ks.tokenAt pos :: used).length := by
      rw [List.length_cons]
      omega
    cases h (pos + 1) rest hahead.tail (Nat.lt_of_succ_lt_succ hlength) trivial with
    | error used rest hr' hx' =>
      exact .error (_ :: used) rest ((hr _).trans hr') (hmove used ▸ hx.trans hx')
    | ok used rest hr' hx' _ =>
      exact .ok (_ :: used) rest ((hr _).trans hr') (hmove used ▸ hx.trans hx')
        (Nat.succ_pos used.length)

/-- Taking a token of a kind, or giving up. -/
theorem expect {kind : TokenKind} (wanted : Wanted) (hkind : kind ≠ .endOfInput) :
    Follows ks eof K n 1 (ks.expect wanted kind) (expectReader eof.span wanted kind) := by
  cases n with
  | zero => exact zero _ _
  | succ n =>
    refine .current fun t _ => .ite (fun ht => ?_) fun _ => .fail wanted
    have h : Follows ks eof (· = t) (n + 1) 1 (ks.advance >>= Pure.pure) _ :=
      advance_bind ht hkind (.pure t)
    rwa [bind_pure, bind_pure] at h

theorem token {kind : TokenKind} (hkind : kind ≠ .endOfInput) :
    Follows ks eof K n 1 (ks.expect (.token kind) kind) (tokenReader eof.span kind) := by
  rw [← expectReader_token]
  exact expect _ hkind

end Follows

/-! ## Lists in parentheses -/

/-- The list `vs` and the place of the parenthesis that closes it. -/
def TokenStream.closing (ks : TokenStream) (opened : Span) (vs : List α) :
    Descent (List α × Span) := do
  let c ← ks.expect (.closing opened) .closeParen
  return (vs, c.span)

theorem TokenStream.eat_bind (kind : TokenKind) (f : Bool → Descent α) :
    (ks.eat kind >>= f) = (do
      let t ← ks.current
      if t.kind = kind then
        let _ ← ks.advance
        f true
      else
        f false) := by
  rw [eat, bind_assoc]
  congr 1
  funext t
  split
  next => rw [bind_assoc]; simp only [pure_bind]
  next => rw [pure_bind]

/-- The reader of the parenthesis that closes a list, with the empty list in front of it. -/
def closingReader (stop opened : Span) : Reader (List α × Span) := do
  let c ← expectReader stop (.closing opened) .closeParen
  return ([], c.span)

/-- The reader of a list in parentheses, where `moreReader` reads what is behind the first value. -/
def listReader (stop opened : Span) (itemReader : Reader β) (value : β → α)
    (moreReader : Reader (List α × Span)) : Reader (List α × Span) := do
  let k ← Reader.peek
  if k = .closeParen then
    closingReader stop opened
  else
    let v ← itemReader
    let q ← moreReader
    return (value v :: q.1, q.2)

theorem closingReader_bind {stop opened : Span} {f : List α × Span → Reader β} :
    (closingReader stop opened >>= f) = (do
      let k ← Reader.peek
      if k = .closeParen then
        let c ← tokenReader stop .closeParen
        f ([], c.span)
      else
        Reader.fail stop (.closing opened)) := by
  funext ts
  rw [closingReader, bind_assoc, expectReader, bind_assoc, Reader.peek_bind, Reader.peek_bind]
  split
  next => simp only [pure_bind]
  next => rfl

/-- Behind a value of a list there is a comma and more values, or the closing parenthesis. -/
theorem peek_closingReader {stop opened : Span} {r : Reader (List α × Span)} :
    (do
      let k ← Reader.peek
      if k = .comma then
        r
      else if k = .closeParen then
        let c ← tokenReader stop .closeParen
        return ([], c.span)
      else Reader.fail stop (.closing opened) : Reader (List α × Span)) = (do
      let k ← Reader.peek
      if k = .comma then r else closingReader stop opened) := by
  funext ts
  rw [Reader.peek_bind, Reader.peek_bind]
  split
  next => rfl
  next => rw [← bind_pure (closingReader stop opened), closingReader_bind, Reader.peek_bind]

theorem listReader_bind {γ : Type} {stop opened : Span} {itemReader : Reader β} {value : β → α}
    {moreReader : Reader (List α × Span)} {f : List α × Span → Reader γ} :
    (listReader stop opened itemReader value moreReader >>= f) = (do
      let k ← Reader.peek
      if k = .closeParen then
        let c ← tokenReader stop .closeParen
        f ([], c.span)
      else
        let v ← itemReader
        let q ← moreReader
        f (value v :: q.1, q.2)) := by
  funext ts
  rw [listReader, bind_assoc, Reader.peek_bind, Reader.peek_bind]
  split
  next h => rw [closingReader_bind, Reader.peek_bind, if_pos h]
  next => simp only [bind_assoc, pure_bind]

section Lists

variable {γ : Type} {item : Descent β} {itemReader : Reader β} {value : β → α}
  {loop : List α → Descent (List α)} {moreReader : Reader (List α × Span)} {opened : Span}

theorem follows_closing (vs : List α) :
    Follows ks eof (fun _ => True) n 1 (ks.closing opened vs)
      (closingReader eof.span opened >>= fun q => pure (vs ++ q.1, q.2)) := by
  rw [closingReader, bind_assoc]
  refine (Follows.expect _ (by decide)).andThen (l := 0) fun c => ?_
  rw [pure_bind, List.append_nil]
  exact .pure _

/-- **A loop over the values of a list stops.** Each round takes a comma. -/
theorem follows_loop
    (hloop : ∀ vs, loop vs = (do
      if ← ks.eat .comma then
        let v ← item
        loop (vs ++ [value v])
      else
        return vs))
    (hmore : moreReader = (do
      let k ← Reader.peek
      if k = .comma then
        let _ ← tokenReader eof.span .comma
        let v ← itemReader
        let q ← moreReader
        return (value v :: q.1, q.2)
      else
        closingReader eof.span opened))
    (hitem : Follows ks eof (fun _ => True) n 1 item itemReader) (vs : List α) :
    Follows ks eof (fun _ => True) n 1 (loop vs >>= ks.closing opened)
      (moreReader >>= fun q => pure (vs ++ q.1, q.2)) := by
  induction n generalizing vs with
  | zero => exact .zero _ _
  | succ n ih =>
    have hitem' := hitem.mono (Nat.le_succ n)
    rw [hloop, hmore, TokenStream.eat_bind, bind_assoc, bind_assoc]
    refine .current fun t _ => ?_
    by_cases ht : t.kind = .comma
    · -- the next round has gathered the value where the reader puts it in front of the others
      simp only [if_pos ht, if_true, bind_assoc, pure_bind]
      refine .advance_bind ht (by decide) (hitem'.andThen (l := 1) fun v => ?_)
      have h := ih hitem' (vs ++ [value v])
      simp only [List.append_assoc, List.singleton_append] at h
      exact h
    · simp only [if_neg ht, pure_bind, Bool.false_eq_true, if_false]
      exact (follows_closing vs).of_forall

/-- A list in parentheses, from behind the opening one on. -/
theorem follows_list (hitem : Follows ks eof (fun _ => True) n 1 item itemReader)
    (hloop : ∀ vs, Follows ks eof (fun _ => True) n 1 (loop vs >>= ks.closing opened)
      (moreReader >>= fun q => pure (vs ++ q.1, q.2)))
    (f : List α → Span → γ) :
    Follows ks eof (fun _ => True) n 1 (do
      let t ← ks.current
      let vs ← (if t.kind = .closeParen then pure [] else do
        let v ← item
        loop [value v])
      let c ← ks.expect (.closing opened) .closeParen
      return f vs c.span)
      (listReader eof.span opened itemReader value moreReader >>= fun q => pure (f q.1 q.2)) := by
  have hclose (vs : List α) : (do
      let c ← ks.expect (.closing opened) .closeParen
      return f vs c.span) = ks.closing opened vs >>= fun q => pure (f q.1 q.2) := by
    simp only [TokenStream.closing, bind_assoc, pure_bind]
  simp only [hclose]
  rw [listReader, bind_assoc]
  refine .current fun t _ => ?_
  by_cases ht : t.kind = .closeParen
  · simp only [if_pos ht, pure_bind]
    have h : Follows ks eof (fun _ => True) n 1 (ks.closing opened ([] : List α)) _ :=
      follows_closing []
    simp only [List.nil_append] at h
    rw [bind_pure] at h
    exact h.of_forall.andThen fun q => .pure _
  · simp only [if_neg ht]
    have h := (hitem.andThen fun v => hloop [value v]).andThen fun q => .pure (f q.1 q.2)
    simp only [bind_assoc, pure_bind] at h ⊢
    exact h.of_forall

end Lists

/-! ## Patterns -/

theorem patternReader_eq_list (stop : Span) :
    patternReader stop = (do
      let k ← Reader.peek
      if k = .name then
        let x ← tokenReader stop .name
        return (.var x.text, x.span)
      else if k = .openParen then
        let o ← tokenReader stop .openParen
        let q ← listReader stop o.span (patternReader stop) Prod.fst
          (patternElemsReader stop o.span)
        return (.ofElems q.1, o.span.merge q.2)
      else
        Reader.fail stop .pattern) := by
  simp only [listReader_bind]
  exact patternReader_eq stop

theorem patternElemsReader_eq_closing (stop opened : Span) :
    patternElemsReader stop opened = (do
      let k ← Reader.peek
      if k = .comma then
        let _ ← tokenReader stop .comma
        let p ← patternReader stop
        let q ← patternElemsReader stop opened
        return (p.1 :: q.1, q.2)
      else
        closingReader stop opened) :=
  (patternElemsReader_eq stop opened).trans peek_closingReader

open Descent TokenStream

theorem follows_pattern (ks : TokenStream) (eof : Token) (n : Nat) :
    Follows ks eof (fun _ => True) n 1 ks.pattern (patternReader eof.span) := by
  induction n with
  | zero => exact .zero _ _
  | succ n ih =>
    rw [pattern, patternReader_eq_list]
    refine .current fun t _ => .ite (fun ht => ?_) fun _ => .ite (fun ht => ?_) fun _ => .fail _
    · exact .advance_bind ht (by decide) (.pure _)
    · refine .advance_bind ht (by decide) (m := 1) ?_
      exact follows_list ih
        (follows_loop (patternLoop.eq_1 ks) (patternElemsReader_eq_closing eof.span t.span) ih)
        fun ps close => (Pattern.ofElems ps, t.span.merge close)

/-- **The loop over the parameters of a function stops.** Each round takes a pattern. -/
theorem follows_paramLoop (ks : TokenStream) (eof : Token) (n : Nat) (ps : List (Pattern × Span)) :
    Follows ks eof (fun _ => True) n 0 (ks.paramLoop ps)
      (paramsReader eof.span >>= fun qs => pure (ps ++ qs)) := by
  induction n generalizing ps with
  | zero => exact .zero _ _
  | succ n ih =>
    rw [paramLoop, paramsReader_eq, bind_assoc]
    refine .current fun t _ => ?_
    by_cases ht : t.kind = .equals
    · simp only [if_pos ht, pure_bind, List.append_nil]
      exact .pure ps
    · simp only [if_neg ht, bind_assoc, pure_bind]
      have h := (follows_pattern ks eof (n + 1)).bind fun p => ih (ps ++ [p])
      simp only [List.append_assoc, List.singleton_append] at h
      exact h.of_forall.of_le (Nat.zero_le 1)

theorem Descent.ext {x y : Descent α} (h : ∀ pos, x.runAt pos = y.runAt pos) : x = y :=
  funext h

theorem runAt_pattern_name {ks : TokenStream} (h : (ks.tokenAt pos).kind = .name) :
    ks.pattern.runAt pos =
      some (.ok (.var (ks.tokenAt pos).text, (ks.tokenAt pos).span), pos + 1) := by
  rw [pattern, runAt_bind_of_ok rfl, if_pos h,
    runAt_bind_of_ok (runAt_advance (by rw [h]; decide))]
  rfl

/-- A name is read in the same way whether parameters follow it or not. -/
theorem binder_eq (ks : TokenStream) :
    ks.binder = (do
      let t ← ks.current
      if t.kind = .name then
        let x ← ks.advance
        let ps ← ks.paramLoop []
        return (.var x.text, ps)
      else
        let p ← ks.pattern
        return (p.1, [])) := by
  refine Descent.ext fun pos => ?_
  rw [binder, runAt_bind_of_ok rfl, runAt_bind_of_ok rfl, runAt_bind_of_ok rfl]
  by_cases hname : (ks.tokenAt pos).kind = .name
  · rw [if_pos hname]
    by_cases heq : (ks.tokenAt (pos + 1)).kind = .equals
    · -- the name is read as a pattern on one side, and before no parameters on the other
      have hloop : (ks.paramLoop []).runAt (pos + 1) = some (.ok [], pos + 1) := by
        rw [paramLoop, runAt_bind_of_ok rfl, if_pos heq]
        rfl
      rw [if_neg fun h => h.2 heq, runAt_bind_of_ok (runAt_pattern_name hname),
        runAt_bind_of_ok (runAt_advance (by rw [hname]; decide)), runAt_bind_of_ok hloop]
    · rw [if_pos ⟨hname, heq⟩]
  · rw [if_neg hname, if_neg fun h => hname h.1]

theorem follows_binder (ks : TokenStream) (eof : Token) (n : Nat) :
    Follows ks eof (fun _ => True) n 1 ks.binder (binderReader eof.span) := by
  rw [binder_eq, binderReader_eq]
  cases n with
  | zero => exact .zero _ _
  | succ n =>
    refine .current fun t _ => .ite (fun ht => ?_) fun _ => ?_
    · refine .advance_bind ht (by decide) (m := 0) ?_
      have h := (follows_paramLoop ks eof n []).andThen fun ps => .pure (Pattern.var t.text, ps)
      simp only [List.nil_append, bind_pure] at h
      exact h
    · exact (follows_pattern ks eof (n + 1)).of_forall.andThen fun p => .pure _

/-! ## Readers of expressions -/

/-- The reader of a function. -/
def functionReader (stop : Span) : Reader Expr := do
  let f ← tokenReader stop .kwFn
  let p ← patternReader stop
  let _ ← tokenReader stop .arrow
  let body ← exprReader stop
  return .lam (f.span.merge body.span) p.1 body

/-- The reader of a `let`. -/
def letReader (stop : Span) : Reader Expr := do
  let l ← tokenReader stop .kwLet
  let b ← binderReader stop
  let _ ← tokenReader stop .equals
  let bound ← exprReader stop
  let _ ← tokenReader stop .kwIn
  let body ← exprReader stop
  return .letIn (l.span.merge body.span) b.1 (curry b.2 bound) body

/-- The reader of an `if`. -/
def conditionalReader (stop : Span) : Reader Expr := do
  let i ← tokenReader stop .kwIf
  let cond ← exprReader stop
  let _ ← tokenReader stop .kwThen
  let a ← exprReader stop
  let _ ← tokenReader stop .kwElse
  let b ← exprReader stop
  return .ite (i.span.merge b.span) cond a b

/-- The reader of an expression or a tuple in parentheses. -/
def parensReader (stop : Span) : Reader Expr := do
  let o ← tokenReader stop .openParen
  let q ← listReader stop o.span (exprReader stop) id (elemsReader stop o.span)
  return ofParens (o.span.merge q.2) q.1

theorem exprReader_eq_cases (stop : Span) :
    exprReader stop = (do
      let k ← Reader.peek
      if k = .kwFn then
        functionReader stop
      else if k = .kwLet then
        letReader stop
      else if k = .kwIf then
        conditionalReader stop
      else
        let func ← atomReader stop
        argsReader stop func) := by
  funext ts
  rw [Reader.peek_bind]
  by_cases h : startsBlock (headKind ts) = true
  · rw [exprReader_of_startsBlock h, blockReader, Reader.peek_bind]
    rcases startsBlock_iff.mp h with hk | hk | hk <;> rw [hk] <;> rfl
  · rw [exprReader_of_not_startsBlock h]
    rw [startsBlock_iff] at h
    rw [if_neg fun hk => h (.inl hk), if_neg fun hk => h (.inr (.inl hk)),
      if_neg fun hk => h (.inr (.inr hk))]

theorem argsReader_eq_expr (stop : Span) (func : Expr) :
    argsReader stop func = (do
      let k ← Reader.peek
      if startsAtom k = true then
        let arg ← atomReader stop
        argsReader stop (applyTo func arg)
      else if startsBlock k = true then
        let arg ← exprReader stop
        return applyTo func arg
      else
        return func) := by
  funext ts
  refine (congrFun (argsReader_eq stop func) ts).trans ?_
  rw [Reader.peek_bind, Reader.peek_bind]
  split
  next => rfl
  next =>
    split
    next h =>
      show (blockReader stop ts >>= _) = (exprReader stop ts >>= _)
      rw [exprReader_of_startsBlock h]
    next => rfl

theorem atomReader_eq_parens (stop : Span) :
    atomReader stop = (do
      let k ← Reader.peek
      if k = .integer then
        let t ← tokenReader stop .integer
        return .int t.span (literalValue t.text)
      else if k = .kwTrue then
        let t ← tokenReader stop .kwTrue
        return .bool t.span true
      else if k = .kwFalse then
        let t ← tokenReader stop .kwFalse
        return .bool t.span false
      else if k = .name then
        let t ← tokenReader stop .name
        return .var t.span t.text
      else if k = .openParen then
        parensReader stop
      else
        Reader.fail stop .expression) := by
  simp only [parensReader, listReader_bind]
  exact atomReader_eq stop

theorem elemsReader_eq_closing (stop opened : Span) :
    elemsReader stop opened = (do
      let k ← Reader.peek
      if k = .comma then
        let _ ← tokenReader stop .comma
        let e ← exprReader stop
        let q ← elemsReader stop opened
        return (id e :: q.1, q.2)
      else
        closingReader stop opened) :=
  (elemsReader_eq stop opened).trans peek_closingReader

/-! ## Expressions -/

section Expressions

variable (hexpr : Follows ks eof (fun _ => True) n 1 ks.expr (exprReader eof.span))

include hexpr

theorem follows_elemLoop (opened : Span) (es : List Expr) :
    Follows ks eof (fun _ => True) n 1 (ks.elemLoop es >>= ks.closing opened)
      (elemsReader eof.span opened >>= fun q => pure (es ++ q.1, q.2)) :=
  follows_loop (elemLoop.eq_1 ks) (elemsReader_eq_closing eof.span opened) hexpr es

theorem follows_parens :
    Follows ks eof (fun _ => True) (n + 1) 1 ks.parens (parensReader eof.span) := by
  rw [parens, parensReader]
  refine (Follows.token (by decide)).bind (l := 1) fun o => ?_
  exact follows_list hexpr (follows_elemLoop hexpr o.span)
    fun es close => ofParens (o.span.merge close) es

theorem follows_atom :
    Follows ks eof (fun _ => True) (n + 1) 1 ks.atom (atomReader eof.span) := by
  rw [atom, atomReader_eq_parens]
  refine .current fun t _ => .ite (fun ht => ?_) fun _ => ?_
  · exact .advance_bind ht (by decide) (.pure _)
  -- the descent has one case for both truth values, the reader has two
  by_cases htrue : t.kind = .kwTrue
  · rw [if_pos (.inl htrue), if_pos htrue]
    refine .advance_bind htrue (by decide) (m := 0) ?_
    rw [htrue]
    exact .pure _
  by_cases hfalse : t.kind = .kwFalse
  · rw [if_pos (.inr hfalse), if_neg htrue, if_pos hfalse]
    refine .advance_bind hfalse (by decide) (m := 0) ?_
    rw [hfalse]
    exact .pure _
  rw [if_neg fun h => h.elim htrue hfalse, if_neg htrue, if_neg hfalse]
  refine .ite (fun ht => ?_) fun _ => .ite (fun _ => ?_) fun _ => .fail _
  · exact .advance_bind ht (by decide) (.pure _)
  · exact (follows_parens hexpr).of_forall

/-- **The loop over the arguments of a function stops.** Each round takes an atom. -/
theorem follows_argLoop (func : Expr) :
    Follows ks eof (fun _ => True) n 0 (ks.argLoop func) (argsReader eof.span func) := by
  induction n generalizing func with
  | zero => exact .zero _ _
  | succ n ih =>
    have hless := hexpr.mono (Nat.le_succ n)
    rw [argLoop, argsReader_eq_expr]
    refine .current fun t _ => .ite (fun _ => ?_) fun _ => .ite (fun _ => ?_) fun _ => .pure func
    · have h := (follows_atom hless).bind fun arg => ih hless (applyTo func arg)
      exact h.of_forall.of_le (Nat.zero_le 1)
    · have h := hexpr.andThen fun arg => .pure (applyTo func arg)
      exact h.of_forall.of_le (Nat.zero_le 1)

theorem follows_application :
    Follows ks eof (fun _ => True) (n + 1) 1 ks.application
      (atomReader eof.span >>= argsReader eof.span) := by
  rw [application]
  exact (follows_atom hexpr).bind (follows_argLoop hexpr)

theorem follows_function :
    Follows ks eof (fun _ => True) (n + 1) 1 ks.function (functionReader eof.span) := by
  rw [function, functionReader]
  exact (Follows.token (by decide)).bind fun f => (follows_pattern ks eof n).andThen fun p =>
    (Follows.token (by decide)).andThen fun _ => hexpr.andThen fun body => .pure _

theorem follows_letIn :
    Follows ks eof (fun _ => True) (n + 1) 1 ks.letIn (letReader eof.span) := by
  rw [letIn, letReader]
  exact (Follows.token (by decide)).bind fun l => (follows_binder ks eof n).andThen fun b =>
    (Follows.token (by decide)).andThen fun _ => hexpr.andThen fun bound =>
      (Follows.token (by decide)).andThen fun _ => hexpr.andThen fun body => .pure _

theorem follows_conditional :
    Follows ks eof (fun _ => True) (n + 1) 1 ks.conditional (conditionalReader eof.span) := by
  rw [conditional, conditionalReader]
  exact (Follows.token (by decide)).bind fun i => hexpr.andThen fun cond =>
    (Follows.token (by decide)).andThen fun _ => hexpr.andThen fun a =>
      (Follows.token (by decide)).andThen fun _ => hexpr.andThen fun b => .pure _

end Expressions

/-- **The descent through expressions does what the readers do.** Every function of the descent
takes a token before it comes back to an expression, so the induction is on the number of tokens
ahead. -/
theorem follows_expr (ks : TokenStream) (eof : Token) (n : Nat) :
    Follows ks eof (fun _ => True) n 1 ks.expr (exprReader eof.span) := by
  induction n with
  | zero => exact .zero _ _
  | succ n ih =>
    rw [expr, exprReader_eq_cases]
    refine .current fun t _ => .ite (fun _ => ?_) fun _ => .ite (fun _ => ?_) fun _ =>
      .ite (fun _ => ?_) fun _ => ?_
    · exact (follows_function ih).of_forall
    · exact (follows_letIn ih).of_forall
    · exact (follows_conditional ih).of_forall
    · exact (follows_application ih).of_forall

end PolyLet
