import PolyLet.Expr.Parser

/-!
# The grammar

Which lists of words are expressions, and of which tree, said without a reader. A word is a token
without its place, and the trees have no places either. The rules are those of the grammar

```text
expr    := block | app
block   := 'fn' pattern '->' expr
         | 'let' binder '=' expr 'in' expr
         | 'if' expr 'then' expr 'else' expr
binder  := name pattern+ | pattern
app     := atom+ [block]
atom    := integer | 'True' | 'False' | name | '(' [expr (',' expr)*] ')'
pattern := name | '(' [pattern (',' pattern)*] ')'
```

Application groups to the left. Parentheses around one expression or one pattern leave it as it is,
and a binder with parameters binds its name to a function of them.

## Main definitions

* `Word`, `words`: tokens without their places
* `IsPattern ws p`, `IsBinder ws p params`: the words of patterns and of binders
* `IsExpr ws e`: the words `ws` are an expression whose tree is `e`
* `IsProgram ws`: the words are an expression
-/

namespace PolyLet

/-! ## Words -/

/-- A token without its place. -/
structure Word where
  kind : TokenKind
  text : String
  deriving DecidableEq, Repr

/-- The word of a token. -/
def Token.word (t : Token) : Word :=
  ⟨t.kind, t.text⟩

/-- The words of a list of tokens. -/
def words (ts : List Token) : List Word :=
  ts.map Token.word

@[simp] theorem words_nil : words [] = [] :=
  rfl

@[simp] theorem words_cons (t : Token) (ts : List Token) : words (t :: ts) = t.word :: words ts :=
  rfl

@[simp] theorem words_append (ts us : List Token) : words (ts ++ us) = words ts ++ words us :=
  List.map_append

/-- The word as a token without a place. -/
def Word.toToken (w : Word) : Token :=
  ⟨w.kind, w.text, {}⟩

@[simp] theorem words_toToken (ws : List Word) : words (ws.map Word.toToken) = ws := by
  rw [words, List.map_map]
  exact List.map_id ws

/-! ## Patterns -/

mutual

/-- `pattern := name | '(' [pattern (',' pattern)*] ')'` -/
inductive IsPattern : List Word → Pattern → Prop
  | name {x : Word} (hx : x.kind = .name) : IsPattern [x] (.var x.text)
  | unit {o c : Word} (ho : o.kind = .openParen) (hc : c.kind = .closeParen) :
      IsPattern [o, c] (.tuple [])
  | parens {o c : Word} {ws us : List Word} {p : Pattern} {ps : List Pattern}
      (ho : o.kind = .openParen) (hp : IsPattern ws p) (hps : IsPatternTail us ps)
      (hc : c.kind = .closeParen) : IsPattern (o :: (ws ++ (us ++ [c]))) (.ofElems (p :: ps))

/-- `(',' pattern)*` -/
inductive IsPatternTail : List Word → List Pattern → Prop
  | nil : IsPatternTail [] []
  | cons {m : Word} {ws us : List Word} {p : Pattern} {ps : List Pattern} (hm : m.kind = .comma)
      (hp : IsPattern ws p) (hps : IsPatternTail us ps) :
      IsPatternTail (m :: (ws ++ us)) (p :: ps)

end

/-- `pattern*` -/
inductive IsPatterns : List Word → List Pattern → Prop
  | nil : IsPatterns [] []
  | cons {ws us : List Word} {p : Pattern} {ps : List Pattern} (hp : IsPattern ws p)
      (hps : IsPatterns us ps) : IsPatterns (ws ++ us) (p :: ps)

/-- `binder := name pattern+ | pattern` -/
inductive IsBinder : List Word → Pattern → List Pattern → Prop
  | function {x : Word} {ws : List Word} {params : List Pattern} (hx : x.kind = .name)
      (hps : IsPatterns ws params) (hne : params ≠ []) : IsBinder (x :: ws) (.var x.text) params
  | plain {ws : List Word} {p : Pattern} (hp : IsPattern ws p) : IsBinder ws p []

/-! ## Expressions -/

/-- The tree of a parenthesised list: parentheses around a single expression do not matter. -/
def Expr.ofElems : List Expr → Expr
  | [e] => e
  | es => .tuple {} es

/-- The function with the given parameters, one after the other. -/
def Expr.ofParams (params : List Pattern) (body : Expr) : Expr :=
  params.foldr (.lam {}) body

mutual

/-- `expr := block | atom+ [block]` -/
inductive IsExpr : List Word → Expr → Prop
  | block {ws : List Word} {e : Expr} (h : IsBlock ws e) : IsExpr ws e
  | atoms {ws : List Word} {e : Expr} (h : IsAtoms ws e) : IsExpr ws e
  | atomsBlock {ws us : List Word} {func arg : Expr} (hf : IsAtoms ws func) (ha : IsBlock us arg) :
      IsExpr (ws ++ us) (.app {} func arg)

/-- `block := 'fn' pattern '->' expr | 'let' binder '=' expr 'in' expr
| 'if' expr 'then' expr 'else' expr` -/
inductive IsBlock : List Word → Expr → Prop
  | fn {f a : Word} {ps bs : List Word} {p : Pattern} {body : Expr} (hf : f.kind = .kwFn)
      (hp : IsPattern ps p) (ha : a.kind = .arrow) (hb : IsExpr bs body) :
      IsBlock (f :: (ps ++ a :: bs)) (.lam {} p body)
  | letIn {l q i : Word} {ps es bs : List Word} {p : Pattern} {params : List Pattern}
      {bound body : Expr} (hl : l.kind = .kwLet) (hp : IsBinder ps p params) (hq : q.kind = .equals)
      (he : IsExpr es bound) (hi : i.kind = .kwIn) (hb : IsExpr bs body) :
      IsBlock (l :: (ps ++ q :: (es ++ i :: bs))) (.letIn {} p (.ofParams params bound) body)
  | ite {i t e : Word} {cs as bs : List Word} {cond a b : Expr} (hi : i.kind = .kwIf)
      (hc : IsExpr cs cond) (ht : t.kind = .kwThen) (ha : IsExpr as a) (he : e.kind = .kwElse)
      (hb : IsExpr bs b) : IsBlock (i :: (cs ++ t :: (as ++ e :: bs))) (.ite {} cond a b)

/-- `atom+`, each atom but the first an argument of those before it. -/
inductive IsAtoms : List Word → Expr → Prop
  | one {ws : List Word} {e : Expr} (h : IsAtom ws e) : IsAtoms ws e
  | app {ws us : List Word} {func arg : Expr} (hf : IsAtoms ws func) (ha : IsAtom us arg) :
      IsAtoms (ws ++ us) (.app {} func arg)

/-- `atom := integer | 'True' | 'False' | name | '(' [expr (',' expr)*] ')'` -/
inductive IsAtom : List Word → Expr → Prop
  | int {w : Word} (hw : w.kind = .integer) : IsAtom [w] (.int {} (literalValue w.text))
  | boolTrue {w : Word} (hw : w.kind = .kwTrue) : IsAtom [w] (.bool {} true)
  | boolFalse {w : Word} (hw : w.kind = .kwFalse) : IsAtom [w] (.bool {} false)
  | name {w : Word} (hw : w.kind = .name) : IsAtom [w] (.var {} w.text)
  | unit {o c : Word} (ho : o.kind = .openParen) (hc : c.kind = .closeParen) :
      IsAtom [o, c] (.tuple {} [])
  | parens {o c : Word} {ws us : List Word} {e : Expr} {es : List Expr} (ho : o.kind = .openParen)
      (he : IsExpr ws e) (hes : IsTail us es) (hc : c.kind = .closeParen) :
      IsAtom (o :: (ws ++ (us ++ [c]))) (.ofElems (e :: es))

/-- `(',' expr)*` -/
inductive IsTail : List Word → List Expr → Prop
  | nil : IsTail [] []
  | cons {m : Word} {ws us : List Word} {e : Expr} {es : List Expr} (hm : m.kind = .comma)
      (he : IsExpr ws e) (hes : IsTail us es) : IsTail (m :: (ws ++ us)) (e :: es)

end

/-- The words are a program: an expression and nothing else. -/
def IsProgram (ws : List Word) : Prop :=
  ∃ e, IsExpr ws e

/-! ## How phrases begin -/

theorem IsPattern.exists_cons {ws : List Word} {p : Pattern} (h : IsPattern ws p) :
    ∃ w us, ws = w :: us ∧ (w.kind = .name ∨ w.kind = .openParen) := by
  rcases h with @⟨x, hx⟩ | ⟨ho, _⟩ | ⟨ho, _, _, _⟩
  · exact ⟨x, [], rfl, .inl hx⟩
  · exact ⟨_, _, rfl, .inr ho⟩
  · exact ⟨_, _, rfl, .inr ho⟩

theorem IsAtom.exists_cons {ws : List Word} {e : Expr} (h : IsAtom ws e) :
    ∃ w us, ws = w :: us ∧ startsAtom w.kind = true := by
  rcases h with hw | hw | hw | hw | ⟨hw, _⟩ | ⟨hw, _, _, _⟩
  all_goals exact ⟨_, _, rfl, by rw [hw]; rfl⟩

theorem IsPattern.ne_nil {ws : List Word} {p : Pattern} (h : IsPattern ws p) : ws ≠ [] := by
  obtain ⟨w, us, rfl, -⟩ := h.exists_cons
  exact List.cons_ne_nil w us

theorem IsAtom.ne_nil {ws : List Word} {e : Expr} (h : IsAtom ws e) : ws ≠ [] := by
  obtain ⟨w, us, rfl, -⟩ := h.exists_cons
  exact List.cons_ne_nil w us

theorem IsBlock.exists_cons {ws : List Word} {e : Expr} (h : IsBlock ws e) :
    ∃ w us, ws = w :: us ∧ startsBlock w.kind = true := by
  rcases h with ⟨hw, _, _, _⟩ | ⟨hw, _, _, _, _, _⟩ | ⟨hw, _, _, _, _, _⟩
  all_goals exact ⟨_, _, rfl, by rw [hw]; rfl⟩

theorem IsAtoms.exists_cons {ws : List Word} {e : Expr} :
    IsAtoms ws e → ∃ w us, ws = w :: us ∧ startsAtom w.kind = true
  | .one h => h.exists_cons
  | .app hf _ => by
    obtain ⟨w, us, rfl, hw⟩ := hf.exists_cons
    exact ⟨w, _, rfl, hw⟩

theorem IsExpr.exists_cons {ws : List Word} {e : Expr} (h : IsExpr ws e) :
    ∃ w us, ws = w :: us ∧ (startsAtom w.kind = true ∨ startsBlock w.kind = true) := by
  rcases h with h | h | ⟨hf, _⟩
  · obtain ⟨w, us, rfl, hw⟩ := h.exists_cons
    exact ⟨w, us, rfl, .inr hw⟩
  · obtain ⟨w, us, rfl, hw⟩ := h.exists_cons
    exact ⟨w, us, rfl, .inl hw⟩
  · obtain ⟨w, us, rfl, hw⟩ := hf.exists_cons
    exact ⟨w, _, rfl, .inl hw⟩

end PolyLet
