import PolyLet.Proofs.Lexing.Excerpt
import PolyLet.Proofs.Parsing.Acceptance

/-!
# Places of phrases

The grammar once more, now over tokens and with the places of trees: a node stands at the span from
the first to the last token of its phrase. Parentheses belong to the phrase that they enclose, and
the functions that a `let` with parameters makes of its bound expression each take up the tokens from
a parameter to the end of that expression. The readers compute places by merging the spans of parts,
which comes to the same as the tokens of a source stand one behind the other.

## Main definitions

* `InOrder ks`: the tokens stand one behind the other
* `PatternAt ks p`, `ExprAt ks e`: the tokens `ks` are a pattern and an expression, at its place
* `FunctionAt ks e`: the tokens are parameters, an equals sign and an expression, which make up the
  function `e`
* `Takes n P r`: the reader `r` takes tokens of a phrase `P`, out of fewer than `n`

## Main results

* `Covers.merge`: the span around the first and the last part of a phrase
* `ExprAt.covers`, `ExprAt.isExpr`: an expression stands at the span of its tokens, and without
  places it is one of the grammar
* `exists_exprAt_of_parse`: a program stands at the places of its tokens
-/

namespace PolyLet

variable {α β : Type} {stop : Span} {m n : Nat}

/-! ## Tokens in order -/

/-- The tokens stand one behind the other. -/
structure InOrder (ks : List Token) : Prop where
  pairwise : ks.Pairwise fun a b => a.span.stop ≤ b.span.start
  start_le : ∀ t ∈ ks, t.span.start ≤ t.span.stop

theorem InOrder.sublist {ks ls : List Token} (h : InOrder ls) (hks : ks.Sublist ls) : InOrder ks :=
  ⟨h.pairwise.sublist hks, fun t ht => h.start_le t (hks.subset ht)⟩

/-- No token starts before the first one. -/
theorem InOrder.start_le_of_head {ks : List Token} {first : Token} (h : InOrder ks)
    (hfirst : ks.head? = some first) : ∀ t ∈ ks, first.span.start ≤ t.span.start := by
  obtain ⟨ks', rfl⟩ := List.head?_eq_some_iff.mp hfirst
  refine List.forall_mem_cons.mpr ⟨Nat.le_refl _, fun t ht => ?_⟩
  exact (h.start_le first List.mem_cons_self).trans ((List.pairwise_cons.mp h.pairwise).1 t ht)

/-- No token ends behind the last one. -/
theorem InOrder.le_stop_of_getLast {ks : List Token} {last : Token} (h : InOrder ks)
    (hlast : ks.getLast? = some last) : ∀ t ∈ ks, t.span.stop ≤ last.span.stop := by
  obtain ⟨ks', rfl⟩ := List.getLast?_eq_some_iff.mp hlast
  intro t ht
  rcases List.mem_append.mp ht with ht | ht
  · have hle := (List.pairwise_append.mp h.pairwise).2.2 t ht last (List.mem_singleton_self _)
    exact hle.trans (h.start_le last (by simp))
  · rw [List.mem_singleton.mp ht]

theorem covers_singleton (t : Token) : Covers [t] t.span :=
  ⟨t, t, rfl, rfl, rfl⟩

/-- **The span around the first and the last part of a phrase** is the span of the phrase. -/
theorem Covers.merge {ks ls ms : List Token} {s t : Span} (h : InOrder ms) (hks : ks <+: ms)
    (hls : ls <:+ ms) (hs : Covers ks s) (ht : Covers ls t) : Covers ms (s.merge t) := by
  obtain ⟨first, last, hfirst, hlast, rfl⟩ := hs
  obtain ⟨first', last', hfirst', hlast', rfl⟩ := ht
  have hhead : ms.head? = some first := by
    obtain ⟨_, rfl⟩ := hks
    rw [List.head?_append, hfirst, Option.some_or]
  have hend : ms.getLast? = some last' := by
    obtain ⟨_, rfl⟩ := hls
    rw [List.getLast?_append, hlast', Option.some_or]
  refine ⟨first, last', hhead, hend, ?_⟩
  have hstart := h.start_le_of_head hhead first' (hls.subset (List.mem_of_head? hfirst'))
  have hstop := h.le_stop_of_getLast hend last (hks.subset (List.mem_of_getLast? hlast))
  rw [Span.merge, Nat.min_eq_left hstart, Nat.max_eq_right hstop]

/-! ## Phrases and their places -/

/-- The tokens are the pattern, and the span is that of the tokens. -/
structure PatternAt (ks : List Token) (p : Pattern × Span) : Prop where
  isPattern : IsPattern (words ks) p.1
  covers : Covers ks p.2

/-- The tokens are the patterns, one behind the other. -/
inductive ParamsAt : List Token → List (Pattern × Span) → Prop
  | nil : ParamsAt [] []
  | cons {ks ls : List Token} {p : Pattern × Span} {ps : List (Pattern × Span)} (hp : PatternAt ks p)
      (hps : ParamsAt ls ps) : ParamsAt (ks ++ ls) (p :: ps)

/-- The tokens are what a `let` binds. -/
inductive BinderAt : List Token → Pattern × List (Pattern × Span) → Prop
  | plain {ks : List Token} {p : Pattern × Span} (hp : PatternAt ks p) : BinderAt ks (p.1, [])
  | function {x : Token} {ks : List Token} {p : Pattern × Span} {ps : List (Pattern × Span)}
      (hx : x.kind = .name) (hps : ParamsAt ks (p :: ps)) :
      BinderAt (x :: ks) (.var x.text, p :: ps)

mutual

/-- `expr := block | atom+ [block]` -/
inductive ExprAt : List Token → Expr → Prop
  | block {ks : List Token} {e : Expr} (h : BlockAt ks e) : ExprAt ks e
  | atoms {ks : List Token} {e : Expr} (h : AtomsAt ks e) : ExprAt ks e
  | atomsBlock {ks ls : List Token} {s : Span} {func arg : Expr} (hf : AtomsAt ks func)
      (ha : BlockAt ls arg) (hs : Covers (ks ++ ls) s) : ExprAt (ks ++ ls) (.app s func arg)

/-- `block := 'fn' pattern '->' expr | 'let' pattern '=' expr 'in' expr
| 'let' name function 'in' expr | 'if' expr 'then' expr 'else' expr` -/
inductive BlockAt : List Token → Expr → Prop
  | fn {f a : Token} {ps bs : List Token} {s : Span} {p : Pattern × Span} {body : Expr}
      (hf : f.kind = .kwFn) (hp : PatternAt ps p) (ha : a.kind = .arrow) (hb : ExprAt bs body)
      (hs : Covers (f :: (ps ++ a :: bs)) s) : BlockAt (f :: (ps ++ a :: bs)) (.lam s p.1 body)
  | letIn {l q i : Token} {ps es bs : List Token} {s : Span} {p : Pattern × Span}
      {bound body : Expr} (hl : l.kind = .kwLet) (hp : PatternAt ps p) (hq : q.kind = .equals)
      (he : ExprAt es bound) (hi : i.kind = .kwIn) (hb : ExprAt bs body)
      (hs : Covers (l :: (ps ++ q :: (es ++ i :: bs))) s) :
      BlockAt (l :: (ps ++ q :: (es ++ i :: bs))) (.letIn s p.1 bound body)
  | letFunction {l x i : Token} {fs bs : List Token} {s : Span} {func body : Expr}
      (hl : l.kind = .kwLet) (hx : x.kind = .name) (hf : FunctionAt fs func) (hi : i.kind = .kwIn)
      (hb : ExprAt bs body) (hs : Covers (l :: x :: (fs ++ i :: bs)) s) :
      BlockAt (l :: x :: (fs ++ i :: bs)) (.letIn s (.var x.text) func body)
  | ite {i t e : Token} {cs as bs : List Token} {s : Span} {cond a b : Expr} (hi : i.kind = .kwIf)
      (hc : ExprAt cs cond) (ht : t.kind = .kwThen) (ha : ExprAt as a) (he : e.kind = .kwElse)
      (hb : ExprAt bs b) (hs : Covers (i :: (cs ++ t :: (as ++ e :: bs))) s) :
      BlockAt (i :: (cs ++ t :: (as ++ e :: bs))) (.ite s cond a b)

/-- `function := pattern function | pattern '=' expr`, each pattern a parameter of a function that
starts at it. -/
inductive FunctionAt : List Token → Expr → Prop
  | last {q : Token} {ps es : List Token} {s : Span} {p : Pattern × Span} {bound : Expr}
      (hp : PatternAt ps p) (hq : q.kind = .equals) (he : ExprAt es bound)
      (hs : Covers (ps ++ q :: es) s) : FunctionAt (ps ++ q :: es) (.lam s p.1 bound)
  | param {ps fs : List Token} {s : Span} {p : Pattern × Span} {func : Expr} (hp : PatternAt ps p)
      (hf : FunctionAt fs func) (hs : Covers (ps ++ fs) s) :
      FunctionAt (ps ++ fs) (.lam s p.1 func)

/-- `atom+`, each atom but the first an argument of those before it. -/
inductive AtomsAt : List Token → Expr → Prop
  | one {ks : List Token} {e : Expr} (h : AtomAt ks e) : AtomsAt ks e
  | app {ks ls : List Token} {s : Span} {func arg : Expr} (hf : AtomsAt ks func)
      (ha : AtomAt ls arg) (hs : Covers (ks ++ ls) s) : AtomsAt (ks ++ ls) (.app s func arg)

/-- `atom := integer | 'True' | 'False' | name | '(' [expr (',' expr)*] ')'` -/
inductive AtomAt : List Token → Expr → Prop
  | int {t : Token} (ht : t.kind = .integer) : AtomAt [t] (.int t.span (literalValue t.text))
  | boolTrue {t : Token} (ht : t.kind = .kwTrue) : AtomAt [t] (.bool t.span true)
  | boolFalse {t : Token} (ht : t.kind = .kwFalse) : AtomAt [t] (.bool t.span false)
  | name {t : Token} (ht : t.kind = .name) : AtomAt [t] (.var t.span t.text)
  | unit {o c : Token} {s : Span} (ho : o.kind = .openParen) (hc : c.kind = .closeParen)
      (hs : Covers [o, c] s) : AtomAt [o, c] (.tuple s [])
  | parens {o c : Token} {ks ls : List Token} {s : Span} {e : Expr} {es : List Expr}
      (ho : o.kind = .openParen) (he : ExprAt ks e) (hes : TailAt ls es) (hc : c.kind = .closeParen)
      (hs : Covers (o :: (ks ++ (ls ++ [c]))) s) :
      AtomAt (o :: (ks ++ (ls ++ [c]))) (ofParens s (e :: es))

/-- `(',' expr)*` -/
inductive TailAt : List Token → List Expr → Prop
  | nil : TailAt [] []
  | cons {m : Token} {ks ls : List Token} {e : Expr} {es : List Expr} (hm : m.kind = .comma)
      (he : ExprAt ks e) (hes : TailAt ls es) : TailAt (m :: (ks ++ ls)) (e :: es)

end

/-! ## Expressions stand at their tokens -/

theorem span_ofParens (s : Span) (es : List Expr) : (ofParens s es).span = s := by
  rcases es with _ | ⟨e, _ | ⟨e', es⟩⟩
  · rfl
  · cases e <;> rfl
  · rfl

theorem AtomAt.covers {ks : List Token} {e : Expr} (h : AtomAt ks e) : Covers ks e.span := by
  cases h with
  | @int t _ | @boolTrue t _ | @boolFalse t _ | @name t _ => exact covers_singleton t
  | unit _ _ hs => exact hs
  | parens _ _ _ _ hs =>
    rw [span_ofParens]
    exact hs

theorem AtomsAt.covers {ks : List Token} {e : Expr} (h : AtomsAt ks e) : Covers ks e.span := by
  cases h with
  | one h => exact h.covers
  | app _ _ hs => exact hs

theorem BlockAt.covers {ks : List Token} {e : Expr} (h : BlockAt ks e) : Covers ks e.span := by
  cases h <;> assumption

theorem ExprAt.covers {ks : List Token} {e : Expr} (h : ExprAt ks e) : Covers ks e.span := by
  cases h with
  | block h => exact h.covers
  | atoms h => exact h.covers
  | atomsBlock _ _ hs => exact hs

theorem FunctionAt.covers {ks : List Token} {e : Expr} (h : FunctionAt ks e) :
    Covers ks e.span := by
  cases h <;> assumption

/-! ## Expressions without their places -/

mutual

theorem ExprAt.isExpr {ks : List Token} {e : Expr} : ExprAt ks e → IsExpr (words ks) e.unlocated
  | .block h => .block h.isBlock
  | .atoms h => .atoms h.isAtoms
  | .atomsBlock hf ha _ => by
    rw [words_append]
    exact .atomsBlock hf.isAtoms ha.isBlock

theorem BlockAt.isBlock {ks : List Token} {e : Expr} :
    BlockAt ks e → IsBlock (words ks) e.unlocated
  | .fn hf hp ha hb _ => by
    simp only [words_cons, words_append]
    exact .fn hf hp.isPattern ha hb.isExpr
  | .letIn hl hp hq he hi hb _ => by
    simp only [words_cons, words_append]
    exact .letIn hl (.plain hp.isPattern) hq he.isExpr hi hb.isExpr
  | .letFunction hl hx hf hi hb _ => by
    obtain ⟨ps, q, es, params, bound, hfs, hps, hne, hq, he, hfunc⟩ := hf.exists_params
    simp only [words_cons, words_append, hfs, Expr.unlocated, hfunc, List.append_assoc,
      List.cons_append]
    exact .letIn hl (.function hx hps hne) hq he hi hb.isExpr
  | .ite hi hc ht ha he hb _ => by
    simp only [words_cons, words_append]
    exact .ite hi hc.isExpr ht ha.isExpr he hb.isExpr

/-- The words of a function are its parameters, an equals sign and an expression. -/
theorem FunctionAt.exists_params {ks : List Token} {e : Expr} : FunctionAt ks e →
    ∃ ps q es params bound, words ks = ps ++ q :: es ∧ IsPatterns ps params ∧ params ≠ [] ∧
      q.kind = .equals ∧ IsExpr es bound ∧ e.unlocated = .ofParams params bound
  | @FunctionAt.last q ps es _ _ _ hp hq he _ => by
    refine ⟨words ps ++ [], q.word, words es, _, _, ?_, .cons hp.isPattern .nil,
      List.cons_ne_nil _ _, hq, he.isExpr, rfl⟩
    rw [words_append, List.append_nil, words_cons]
  | @FunctionAt.param ps _ _ _ _ hp hf _ => by
    obtain ⟨ps', q, es, params, bound, hfs, hps, -, hq, he, hfunc⟩ := hf.exists_params
    refine ⟨words ps ++ ps', q, es, _, bound, ?_, .cons hp.isPattern hps, List.cons_ne_nil _ _, hq,
      he, ?_⟩
    · rw [words_append, hfs, List.append_assoc]
    · rw [Expr.unlocated, hfunc]
      rfl

theorem AtomsAt.isAtoms {ks : List Token} {e : Expr} :
    AtomsAt ks e → IsAtoms (words ks) e.unlocated
  | .one h => .one h.isAtom
  | .app hf ha _ => by
    rw [words_append]
    exact .app hf.isAtoms ha.isAtom

theorem AtomAt.isAtom {ks : List Token} {e : Expr} : AtomAt ks e → IsAtom (words ks) e.unlocated
  | .int ht => .int ht
  | .boolTrue ht => .boolTrue ht
  | .boolFalse ht => .boolFalse ht
  | .name ht => .name ht
  | .unit ho hc _ => .unit ho hc
  | .parens ho he hes hc _ => by
    simp only [words_cons, words_append, unlocated_ofParens]
    exact .parens ho he.isExpr hes.isTail hc

theorem TailAt.isTail {ks : List Token} {es : List Expr} :
    TailAt ks es → IsTail (words ks) (Expr.unlocatedAll es)
  | .nil => .nil
  | .cons hm he hes => by
    simp only [words_cons, words_append]
    exact .cons hm he.isExpr hes.isTail

end

/-! ## Reading phrases at their places -/

/-- What the reader takes out of fewer than `n` tokens is a phrase, if they stand in order. -/
def Takes (n : Nat) (P : List Token → α → Prop) (r : Reader α) : Prop :=
  ∀ ts v rest, ts.length < n → InOrder ts → r ts = .ok (v, rest) → ∃ ks, ts = ks ++ rest ∧ P ks v

namespace Takes

variable {P : List Token → α → Prop} {Q : List Token → β → Prop} {r : Reader α} {f : α → Reader β}

theorem zero : Takes 0 P r :=
  fun _ _ _ hlen => absurd hlen (Nat.not_lt_zero _)

theorem pure {v : α} (h : P [] v) : Takes n P (Pure.pure v) := by
  rintro ts v' rest - - hr
  obtain ⟨rfl, rfl⟩ := Prod.mk.inj (Except.ok.inj hr)
  exact ⟨[], rfl, h⟩

theorem fail {wanted : Wanted} : Takes n P (Reader.fail stop wanted) := by
  rintro ts v rest - - hr
  cases hr

theorem peek {f : TokenKind → Reader α} (hf : ∀ k, Takes n P (f k)) :
    Takes n P (Reader.peek >>= f) :=
  fun ts => hf (headKind ts) ts

/-- **A reader after another one.** The second one reads what is left, so fewer tokens are enough
for it if the phrases of the first one are not empty. -/
theorem bind (hr : Takes n P r) (hf : ∀ ks v, P ks v → Takes m (fun ls => Q (ks ++ ls)) (f v))
    (hn : ∀ ks v, P ks v → n ≤ m + ks.length) : Takes n Q (r >>= f) := by
  intro ts x rest hlen horder h
  cases hrts : r ts with
  | error e =>
    rw [Reader.bind_of_error hrts] at h
    cases h
  | ok q =>
    obtain ⟨v, rest₁⟩ := q
    rw [Reader.bind_of_ok hrts] at h
    obtain ⟨ks₁, rfl, hv⟩ := hr ts v rest₁ hlen horder hrts
    -- what the first reader left is in order too, and short enough for the second one
    have hlen₁ : rest₁.length < m := by
      have := hn ks₁ v hv
      rw [List.length_append] at hlen
      omega
    have horder₁ := horder.sublist (List.sublist_append_right ks₁ rest₁)
    obtain ⟨ks₂, rfl, hx⟩ := hf ks₁ v hv rest₁ x rest hlen₁ horder₁ h
    exact ⟨ks₁ ++ ks₂, (List.append_assoc _ _ _).symm, hx⟩

/-- A phrase may be taken to stand in order. -/
theorem ordered (hr : Takes n (fun ks v => InOrder ks → P ks v) r) : Takes n P r := by
  intro ts v rest hlen horder hrts
  obtain ⟨ks, rfl, hv⟩ := hr ts v rest hlen horder hrts
  exact ⟨ks, rfl, hv (horder.sublist (List.sublist_append_left ks rest))⟩

theorem imp {Q : List Token → α → Prop} (hr : Takes n P r) (h : ∀ ks v, P ks v → Q ks v) :
    Takes n Q r := by
  intro ts v rest hlen horder hrts
  obtain ⟨ks, hts, hv⟩ := hr ts v rest hlen horder hrts
  exact ⟨ks, hts, h ks v hv⟩

theorem andThen (hr : Takes n P r)
    (hf : ∀ ks v, P ks v → Takes n (fun ls => Q (ks ++ ls)) (f v)) : Takes n Q (r >>= f) :=
  hr.bind hf fun _ _ _ => Nat.le_add_right _ _

theorem next (hr : Takes (n + 1) P r) (hne : ∀ ks v, P ks v → ks ≠ [])
    (hf : ∀ ks v, P ks v → Takes n (fun ls => Q (ks ++ ls)) (f v)) : Takes (n + 1) Q (r >>= f) :=
  hr.bind hf fun ks v h => Nat.add_le_add_left (List.length_pos_iff.mpr (hne ks v h)) n

theorem map {g : α → β} (hr : Takes n P r) (hg : ∀ ks v, P ks v → Q ks (g v)) :
    Takes n Q (r >>= fun v => Pure.pure (g v)) :=
  hr.andThen fun ks v h => .pure (by rw [List.append_nil]; exact hg ks v h)

theorem token {kind : TokenKind} :
    Takes n (fun ks t => ks = [t] ∧ t.kind = kind) (tokenReader stop kind) := by
  rintro ts t rest - - hr
  cases ts with
  | nil => cases hr
  | cons t' ts =>
    by_cases h : headKind (t' :: ts) = kind
    · rw [tokenReader_of_eq h] at hr
      obtain ⟨rfl, rfl⟩ := Prod.mk.inj (Except.ok.inj hr)
      exact ⟨[t'], rfl, rfl, h⟩
    · rw [tokenReader_of_ne h] at hr
      cases hr

theorem token_andThen {kind : TokenKind} {f : Token → Reader β}
    (hf : ∀ t, t.kind = kind → Takes n (fun ls => Q (t :: ls)) (f t)) :
    Takes n Q (tokenReader stop kind >>= f) := by
  refine token.andThen ?_
  rintro ks t ⟨rfl, ht⟩
  exact hf t ht

theorem token_next {kind : TokenKind} {f : Token → Reader β}
    (hf : ∀ t, t.kind = kind → Takes n (fun ls => Q (t :: ls)) (f t)) :
    Takes (n + 1) Q (tokenReader stop kind >>= f) := by
  refine token.next ?_ ?_
  · rintro ks t ⟨rfl, -⟩
    exact List.cons_ne_nil _ _
  · rintro ks t ⟨rfl, ht⟩
    exact hf t ht

end Takes

/-! ## Patterns -/

/-- The tokens of a list up to and with a closing parenthesis, and the span of the latter. -/
def ClosedAt (T : List Token → α → Prop) (ks : List Token) (q : α × Span) : Prop :=
  ∃ ls c, ks = ls ++ [c] ∧ T ls q.1 ∧ c.kind = .closeParen ∧ q.2 = c.span

/-- The span around two parentheses covers all from one to the other. -/
theorem covers_parens {o c : Token} {ks : List Token} (h : InOrder (o :: (ks ++ [c]))) :
    Covers (o :: (ks ++ [c])) (o.span.merge c.span) :=
  (covers_singleton o).merge h ⟨_, rfl⟩ ⟨o :: ks, rfl⟩ (covers_singleton c)

theorem Covers.ne_nil {ks : List Token} {s : Span} (h : Covers ks s) : ks ≠ [] := by
  obtain ⟨_, _, hfirst, -⟩ := h
  rintro rfl
  cases hfirst

theorem patternReader_takes (stop : Span) (n : Nat) :
    Takes n PatternAt (patternReader stop) ∧
      ∀ opened, Takes n (ClosedAt fun ks ps => IsPatternTail (words ks) ps)
        (patternElemsReader stop opened) := by
  induction n with
  | zero => exact ⟨.zero, fun _ => .zero⟩
  | succ n ih =>
    obtain ⟨hp, hq⟩ := ih
    refine ⟨?_, fun opened => ?_⟩
    · rw [patternReader_eq]
      refine .ordered <| .peek fun k => ?_
      split
      · exact .token_next fun x hx => .pure fun _ => ⟨.name hx, covers_singleton x⟩
      split
      · refine .token_next fun o ho => .peek fun k' => ?_
        split
        · refine .token_andThen fun c hc => .pure fun h => ⟨.unit ho hc, ?_⟩
          exact @covers_parens o c [] h
        · refine hp.andThen fun ks p hks => (hq o.span).map ?_
          rintro _ ⟨ps, _⟩ ⟨ls, c, rfl, hls, hc, rfl⟩ h
          -- all from the first parenthesis to the last token
          rw [← List.append_assoc] at h ⊢
          refine ⟨?_, covers_parens h⟩
          simp only [words_cons, words_append, List.append_assoc]
          exact .parens ho hks.isPattern hls hc
      · exact .fail
    · rw [patternElemsReader_eq]
      refine .peek fun k => ?_
      split
      · refine .token_next fun m hm => hp.andThen fun ks p hks => (hq opened).map ?_
        rintro _ q ⟨ls, c, rfl, hls, hc, hspan⟩
        refine ⟨m :: (ks ++ ls), c, by simp, ?_, hc, hspan⟩
        simp only [words_cons, words_append]
        exact .cons hm hks.isPattern hls
      split
      · exact .token_next fun c hc => .pure ⟨[], c, rfl, .nil, hc, rfl⟩
      · exact .fail

theorem paramsReader_takes (stop : Span) (n : Nat) : Takes n ParamsAt (paramsReader stop) := by
  induction n with
  | zero => exact .zero
  | succ n ih =>
    rw [paramsReader_eq]
    refine .peek fun k => ?_
    split
    · exact .pure .nil
    · -- a pattern has a token, so that the other parameters are read from fewer
      refine (patternReader_takes stop (n + 1)).1.next (fun _ _ hp => hp.covers.ne_nil) ?_
      exact fun ks p hp => ih.map fun ls ps hps => .cons hp hps

theorem binderReader_takes (stop : Span) (n : Nat) : Takes n BinderAt (binderReader stop) := by
  rw [binderReader_eq]
  refine .peek fun k => ?_
  split
  · refine .token_andThen fun x hx => (paramsReader_takes stop n).map fun ks ps hps => ?_
    cases ps with
    | nil =>
      -- a name with no parameter behind it is a pattern
      cases hps
      exact .plain (p := (.var x.text, x.span)) ⟨.name hx, covers_singleton x⟩
    | cons p ps => exact .function hx hps
  · exact (patternReader_takes stop n).1.map fun ks p hp => .plain hp

/-! ## Expressions -/

/-- The tokens continue the function `func` to the expression `e`. -/
def ArgsAt (func : Expr) (ls : List Token) (e : Expr) : Prop :=
  ∀ ks, AtomsAt ks func → InOrder (ks ++ ls) → ExprAt (ks ++ ls) e

/-- Readers of expressions take phrases at their places out of fewer than `n` tokens. -/
structure TakesExprs (stop : Span) (n : Nat) : Prop where
  expr : Takes n ExprAt (exprReader stop)
  args : ∀ func, Takes n (ArgsAt func) (argsReader stop func)
  atom : Takes n AtomAt (atomReader stop)
  elems : ∀ opened, Takes n (ClosedAt TailAt) (elemsReader stop opened)

theorem applyTo_covers {ks ls : List Token} {func arg : Expr} (h : InOrder (ks ++ ls))
    (hf : Covers ks func.span) (ha : Covers ls arg.span) :
    Covers (ks ++ ls) (func.span.merge arg.span) :=
  hf.merge h ⟨ls, rfl⟩ ⟨ks, rfl⟩ ha

/-- Parameters, an equals sign and an expression are a function. -/
theorem ParamsAt.functionAt {ps es : List Token} {q : Token} {p : Pattern × Span}
    {params : List (Pattern × Span)} {bound : Expr} (hps : ParamsAt ps (p :: params))
    (hq : q.kind = .equals) (he : ExprAt es bound) (h : InOrder (ps ++ q :: es)) :
    FunctionAt (ps ++ q :: es) (curry (p :: params) bound) := by
  induction params generalizing ps p with
  | nil =>
    cases hps with
    | @cons ks _ _ _ hp hps =>
      cases hps
      rw [List.append_nil] at h ⊢
      have hsuffix := (List.suffix_cons q es).trans (List.suffix_append ks (q :: es))
      exact .last hp hq he (hp.covers.merge h ⟨_, rfl⟩ hsuffix he.covers)
  | cons p' params ih =>
    cases hps with
    | cons hp hps =>
      rw [List.append_assoc] at h ⊢
      have hfunc := ih hps (h.sublist (List.sublist_append_right _ _))
      exact .param hp hfunc (hp.covers.merge h ⟨_, rfl⟩ ⟨_, rfl⟩ hfunc.covers)

namespace TakesExprs

theorem atom_succ (h : TakesExprs stop n) : Takes (n + 1) AtomAt (atomReader stop) := by
  rw [atomReader_eq]
  refine .ordered <| .peek fun k => ?_
  split
  · exact .token_next fun t ht => .pure fun _ => .int ht
  split
  · exact .token_next fun t ht => .pure fun _ => .boolTrue ht
  split
  · exact .token_next fun t ht => .pure fun _ => .boolFalse ht
  split
  · exact .token_next fun t ht => .pure fun _ => .name ht
  split
  · refine .token_next fun o ho => .peek fun k' => ?_
    split
    · exact .token_andThen fun c hc => .pure fun hord => .unit ho hc (@covers_parens o c [] hord)
    · refine h.expr.andThen fun ks e hks => (h.elems o.span).map ?_
      rintro _ ⟨es, _⟩ ⟨ls, c, rfl, hls, hc, rfl⟩ hord
      refine .parens ho hks hls hc ?_
      rw [← List.append_assoc] at hord ⊢
      exact covers_parens hord
  · exact .fail

theorem elems_succ (h : TakesExprs stop n) (opened : Span) :
    Takes (n + 1) (ClosedAt TailAt) (elemsReader stop opened) := by
  rw [elemsReader_eq]
  refine .peek fun k => ?_
  split
  · refine .token_next fun m hm => h.expr.andThen fun ks e hks => (h.elems opened).map ?_
    rintro _ q ⟨ls, c, rfl, hls, hc, hspan⟩
    exact ⟨m :: (ks ++ ls), c, by simp, .cons hm hks hls, hc, hspan⟩
  split
  · exact .token_next fun c hc => .pure ⟨[], c, rfl, .nil, hc, rfl⟩
  · exact .fail

theorem block_succ (h : TakesExprs stop n) : Takes (n + 1) BlockAt (blockReader stop) := by
  rw [blockReader]
  refine .ordered <| .peek fun k => ?_
  split
  · refine .token_next fun f hf => (patternReader_takes stop n).1.andThen fun ps p hp => ?_
    refine .token_andThen fun a ha => h.expr.map fun bs body hb hord => .fn hf hp ha hb ?_
    exact (covers_singleton f).merge hord ⟨_, rfl⟩ ⟨f :: (ps ++ [a]), by simp⟩ hb.covers
  split
  · refine .token_next fun l hl => (binderReader_takes stop n).andThen fun ps b hb => ?_
    refine .token_andThen fun q hq => h.expr.andThen fun es bound he => ?_
    refine .token_andThen fun i hi => h.expr.map fun bs body hbody hord => ?_
    have hs : Covers (l :: (ps ++ q :: (es ++ i :: bs))) (l.span.merge body.span) :=
      (covers_singleton l).merge hord ⟨_, rfl⟩ ⟨l :: (ps ++ q :: (es ++ [i])), by simp⟩ hbody.covers
    cases hb with
    | plain hp => exact .letIn hl hp hq he hi hbody hs
    | @function x ps p params hx hps =>
      -- the function starts behind its name and reaches to the end of the bound expression
      have heq : x :: ps ++ q :: (es ++ i :: bs) = x :: ((ps ++ q :: es) ++ i :: bs) := by simp
      rw [heq] at hs hord ⊢
      have hfunc := hps.functionAt hq he (hord.sublist (List.IsInfix.sublist ⟨[l, x], i :: bs, rfl⟩))
      exact .letFunction hl hx hfunc hi hbody hs
  split
  · refine .token_next fun i hi => h.expr.andThen fun cs cond hc => ?_
    refine .token_andThen fun t ht => h.expr.andThen fun as a ha => ?_
    refine .token_andThen fun e he => h.expr.map fun bs b hb hord => .ite hi hc ht ha he hb ?_
    exact (covers_singleton i).merge hord ⟨_, rfl⟩ ⟨i :: (cs ++ t :: (as ++ [e])), by simp⟩ hb.covers
  · exact .fail

theorem expr_succ (h : TakesExprs stop n) : Takes (n + 1) ExprAt (exprReader stop) := by
  rw [exprReader_eq]
  refine .ordered <| .peek fun k => ?_
  split
  · exact h.block_succ.imp fun _ _ hb _ => .block hb
  · refine h.atom_succ.next (fun _ _ ha => ha.covers.ne_nil) fun ks func hf => ?_
    exact (h.args func).imp fun ls e he hord => he ks (.one hf) hord

theorem args_succ (h : TakesExprs stop n) (func : Expr) :
    Takes (n + 1) (ArgsAt func) (argsReader stop func) := by
  rw [argsReader_eq]
  refine .peek fun k => ?_
  split
  · -- the argument goes over to the function that the next ones are applied to
    refine h.atom_succ.next (fun _ _ ha => ha.covers.ne_nil) fun ls arg ha => ?_
    refine (h.args (applyTo func arg)).imp fun ms e he ks hks hord => ?_
    rw [← List.append_assoc] at hord ⊢
    refine he _ (.app hks ha ?_) hord
    exact applyTo_covers (hord.sublist (List.sublist_append_left _ _)) hks.covers ha.covers
  split
  · refine h.block_succ.map fun ls arg ha ks hks hord => .atomsBlock hks ha ?_
    exact applyTo_covers hord hks.covers ha.covers
  · refine .pure fun ks hks _ => ?_
    rw [List.append_nil]
    exact .atoms hks

end TakesExprs

theorem takesExprs (stop : Span) (n : Nat) : TakesExprs stop n := by
  induction n with
  | zero => exact ⟨.zero, fun _ => .zero, .zero, fun _ => .zero⟩
  | succ n ih => exact ⟨ih.expr_succ, ih.args_succ, ih.atom_succ, ih.elems_succ⟩

/-! ## Programs -/

theorem inOrder_significant {source : String} {tokens : List Token} (h : lex source = .ok tokens) :
    InOrder (significant tokens) := by
  have run := lex_eq_ok_iff.mp h
  obtain ⟨ws, rfl, hws⟩ := run.exists_words
  have horder : InOrder (ws ++ [endToken (0 + byteLength source.toList)]) := by
    refine ⟨run.pairwise, fun t ht => ?_⟩
    rcases List.mem_append.mp ht with ht | ht
    · exact Nat.le_of_lt (hws t ht).2
    · rw [List.mem_singleton.mp ht]
      exact Nat.le_refl _
  exact horder.sublist List.filter_sublist

/-- **A program stands at the places of its tokens.** -/
theorem exists_exprAt_of_parse {source : String} {e : Expr} (h : parse source = .ok e) :
    ∃ tokens, lex source = .ok tokens ∧ ExprAt (significant tokens) e := by
  obtain ⟨tokens, hlex⟩ := exists_lex_of_parse h
  rw [parse_of_lex hlex] at h
  obtain ⟨ks, hks, he⟩ := (takesExprs _ _).expr _ e [] (Nat.lt_succ_self _)
    (inOrder_significant hlex) (parseTokens_eq_ok_iff.mp h)
  rw [List.append_nil] at hks
  exact ⟨tokens, hlex, hks ▸ he⟩

end PolyLet
