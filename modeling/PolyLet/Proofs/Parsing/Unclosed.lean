import PolyLet.Proofs.Parsing.FirstError

/-!
# Parentheses left open

Where a closing parenthesis is missing, the error names the one that was opened for it. It is the
innermost of those that are open at the error: all parentheses between the two are closed there. A
reader that gives up has taken tokens of which it knows just that, whatever it is a reader of; the
phrases that were read to their end are balanced by the form of the grammar.

## Main definitions

* `Balanced kinds`: every parenthesis is closed, and none is closed that was not opened
* `Misses ks wanted`: what may be missing behind the tokens `ks`
* `Blames stop n Q r`: where the reader `r` gives up, its tokens and what is missing satisfy `Q`

## Main results

* `IsPattern.balanced`, `IsExpr.balanced`: the phrases of the grammar are balanced
* `Blames.bind`: a reader after another one
* `blamesExprs`: what the readers of the language miss
* `parse_error_related`: the second place of an error, and when there is one
-/

namespace PolyLet

variable {α β γ : Type} {stop : Span} {m n : Nat}

/-! ## Balanced parentheses -/

/-- The number of parentheses that are open behind a token of the kind, if `depth` are open in front
of it. There is none if the token closes one that was not opened. -/
def TokenKind.depthBehind (depth : Nat) : TokenKind → Option Nat
  | openParen => some (depth + 1)
  | closeParen => if depth = 0 then none else some (depth - 1)
  | _ => some depth

/-- Whether tokens of the kind are parentheses. -/
def TokenKind.isParen (k : TokenKind) : Bool :=
  k = openParen || k = closeParen

/-- Every parenthesis is closed, and none is closed that was not opened. -/
def Balanced (kinds : List TokenKind) : Prop :=
  kinds.foldlM TokenKind.depthBehind 0 = some 0

instance (kinds : List TokenKind) : Decidable (Balanced kinds) :=
  inferInstanceAs (Decidable (_ = _))

theorem depthBehind_of_not_isParen {k : TokenKind} (h : k.isParen = false) (d : Nat) :
    k.depthBehind d = some d := by
  cases k <;> first | rfl | cases h

/-- With more parentheses open in front of some tokens, as many more are open behind them. -/
theorem depthBehind_add {k : TokenKind} {d d' : Nat} (h : k.depthBehind d = some d') (j : Nat) :
    k.depthBehind (d + j) = some (d' + j) := by
  cases hk : k.isParen with
  | false =>
    rw [depthBehind_of_not_isParen hk] at h ⊢
    rw [Option.some.inj h]
  | true =>
    rcases Bool.or_eq_true_iff.mp hk with hk | hk
    · obtain rfl := of_decide_eq_true hk
      obtain rfl : d + 1 = d' := Option.some.inj h
      rw [TokenKind.depthBehind, Nat.add_right_comm]
    · obtain rfl := of_decide_eq_true hk
      rw [TokenKind.depthBehind] at h ⊢
      split at h
      next => cases h
      next hd =>
        obtain rfl := Option.some.inj h
        rw [if_neg (by omega), Nat.sub_add_comm (by omega)]

theorem foldlM_depthBehind_add {kinds : List TokenKind} {d d' : Nat}
    (h : kinds.foldlM TokenKind.depthBehind d = some d') (j : Nat) :
    kinds.foldlM TokenKind.depthBehind (d + j) = some (d' + j) := by
  induction kinds generalizing d with
  | nil =>
    obtain rfl : d = d' := Option.some.inj h
    rfl
  | cons k kinds ih =>
    rw [List.foldlM_cons, Option.bind_eq_bind, Option.bind_eq_some_iff] at h ⊢
    obtain ⟨d₁, hk, h⟩ := h
    exact ⟨d₁ + j, depthBehind_add hk j, ih h⟩

namespace Balanced

variable {as bs : List TokenKind}

theorem nil : Balanced [] :=
  rfl

theorem append (ha : Balanced as) (hb : Balanced bs) : Balanced (as ++ bs) := by
  rw [Balanced, List.foldlM_append, ha]
  exact hb

/-- A token that is no parenthesis. -/
theorem other {k : TokenKind} (hk : k.isParen = false) (h : Balanced as) : Balanced (k :: as) := by
  rw [Balanced, List.foldlM_cons, depthBehind_of_not_isParen hk]
  exact h

theorem parens (h : Balanced as) : Balanced (.openParen :: (as ++ [.closeParen])) := by
  have hinner := foldlM_depthBehind_add h 1
  rw [Balanced, List.foldlM_cons]
  show List.foldlM TokenKind.depthBehind (0 + 1) (as ++ [.closeParen]) = some 0
  rw [List.foldlM_append, hinner]
  rfl

end Balanced

/-- Tokens that are no parentheses may be left out. -/
theorem balanced_filter_iff {p : Token → Bool} {ts : List Token}
    (hp : ∀ t, p t = false → t.kind.isParen = false) :
    Balanced ((ts.filter p).map Token.kind) ↔ Balanced (ts.map Token.kind) := by
  suffices h : ∀ d, ((ts.filter p).map Token.kind).foldlM TokenKind.depthBehind d =
      (ts.map Token.kind).foldlM TokenKind.depthBehind d by
    rw [Balanced, Balanced, h]
  induction ts with
  | nil => exact fun _ => rfl
  | cons t ts ih =>
    intro d
    cases ht : p t with
    | true =>
      rw [List.filter_cons_of_pos ht, List.map_cons, List.map_cons, List.foldlM_cons,
        List.foldlM_cons]
      exact congrArg _ (funext ih)
    | false =>
      rw [List.filter_cons_of_neg (by rw [ht]; exact Bool.false_ne_true), List.map_cons,
        List.foldlM_cons, depthBehind_of_not_isParen (hp t ht), ih]
      rfl

/-! ## Phrases are balanced -/

/-- The kinds of a list of words. -/
def kinds (ws : List Word) : List TokenKind :=
  ws.map Word.kind

@[simp] theorem kinds_nil : kinds [] = [] :=
  rfl

@[simp] theorem kinds_cons (w : Word) (ws : List Word) : kinds (w :: ws) = w.kind :: kinds ws :=
  rfl

@[simp] theorem kinds_append (ws us : List Word) : kinds (ws ++ us) = kinds ws ++ kinds us :=
  List.map_append

theorem kinds_words (ts : List Token) : kinds (words ts) = ts.map Token.kind := by
  rw [kinds, words, List.map_map]
  rfl

/-- Phrases of a list in parentheses. -/
theorem Balanced.enclosed {o c : Word} {ws us : List Word} (ho : o.kind = .openParen)
    (hc : c.kind = .closeParen) (hws : Balanced (kinds ws)) (hus : Balanced (kinds us)) :
    Balanced (kinds (o :: (ws ++ (us ++ [c])))) := by
  simp only [kinds_cons, kinds_append, kinds_nil, ho, hc]
  rw [← List.append_assoc]
  exact (hws.append hus).parens

theorem Balanced.word {w : Word} {k : TokenKind} {ws : List Word} (hw : w.kind = k)
    (hk : k.isParen = false) (h : Balanced (kinds ws)) : Balanced (kinds (w :: ws)) := by
  rw [kinds_cons, hw]
  exact h.other hk

theorem Balanced.words_append {ws us : List Word} (hws : Balanced (kinds ws))
    (hus : Balanced (kinds us)) : Balanced (kinds (ws ++ us)) := by
  rw [kinds_append]
  exact hws.append hus

mutual

theorem IsPattern.balanced {ws : List Word} {p : Pattern} : IsPattern ws p → Balanced (kinds ws)
  | .name hx => .word hx rfl .nil
  | .unit ho hc => @Balanced.enclosed _ _ [] [] ho hc .nil .nil
  | .parens ho hp hps hc => .enclosed ho hc hp.balanced hps.balanced

theorem IsPatternTail.balanced {ws : List Word} {ps : List Pattern} :
    IsPatternTail ws ps → Balanced (kinds ws)
  | .nil => .nil
  | .cons hm hp hps => .word hm rfl (hp.balanced.words_append hps.balanced)

end

theorem IsPatterns.balanced {ws : List Word} {ps : List Pattern} (h : IsPatterns ws ps) :
    Balanced (kinds ws) := by
  induction h with
  | nil => exact .nil
  | cons hp _ ih => exact hp.balanced.words_append ih

theorem IsBinder.balanced {ws : List Word} {p : Pattern} {params : List Pattern}
    (h : IsBinder ws p params) : Balanced (kinds ws) := by
  cases h with
  | function hx hps _ => exact .word hx rfl hps.balanced
  | plain hp => exact hp.balanced

mutual

theorem IsExpr.balanced {ws : List Word} {e : Expr} : IsExpr ws e → Balanced (kinds ws)
  | .block h => h.balanced
  | .atoms h => h.balanced
  | .atomsBlock hf ha => hf.balanced.words_append ha.balanced

theorem IsBlock.balanced {ws : List Word} {e : Expr} : IsBlock ws e → Balanced (kinds ws)
  | .fn hf hp ha hb => .word hf rfl (hp.balanced.words_append (.word ha rfl hb.balanced))
  | .letIn hl hp hq he hi hb => .word hl rfl (hp.balanced.words_append
      (.word hq rfl (he.balanced.words_append (.word hi rfl hb.balanced))))
  | .ite hi hc ht ha he hb => .word hi rfl (hc.balanced.words_append
      (.word ht rfl (ha.balanced.words_append (.word he rfl hb.balanced))))

theorem IsAtoms.balanced {ws : List Word} {e : Expr} : IsAtoms ws e → Balanced (kinds ws)
  | .one h => h.balanced
  | .app hf ha => hf.balanced.words_append ha.balanced

theorem IsAtom.balanced {ws : List Word} {e : Expr} : IsAtom ws e → Balanced (kinds ws)
  | .int hw | .boolTrue hw | .boolFalse hw | .name hw => .word hw rfl .nil
  | .unit ho hc => @Balanced.enclosed _ _ [] [] ho hc .nil .nil
  | .parens ho he hes hc => .enclosed ho hc he.balanced hes.balanced

theorem IsTail.balanced {ws : List Word} {es : List Expr} : IsTail ws es → Balanced (kinds ws)
  | .nil => .nil
  | .cons hm he hes => .word hm rfl (he.balanced.words_append hes.balanced)

end

/-! ## What readers miss -/

/-- What may be missing behind the tokens: a closing parenthesis is missing for the last one that they
leave open. -/
inductive Misses (ks : List Token) : Wanted → Prop
  | token {kind : TokenKind} (h : kind ≠ .closeParen) : Misses ks (.token kind)
  | expression : Misses ks .expression
  | pattern : Misses ks .pattern
  | closing {as bs : List Token} {o : Token} (hks : ks = as ++ o :: bs) (ho : o.kind = .openParen)
      (hbs : Balanced (bs.map Token.kind)) : Misses ks (.closing o.span)

theorem Misses.append_left {ks : List Token} {wanted : Wanted} (h : Misses ks wanted)
    (ls : List Token) : Misses (ls ++ ks) wanted := by
  cases h with
  | token h => exact .token h
  | expression => exact .expression
  | pattern => exact .pattern
  | @closing as bs o hks ho hbs =>
    exact @Misses.closing _ (ls ++ as) bs o (by rw [hks, List.append_assoc]) ho hbs

/-- Where the reader gives up, out of fewer than `n` tokens, those that it took and what is missing
behind them satisfy `Q`. -/
def Blames (stop : Span) (n : Nat) (Q : List Token → Wanted → Prop) (r : Reader α) : Prop :=
  ∀ ts e, ts.length < n → r ts = .error e →
    ∃ ks rest wanted, ts = ks ++ rest ∧ e = unexpectedAt stop wanted rest ∧ Q ks wanted

namespace Blames

variable {P : List Word → α → Prop} {Q : List Token → Wanted → Prop} {r : Reader α}
  {f : α → Reader β}

theorem zero : Blames stop 0 Q r :=
  fun _ _ hlen => absurd hlen (Nat.not_lt_zero _)

theorem pure {v : α} : Blames stop n Q (Pure.pure v) := by
  rintro ts e - hr
  cases hr

theorem fail {wanted : Wanted} (h : Q [] wanted) :
    Blames stop n Q (Reader.fail stop wanted : Reader α) := by
  rintro ts e - hr
  exact ⟨[], ts, wanted, rfl, (Except.error.inj hr).symm, h⟩

theorem peek {f : TokenKind → Reader α} (hf : ∀ k, Blames stop n Q (f k)) :
    Blames stop n Q (Reader.peek >>= f) :=
  fun ts => hf (headKind ts) ts

theorem mono (h : Blames stop n Q r) (hm : m ≤ n) : Blames stop m Q r :=
  fun ts e hlen => h ts e (Nat.lt_of_lt_of_le hlen hm)

theorem imp {Q' : List Token → Wanted → Prop} (hr : Blames stop n Q r)
    (h : ∀ ks wanted, Q ks wanted → Q' ks wanted) : Blames stop n Q' r := by
  intro ts e hlen hrts
  obtain ⟨ks, rest, wanted, hts, he, hQ⟩ := hr ts e hlen hrts
  exact ⟨ks, rest, wanted, hts, he, h ks wanted hQ⟩

/-- What is missing behind some tokens is missing with others in front of them as well. -/
theorem behind (hr : Blames stop n Misses r) (ks : List Token) :
    Blames stop n (fun ls => Misses (ks ++ ls)) r :=
  hr.imp fun _ _ h => h.append_left ks

/-- A reader after a token. -/
theorem token_bind {kind : TokenKind} {f : Token → Reader β} (h : Q [] (.token kind))
    (hf : ∀ t, t.kind = kind → Blames stop n (fun ls => Q (t :: ls)) (f t)) :
    Blames stop (n + 1) Q (tokenReader stop kind >>= f) := by
  intro ts e hlen hr
  cases ts with
  | nil => exact ⟨[], [], .token kind, rfl, (Except.error.inj hr).symm, h⟩
  | cons t ts =>
    by_cases hk : t.kind = kind
    · rw [bind_tokenReader hk] at hr
      obtain ⟨ks, rest, wanted, rfl, he, hQ⟩ := hf t hk ts e (Nat.lt_of_succ_lt_succ hlen) hr
      exact ⟨t :: ks, rest, wanted, rfl, he, hQ⟩
    · have hfail : tokenReader stop kind (t :: ts) = .error _ := tokenReader_of_ne hk
      rw [Reader.bind_of_error hfail] at hr
      exact ⟨[], t :: ts, .token kind, rfl, (Except.error.inj hr).symm, h⟩

theorem token_next {kind : TokenKind} {f : Token → Reader β} (hk : kind ≠ .closeParen)
    (hf : ∀ t, Blames stop n Misses (f t)) :
    Blames stop (n + 1) Misses (tokenReader stop kind >>= f) :=
  token_bind (.token hk) fun t _ => (hf t).behind [t]

theorem token_andThen {kind : TokenKind} {f : Token → Reader β} (hk : kind ≠ .closeParen)
    (hf : ∀ t, Blames stop n Misses (f t)) : Blames stop n Misses (tokenReader stop kind >>= f) :=
  (token_next hk hf).mono (Nat.le_succ n)

/-- **A reader after another one.** What the second one takes comes behind a phrase of the first
one. -/
theorem bind (reads : Reads stop n P r) (hr : Blames stop n Q r)
    (hf : ∀ ks v, P (words ks) v → Blames stop m (fun ls => Q (ks ++ ls)) (f v))
    (hn : ∀ ws v, P ws v → n ≤ m + ws.length) : Blames stop n Q (r >>= f) := by
  intro ts e hlen h
  cases hrts : r ts with
  | error e' =>
    obtain rfl := Except.error.inj ((Reader.bind_of_error hrts).symm.trans h)
    exact hr ts e' hlen hrts
  | ok q =>
    obtain ⟨v, rest⟩ := q
    rw [Reader.bind_of_ok hrts] at h
    obtain ⟨ks, rfl, hv, -⟩ := reads.ok ts v rest hlen hrts
    have hlen' : rest.length < m := by
      have := hn _ v hv
      simp only [words, List.length_map, List.length_append] at this hlen
      omega
    obtain ⟨ls, rest', wanted, rfl, he, hQ⟩ := hf ks v hv rest e hlen' h
    exact ⟨ks ++ ls, rest', wanted, (List.append_assoc _ _ _).symm, he, hQ⟩

theorem andThen (reads : Reads stop n P r) (hr : Blames stop n Misses r)
    (hf : ∀ v, Blames stop n Misses (f v)) : Blames stop n Misses (r >>= f) :=
  bind reads hr (fun ks v _ => (hf v).behind ks) fun _ _ _ => Nat.le_add_right _ _

theorem next (reads : Reads stop (n + 1) P r) (hne : ∀ ws v, P ws v → ws ≠ [])
    (hr : Blames stop (n + 1) Misses r) (hf : ∀ v, Blames stop n Misses (f v)) :
    Blames stop (n + 1) Misses (r >>= f) :=
  bind reads hr (fun ks v _ => (hf v).behind ks)
    fun ws v h => Nat.add_le_add_left (List.length_pos_iff.mpr (hne ws v h)) n

theorem map {g : α → β} (hr : Blames stop n Q r) :
    Blames stop n Q (r >>= fun v => Pure.pure (g v)) := by
  intro ts e hlen h
  cases hrts : r ts with
  | error e' =>
    obtain rfl := Except.error.inj ((Reader.bind_of_error hrts).symm.trans h)
    exact hr ts e' hlen hrts
  | ok q =>
    rw [Reader.bind_of_ok hrts] at h
    cases h

/-- A closing parenthesis that was seen is taken. -/
theorem bind_closeParen_ne_error {g : Token → α} {ts : List Token} {e : SyntaxError}
    (h : headKind ts = .closeParen) :
    (tokenReader stop .closeParen >>= fun c => Pure.pure (g c)) ts ≠ .error e := by
  cases ts with
  | nil => cases h
  | cons c ts =>
    rw [bind_tokenReader h]
    intro hr
    cases hr

/-- **A list in parentheses.** Behind the opening one there is a closing one, or a phrase and what
follows it up to a closing one. -/
theorem parens {elems : Span → Reader β} {unit : Token → Token → γ} {whole : Token → α → β → γ}
    (reads : Reads stop n P r) (hP : ∀ ws v, P ws v → Balanced (kinds ws))
    (hr : Blames stop n Misses r)
    (helems : ∀ o bs, o.kind = .openParen → Balanced (bs.map Token.kind) →
      Blames stop n (fun ls => Misses (o :: (bs ++ ls))) (elems o.span)) :
    Blames stop (n + 1) Misses (do
      let o ← tokenReader stop .openParen
      let k ← Reader.peek
      if k = .closeParen then
        let c ← tokenReader stop .closeParen
        return unit o c
      else
        let v ← r
        let q ← elems o.span
        return whole o v q) := by
  refine token_bind (.token TokenKind.noConfusion) fun o ho ts e hlen h => ?_
  rw [Reader.peek_bind] at h
  split at h
  next hk => exact absurd h (bind_closeParen_ne_error hk)
  next =>
    refine bind reads (hr.behind [o]) (fun ks v hv => ?_) (fun _ _ _ => Nat.le_add_right _ _) ts e
      hlen h
    exact (helems o ks ho (kinds_words ks ▸ hP _ v hv)).map

/-- **What follows a phrase in parentheses.** The phrases up to here are balanced. -/
theorem elems {o : Token} {bs : List Token} {rest : Reader β} {last : Token → γ} {more : α → β → γ}
    (reads : Reads stop n P r) (hP : ∀ ws v, P ws v → Balanced (kinds ws))
    (hr : Blames stop n Misses r) (ho : o.kind = .openParen) (hbs : Balanced (bs.map Token.kind))
    (hrest : ∀ bs, Balanced (bs.map Token.kind) →
      Blames stop n (fun ls => Misses (o :: (bs ++ ls))) rest) :
    Blames stop (n + 1) (fun ls => Misses (o :: (bs ++ ls))) (do
      let k ← Reader.peek
      if k = .comma then
        let _ ← tokenReader stop .comma
        let v ← r
        let q ← rest
        return more v q
      else if k = .closeParen then
        let c ← tokenReader stop .closeParen
        return last c
      else Reader.fail stop (.closing o.span)) := by
  intro ts e hlen h
  rw [Reader.peek_bind] at h
  split at h
  next =>
    -- a comma and a phrase leave what was read balanced
    refine token_bind (.token TokenKind.noConfusion) (fun c hc => ?_) ts e hlen h
    refine bind reads ?_ (fun ks v hv => ?_) fun _ _ _ => Nat.le_add_right _ _
    · exact hr.imp fun ls _ hm => by simpa using hm.append_left (o :: (bs ++ [c]))
    · have hbal : Balanced ((bs ++ c :: ks).map Token.kind) := by
        rw [List.map_append, List.map_cons, hc, ← kinds_words ks]
        exact hbs.append ((hP _ v hv).other rfl)
      exact ((hrest _ hbal).imp fun ls _ hm => by simpa using hm).map
  next =>
    split at h
    next hk => exact absurd h (bind_closeParen_ne_error hk)
    next =>
      refine fail ?_ ts e hlen h
      exact @Misses.closing _ [] bs o (by rw [List.append_nil]; rfl) ho hbs

end Blames

/-! ## Patterns -/

theorem patternReader_openParen {o : Token} {ts : List Token} (ho : o.kind = .openParen)
    (hts : headKind ts ≠ .closeParen) :
    patternReader stop (o :: ts) = (do
      let p ← patternReader stop
      let q ← patternElemsReader stop o.span
      return (Pattern.ofElems (p.1 :: q.1), o.span.merge q.2)) ts := by
  conv => lhs; rw [patternReader_eq]
  rw [Reader.peek_bind, headKind_cons, ho, if_neg TokenKind.noConfusion, if_pos rfl,
    bind_tokenReader ho, Reader.peek_bind, if_neg hts]

theorem blamesPatterns (stop : Span) (n : Nat) :
    Blames stop n Misses (patternReader stop) ∧
      ∀ o bs, o.kind = .openParen → Balanced (bs.map Token.kind) →
        Blames stop n (fun ls => Misses (o :: (bs ++ ls))) (patternElemsReader stop o.span) := by
  induction n with
  | zero => exact ⟨.zero, fun _ _ _ _ => .zero⟩
  | succ n ih =>
    obtain ⟨hp, hq⟩ := ih
    have reads := (patternReader_reads stop n).1
    refine ⟨?_, fun o bs ho hbs => ?_⟩
    · rw [patternReader_eq]
      refine .peek fun k => ?_
      split
      · exact .token_next TokenKind.noConfusion fun _ => .pure
      split
      · exact .parens reads (fun _ _ h => h.balanced) hp hq
      · exact .fail .pattern
    · rw [patternElemsReader_eq]
      exact .elems reads (fun _ _ h => h.balanced) hp ho hbs fun bs hbs => hq o bs ho hbs

theorem paramsReader_blames (stop : Span) (n : Nat) : Blames stop n Misses (paramsReader stop) := by
  induction n with
  | zero => exact .zero
  | succ n ih =>
    rw [paramsReader_eq]
    refine .peek fun k => ?_
    split
    · exact .pure
    · exact .next (patternReader_reads stop (n + 1)).1 (fun _ _ h => h.ne_nil)
        (blamesPatterns stop (n + 1)).1 fun _ => ih.map

theorem binderReader_blames (stop : Span) (n : Nat) : Blames stop n Misses (binderReader stop) := by
  rw [binderReader_eq]
  refine .peek fun k => ?_
  split
  · exact .token_andThen TokenKind.noConfusion fun _ => (paramsReader_blames stop n).map
  · exact (blamesPatterns stop n).1.map

/-! ## Expressions -/

/-- What the readers of expressions miss, out of fewer than `n` tokens. -/
structure BlamesExprs (stop : Span) (n : Nat) : Prop where
  expr : Blames stop n Misses (exprReader stop)
  args : ∀ func, Blames stop n Misses (argsReader stop func)
  elems : ∀ o bs, o.kind = .openParen → Balanced (bs.map Token.kind) →
    Blames stop n (fun ls => Misses (o :: (bs ++ ls))) (elemsReader stop o.span)

namespace BlamesExprs

theorem atom_succ (h : BlamesExprs stop n) : Blames stop (n + 1) Misses (atomReader stop) := by
  rw [atomReader_eq]
  refine .peek fun k => ?_
  iterate 4
    split
    · exact .token_next TokenKind.noConfusion fun _ => .pure
  split
  · exact .parens (readsExprs stop n).expr (fun _ _ he => he.balanced) h.expr h.elems
  · exact .fail .expression

theorem elems_succ (h : BlamesExprs stop n) {o : Token} {bs : List Token} (ho : o.kind = .openParen)
    (hbs : Balanced (bs.map Token.kind)) :
    Blames stop (n + 1) (fun ls => Misses (o :: (bs ++ ls))) (elemsReader stop o.span) := by
  rw [elemsReader_eq]
  exact .elems (readsExprs stop n).expr (fun _ _ he => he.balanced) h.expr ho hbs
    fun bs hbs => h.elems o bs ho hbs

theorem block_succ (h : BlamesExprs stop n) : Blames stop (n + 1) Misses (blockReader stop) := by
  have reads := (readsExprs stop n).expr
  rw [blockReader]
  refine .peek fun k => ?_
  split
  · refine .token_next TokenKind.noConfusion fun _ => ?_
    refine .andThen (patternReader_reads stop n).1 (blamesPatterns stop n).1 fun _ => ?_
    exact .token_andThen TokenKind.noConfusion fun _ => h.expr.map
  split
  · refine .token_next TokenKind.noConfusion fun _ => ?_
    refine .andThen (binderReader_reads stop n) (binderReader_blames stop n) fun _ => ?_
    refine .token_andThen TokenKind.noConfusion fun _ => .andThen reads h.expr fun _ => ?_
    exact .token_andThen TokenKind.noConfusion fun _ => h.expr.map
  split
  · refine .token_next TokenKind.noConfusion fun _ => .andThen reads h.expr fun _ => ?_
    refine .token_andThen TokenKind.noConfusion fun _ => .andThen reads h.expr fun _ => ?_
    exact .token_andThen TokenKind.noConfusion fun _ => h.expr.map
  · exact .fail .expression

theorem expr_succ (h : BlamesExprs stop n) : Blames stop (n + 1) Misses (exprReader stop) := by
  rw [exprReader_eq]
  refine .peek fun k => ?_
  split
  · exact h.block_succ
  · exact .next (readsExprs stop (n + 1)).atom (fun _ _ ha => ha.ne_nil) h.atom_succ h.args

theorem args_succ (h : BlamesExprs stop n) (func : Expr) :
    Blames stop (n + 1) Misses (argsReader stop func) := by
  rw [argsReader_eq]
  refine .peek fun k => ?_
  split
  · exact .next (readsExprs stop (n + 1)).atom (fun _ _ ha => ha.ne_nil) h.atom_succ
      fun _ => h.args _
  split
  · exact h.block_succ.map
  · exact .pure

end BlamesExprs

theorem blamesExprs (stop : Span) (n : Nat) : BlamesExprs stop n := by
  induction n with
  | zero => exact ⟨.zero, fun _ => .zero, fun _ _ _ _ => .zero⟩
  | succ n ih => exact ⟨ih.expr_succ, ih.args_succ, fun _ _ ho hbs => ih.elems_succ ho hbs⟩

/-- What is missing where parsing fails. -/
theorem parseTokens_misses {ts : List Token} {error : SyntaxError}
    (h : parseTokens stop ts = .error error) :
    ∃ ks rest wanted,
      ts = ks ++ rest ∧ error = unexpectedAt stop wanted rest ∧ Misses ks wanted := by
  rcases parseTokens_error_cases h with hread | ⟨e, t, rest, hread, rfl⟩
  · exact (blamesExprs stop (ts.length + 1)).expr ts error (Nat.lt_succ_self _) hread
  · obtain ⟨ks, rfl, -⟩ := (readsExprs stop (ts.length + 1)).expr.ok ts e (t :: rest)
      (Nat.lt_succ_self _) hread
    exact ⟨ks, t :: rest, _, rfl, rfl, .token TokenKind.noConfusion⟩

/-! ## The second place of an error -/

/-- The token at which an error is found is a significant one or the end of the input. -/
theorem exists_unexpectedAt_eq (wanted : Wanted) (rest : List Token) (n : Nat) :
    ∃ t after, rest ++ [endToken n] = t :: after ∧
      unexpectedAt (.point n) wanted rest = .unexpected wanted t.kind t.span := by
  cases rest with
  | nil => exact ⟨endToken n, [], rfl, rfl⟩
  | cons t rest => exact ⟨t, rest ++ [endToken n], rfl, rfl⟩

/-- Two tokens that are kept, and what was between them. -/
theorem exists_of_filter_eq {p : Token → Bool} {ts as bs cs : List Token} {a b : Token}
    (h : ts.filter p = as ++ a :: (bs ++ b :: cs)) :
    ∃ before between after, ts = before ++ a :: (between ++ b :: after) ∧ p b = true ∧
      between.filter p = bs := by
  obtain ⟨before, ts₁, rfl, -, h⟩ := List.filter_eq_append_iff.mp h
  obtain ⟨before', ts₂, rfl, -, -, h⟩ := List.filter_eq_cons_iff.mp h
  obtain ⟨between, ts₃, rfl, hbetween, h⟩ := List.filter_eq_append_iff.mp h
  obtain ⟨between', after, rfl, hnone, hb, -⟩ := List.filter_eq_cons_iff.mp h
  refine ⟨before ++ before', between ++ between', after, by simp, hb, ?_⟩
  rw [List.filter_append, hbetween, List.filter_eq_nil_iff.mpr hnone, List.append_nil]

/-- Texts that are no tokens are not reported as missing parentheses. -/
theorem LexFault.message_ne (fault : LexFault) (text : String) :
    fault.message ≠ "expected `)`, found " ++ text := by
  have hsplit : "expected `)`, found " = "e" ++ "xpected `)`, found " := rfl
  rw [hsplit, String.append_assoc]
  intro h
  -- the first characters differ
  have hfirst := congrArg (fun s => s.toList.take 1) h
  rw [String.toList_append] at hfirst
  cases fault with
  | unexpectedCharacter c =>
    change ("unexpected character: " ++ quotedChar c).toList.take 1 = _ at hfirst
    rw [String.toList_append] at hfirst
    cases hfirst
  | unterminatedBlockComment => cases hfirst
  | unmatchedBlockCommentClose => cases hfirst
  | invalidNumberLiteral digits =>
    change ("invalid number literal: " ++ digits).toList.take 1 = _ at hfirst
    rw [String.toList_append] at hfirst
    cases hfirst

/-- What is wanted, if not a closing parenthesis, is not described like one. -/
theorem Misses.closing_or_describe {ks : List Token} {wanted : Wanted} (h : Misses ks wanted) :
    (∃ opened, wanted = .closing opened) ∨
      2 ≤ wanted.describe.toList.length ∧ wanted.describe.toList.take 2 ≠ "`)".toList := by
  cases h with
  | closing => exact .inl ⟨_, rfl⟩
  | expression | pattern => exact .inr (by decide)
  | @token kind hk =>
    right
    cases kind <;> first | exact absurd rfl hk | decide

/-- A missing parenthesis is missed for one that was opened. -/
theorem Misses.exists_closing {ks : List Token} {wanted : Wanted} {found : TokenKind} {span : Span}
    {text : String} (h : Misses ks wanted)
    (hm : (SyntaxError.unexpected wanted found span).message = "expected `)`, found " ++ text) :
    ∃ opened, wanted = .closing opened := by
  refine h.closing_or_describe.resolve_right fun hdescribe => hdescribe.2 ?_
  have hsplit : "expected `)`, found " = "expected " ++ ("`)" ++ "`, found ") := rfl
  rw [hsplit, SyntaxError.message] at hm
  simp only [String.append_assoc, String.append_right_inj] at hm
  have hword := congrArg (fun s => s.toList.take 2) hm
  simp only [String.toList_append] at hword
  rwa [List.take_append_of_le_length hdescribe.1] at hword

theorem SyntaxError.wanted_of_related {wanted : Wanted} {found : TokenKind} {span opened : Span}
    {text : String} (h : (SyntaxError.unexpected wanted found span).related = some (text, opened)) :
    wanted = .closing opened := by
  cases wanted with
  | token | expression | pattern => cases h
  | closing => exact congrArg Wanted.closing (Prod.mk.inj (Option.some.inj h)).2

theorem isParen_eq_false_of_isTrivia {k : TokenKind} (h : k.isTrivia = true) :
    k.isParen = false := by
  cases k <;> first | rfl | cases h

/-- The parenthesis left open among all tokens of the source, comments included. -/
theorem Misses.exists_opened {source : String} {tokens ks rest after : List Token} {t : Token}
    {opened : Span} (h : Misses ks (.closing opened)) (hlex : lex source = .ok tokens)
    (hts : significant tokens = ks ++ rest)
    (hrest : rest ++ [endToken source.utf8ByteSize] = t :: after) :
    ∃ before o between after', tokens = before ++ o :: (between ++ t :: after') ∧
      o.kind = .openParen ∧ o.span = opened ∧ t.kind.isTrivia = false ∧
      Balanced (between.map Token.kind) := by
  cases h with
  | @closing as bs o hks ho hbs =>
    have hfilter : tokens.filter (fun t => !t.kind.isTrivia) = as ++ o :: (bs ++ t :: after) := by
      rw [filter_eq_significant_append hlex, hts, List.append_assoc, hrest, hks, List.append_assoc]
      rfl
    obtain ⟨before, between, after', htokens, ht, hbetween⟩ := exists_of_filter_eq hfilter
    refine ⟨before, o, between, after', htokens, ho, rfl, (Bool.not_eq_true' _).mp ht, ?_⟩
    -- the comments between the two do not matter
    rw [← hbetween] at hbs
    exact (balanced_filter_iff fun t ht =>
      isParen_eq_false_of_isTrivia ((Bool.not_eq_false' _).mp ht)).mp hbs

/-- **The second place of a syntax error is the innermost parenthesis left open.** It is an opening
parenthesis in front of the token at which the error is, and those between the two are closed there.
There is such a place just if the message wants a closing parenthesis. -/
theorem parse_error_related {source : String} {error : SyntaxError}
    (h : parse source = .error error) :
    (∀ text opened, error.related = some (text, opened) →
      ∃ before o between t after,
        lex source = .ok (before ++ o :: (between ++ t :: after)) ∧
        o.kind = .openParen ∧ o.span = opened ∧
        t.kind.isTrivia = false ∧ t.span = error.span ∧
        error.message = "expected `)`, found " ++ t.kind.describe ∧
        Balanced (between.map Token.kind)) ∧
    (error.related.isSome ↔ ∃ text, error.message = "expected `)`, found " ++ text) := by
  cases hlex : lex source with
  | error fault =>
    -- a text that is no token has no second place
    rw [parse, hlex] at h
    obtain rfl := Except.error.inj h
    refine ⟨fun _ _ hrelated => ?_, fun hrelated => ?_, ?_⟩
    · cases hrelated
    · cases hrelated
    · rintro ⟨text, hm⟩
      exact absurd hm (LexFault.message_ne fault.fault text)
  | ok tokens =>
    rw [parse_of_lex hlex] at h
    obtain ⟨ks, rest, wanted, hts, rfl, hmisses⟩ := parseTokens_misses h
    obtain ⟨t, after, hrest, herror⟩ := exists_unexpectedAt_eq wanted rest source.utf8ByteSize
    rw [herror]
    refine ⟨?_, ?_, ?_⟩
    · intro text opened hrelated
      obtain rfl := SyntaxError.wanted_of_related hrelated
      obtain ⟨before, o, between, after', rfl, ho, hopened, ht, hbal⟩ :=
        hmisses.exists_opened hlex hts hrest
      exact ⟨before, o, between, t, after', rfl, ho, hopened, ht, rfl, rfl, hbal⟩
    · intro hrelated
      obtain ⟨place, hplace⟩ := Option.isSome_iff_exists.mp hrelated
      obtain rfl := SyntaxError.wanted_of_related hplace
      exact ⟨t.kind.describe, rfl⟩
    · rintro ⟨text, hm⟩
      obtain ⟨opened, rfl⟩ := hmisses.exists_closing hm
      rfl

/-- In `fn ((a) b` the first parenthesis is left open: the second one is closed in front of the
error. -/
theorem parse_error_related_pattern :
    parse "fn ((a) b" = .error (.unexpected (.closing ⟨3, 4⟩) .name ⟨8, 9⟩) ∧
    ∃ before o between t after,
      lex "fn ((a) b" = .ok (before ++ o :: (between ++ t :: after)) ∧
      o.kind = .openParen ∧ o.span = ⟨3, 4⟩ ∧ t.kind.isTrivia = false ∧ t.span = ⟨8, 9⟩ ∧
      "expected `)`, found identifier" = "expected `)`, found " ++ t.kind.describe ∧
      Balanced (between.map Token.kind) := by
  have hlex : lex "fn ((a) b" = .ok [⟨.kwFn, "fn", ⟨0, 2⟩⟩, ⟨.openParen, "(", ⟨3, 4⟩⟩,
      ⟨.openParen, "(", ⟨4, 5⟩⟩, ⟨.name, "a", ⟨5, 6⟩⟩, ⟨.closeParen, ")", ⟨6, 7⟩⟩,
      ⟨.name, "b", ⟨8, 9⟩⟩, endToken 9] := by
    have hnone : ∀ b ∈ ([] : List Char), isBlank b = true := List.forall_mem_nil _
    have hspace : ∀ b ∈ [' '], isBlank b = true := List.forall_mem_singleton.mpr rfl
    rw [lex_eq_ok_iff]
    exact @Lexes.token 0 [] 'f' _ _ _ hnone rfl <| @Lexes.token 2 [' '] '(' _ _ _ hspace rfl <|
      @Lexes.token 4 [] '(' _ _ _ hnone rfl <| @Lexes.token 5 [] 'a' _ _ _ hnone rfl <|
      @Lexes.token 6 [] ')' _ _ _ hnone rfl <| @Lexes.token 7 [' '] 'b' _ _ _ hspace rfl <|
      Lexes.done hnone
  have hparse : parse "fn ((a) b" = .error (.unexpected (.closing ⟨3, 4⟩) .name ⟨8, 9⟩) := by
    have ha : patternReader (.point 9) [⟨.name, "a", ⟨5, 6⟩⟩, ⟨.closeParen, ")", ⟨6, 7⟩⟩,
        ⟨.name, "b", ⟨8, 9⟩⟩] =
          .ok ((.var "a", ⟨5, 6⟩), [⟨.closeParen, ")", ⟨6, 7⟩⟩, ⟨.name, "b", ⟨8, 9⟩⟩]) := by
      rw [patternReader_eq]
      rfl
    have hclose : patternElemsReader (.point 9) ⟨4, 5⟩ [⟨.closeParen, ")", ⟨6, 7⟩⟩,
        ⟨.name, "b", ⟨8, 9⟩⟩] = .ok (([], ⟨6, 7⟩), [⟨.name, "b", ⟨8, 9⟩⟩]) := by
      rw [patternElemsReader_eq]
      rfl
    have hopen : patternElemsReader (.point 9) ⟨3, 4⟩ [⟨.name, "b", ⟨8, 9⟩⟩] =
        .error (.unexpected (.closing ⟨3, 4⟩) .name ⟨8, 9⟩) := by
      rw [patternElemsReader_eq]
      rfl
    have hinner : patternReader (.point 9) [⟨.openParen, "(", ⟨4, 5⟩⟩, ⟨.name, "a", ⟨5, 6⟩⟩,
        ⟨.closeParen, ")", ⟨6, 7⟩⟩, ⟨.name, "b", ⟨8, 9⟩⟩] =
          .ok ((.var "a", ⟨4, 7⟩), [⟨.name, "b", ⟨8, 9⟩⟩]) := by
      rw [patternReader_openParen rfl TokenKind.noConfusion, Reader.bind_of_ok ha,
        Reader.bind_of_ok hclose]
      rfl
    have houter : patternReader (.point 9) [⟨.openParen, "(", ⟨3, 4⟩⟩, ⟨.openParen, "(", ⟨4, 5⟩⟩,
        ⟨.name, "a", ⟨5, 6⟩⟩, ⟨.closeParen, ")", ⟨6, 7⟩⟩, ⟨.name, "b", ⟨8, 9⟩⟩] =
          .error (.unexpected (.closing ⟨3, 4⟩) .name ⟨8, 9⟩) := by
      rw [patternReader_openParen rfl TokenKind.noConfusion, Reader.bind_of_ok hinner,
        Reader.bind_of_error hopen]
    have hfn : (⟨.kwFn, "fn", ⟨0, 2⟩⟩ : Token).kind = .kwFn := rfl
    rw [parse_of_lex hlex, parseTokens_eq]
    show (exprReader (.point 9) [_, _, _, _, _, _] >>= _) = _
    rw [exprReader_of_startsBlock (by decide), blockReader, Reader.peek_bind, headKind_cons,
      if_pos rfl, bind_tokenReader hfn, Reader.bind_of_error houter]
    rfl
  obtain ⟨hplace, -⟩ := parse_error_related hparse
  exact ⟨hparse, hplace _ _ rfl⟩

end PolyLet
