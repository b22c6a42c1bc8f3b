import PolyLet.Proofs.Parsing.Reads

/-!
# The parser accepts exactly the grammar

Readers take what the grammar derives. No reader has a choice that could go wrong: the kind of the
next token says which rule to follow, and an expression is read up to a token that starts neither an
atom nor a block, of which kind are all tokens that may come behind an expression. Together with what
readers read, this says that a source is parsed if and only if its words are an expression, into the
tree of that expression, and that no list of words is an expression in two ways.

## Main definitions

* `firstKind k ws`: the kind that is seen in front of `ws`, where `k` is the kind behind them
* `Accepts r ws F V`: the reader takes the words `ws` if a token of a kind `F` follows, and gives a
  value `V`

## Main results

* `Accepts.bind`: a reader after another one
* `IsPattern.accepted`, `IsExpr.accepted`: phrases of the grammar are accepted
* `IsExpr.unique`: words are an expression in at most one way
* `parse_iff_isExpr`: a source is parsed into the tree of its words
-/

namespace PolyLet

variable {α β : Type} {stop : Span}

/-! ## Accepting words -/

/-- The kind that is seen in front of the words, where `k` is the kind behind them. -/
def firstKind (k : TokenKind) : List Word → TokenKind
  | [] => k
  | w :: _ => w.kind

theorem headKind_append_eq (ts rest : List Token) :
    headKind (ts ++ rest) = firstKind (headKind rest) (words ts) := by
  cases ts <;> rfl

/-- The reader takes the words and nothing else, if a token of a kind `F` follows, and gives a
value `V`. -/
def Accepts (r : Reader α) (ws : List Word) (F : TokenKind → Prop) (V : α → Prop) : Prop :=
  ∀ ts rest, words ts = ws → F (headKind rest) → ∃ v, r (ts ++ rest) = .ok (v, rest) ∧ V v

namespace Accepts

variable {r : Reader α} {f : α → Reader β} {ws us : List Word} {F G : TokenKind → Prop}
  {U : α → Prop} {V : β → Prop}

theorem pure {v : α} (h : U v) : Accepts (Pure.pure v) [] F U := by
  intro ts rest hts _
  obtain rfl := List.map_eq_nil_iff.mp hts
  exact ⟨v, rfl, h⟩

theorem peek {f : TokenKind → Reader α} {P : TokenKind → Prop}
    (hk : ∀ k, F k → P (firstKind k ws)) (hf : ∀ k, P k → Accepts (f k) ws F U) :
    Accepts (Reader.peek >>= f) ws F U := by
  intro ts rest hts hrest
  rw [Reader.peek_bind]
  refine hf _ ?_ ts rest hts hrest
  rw [headKind_append_eq, hts]
  exact hk _ hrest

/-- A reader that decides by the kind of the next token, where the first word has that kind. -/
theorem peek_eq {f : TokenKind → Reader α} {w : Word} {kind : TokenKind} (hw : w.kind = kind)
    (hf : Accepts (f kind) (w :: us) F U) : Accepts (Reader.peek >>= f) (w :: us) F U := by
  refine .peek (P := (· = kind)) (fun _ _ => hw) fun k hk => ?_
  rw [hk]
  exact hf

theorem bind (hr : Accepts r ws G U) (hf : ∀ v, U v → Accepts (f v) us F V)
    (hG : ∀ k, F k → G (firstKind k us)) : Accepts (r >>= f) (ws ++ us) F V := by
  intro ts rest hts hrest
  obtain ⟨ks, ls, rfl, hks, hls⟩ := List.map_eq_append_iff.mp hts
  obtain ⟨v, hv, hUv⟩ := hr ks (ls ++ rest) hks (by
    rw [headKind_append_eq, words, hls]
    exact hG _ hrest)
  rw [List.append_assoc, Reader.bind_of_ok hv]
  exact hf v hUv ls rest hls hrest

/-- A reader after one that does not look at what follows. -/
theorem andThen (hr : Accepts r ws (fun _ => True) U) (hf : ∀ v, U v → Accepts (f v) us F V) :
    Accepts (r >>= f) (ws ++ us) F V :=
  hr.bind hf fun _ _ => trivial

theorem token {w : Word} {kind : TokenKind} {f : Token → Reader β} (hw : w.kind = kind)
    (hf : ∀ t, t.word = w → Accepts (f t) us F V) :
    Accepts (tokenReader stop kind >>= f) (w :: us) F V := by
  intro ts rest hts hrest
  obtain ⟨t, ls, rfl, rfl, hls⟩ := List.map_eq_cons_iff.mp hts
  rw [List.cons_append, bind_tokenReader hw]
  exact hf t rfl ls rest hls hrest

theorem map {g : α → β} (hr : Accepts r ws F U) (hg : ∀ v, U v → V (g v)) :
    Accepts (r >>= fun v => Pure.pure (g v)) ws F V := by
  rw [← List.append_nil ws]
  exact hr.bind (fun v hv => pure (hg v hv)) fun _ h => h

end Accepts

/-! ## Patterns -/

theorem IsPattern.firstKind_ne {ws : List Word} {p : Pattern} (h : IsPattern ws p) (k : TokenKind)
    (us : List Word) : firstKind k (ws ++ us) ≠ .closeParen ∧ firstKind k (ws ++ us) ≠ .equals := by
  obtain ⟨w, vs, rfl, hw⟩ := h.exists_cons
  rcases hw with hw | hw <;> simp [firstKind, hw]

mutual

theorem IsPattern.accepted {ws : List Word} {p : Pattern} {F : TokenKind → Prop} :
    IsPattern ws p → Accepts (patternReader stop) ws F (fun q => q.1 = p)
  | .name (x := x) hx => by
    rw [patternReader_eq]
    refine .peek_eq hx ?_
    refine .token hx fun t ht => .pure ?_
    rw [← ht]
    rfl
  | .unit ho hc => by
    rw [patternReader_eq]
    refine .peek_eq ho ?_
    exact .token ho fun o _ => .peek_eq hc (.token hc fun c _ => .pure rfl)
  | .parens ho hp hps hc => by
    rw [patternReader_eq]
    refine .peek_eq ho ?_
    refine .token ho fun o _ => ?_
    refine .peek (P := (· ≠ .closeParen)) (fun k _ => ?_) fun k' hk' => ?_
    · exact (hp.firstKind_ne k _).1
    · rw [if_neg hk']
      refine hp.accepted.andThen ?_
      rintro p' rfl
      refine (hps.accepted o.span hc).map ?_
      rintro q rfl
      rfl

theorem IsPatternTail.accepted {us : List Word} {ps : List Pattern} {c : Word}
    {F : TokenKind → Prop} : IsPatternTail us ps → ∀ opened, c.kind = .closeParen →
      Accepts (patternElemsReader stop opened) (us ++ [c]) F (fun q => q.1 = ps)
  | .nil, opened, hc => by
    rw [patternElemsReader_eq]
    refine .peek_eq hc ?_
    exact .token hc fun c _ => .pure rfl
  | .cons hm hp hps, opened, hc => by
    rw [patternElemsReader_eq, List.cons_append, List.append_assoc]
    refine .peek_eq hm ?_
    refine .token hm fun _ _ => hp.accepted.andThen ?_
    rintro p' rfl
    refine (hps.accepted opened hc).map ?_
    rintro q rfl
    rfl

end

theorem IsPatterns.accepted {ws : List Word} {ps : List Pattern} (h : IsPatterns ws ps) :
    Accepts (paramsReader stop) ws (· = .equals) (fun qs => qs.map Prod.fst = ps) := by
  induction h with
  | nil =>
    rw [paramsReader_eq]
    refine .peek (P := (· = .equals)) (fun _ h => h) fun k hk => ?_
    rw [if_pos hk]
    exact .pure rfl
  | cons hp hps ih =>
    rw [paramsReader_eq]
    refine .peek (P := (· ≠ .equals)) (fun k _ => (hp.firstKind_ne k _).2) fun k hk => ?_
    rw [if_neg hk]
    refine hp.accepted.andThen ?_
    rintro p rfl
    refine ih.map ?_
    rintro qs rfl
    rfl

theorem IsBinder.accepted {ws : List Word} {p : Pattern} {params : List Pattern}
    (h : IsBinder ws p params) :
    Accepts (binderReader stop) ws (· = .equals) (fun b => b.1 = p ∧ b.2.map Prod.fst = params) := by
  rw [binderReader_eq]
  cases h with
  | function hx hps hne =>
    -- the name is read alike with and without parameters
    refine .peek_eq hx ?_
    refine .token hx fun x h => hps.accepted.map fun qs hqs => ⟨?_, hqs⟩
    rw [← h]
    rfl
  | plain hp =>
    cases hp with
    | name hx =>
      refine .peek_eq hx ?_
      refine .token hx fun x h => IsPatterns.nil.accepted.map fun qs hqs => ⟨?_, hqs⟩
      rw [← h]
      rfl
    | unit ho hc =>
      refine .peek_eq ho ?_
      exact (IsPattern.unit ho hc).accepted.map fun q hq => ⟨hq, rfl⟩
    | parens ho hp hps hc =>
      refine .peek_eq ho ?_
      exact (IsPattern.parens ho hp hps hc).accepted.map fun q hq => ⟨hq, rfl⟩

/-! ## Expressions -/

/-- A token of this kind does not continue an expression. -/
def EndsExpr (k : TokenKind) : Prop :=
  startsAtom k = false ∧ startsBlock k = false

theorem endsExpr_firstKind {w : Word} {kind : TokenKind} (hw : w.kind = kind) (h : EndsExpr kind)
    (k : TokenKind) (us : List Word) : EndsExpr (firstKind k (w :: us)) := by
  rw [firstKind, hw]
  exact h

theorem IsTail.endsExpr {us : List Word} {es : List Expr} (h : IsTail us es) {c : Word}
    (hc : c.kind = .closeParen) (k : TokenKind) : EndsExpr (firstKind k (us ++ [c])) := by
  cases h with
  | nil => exact endsExpr_firstKind hc ⟨rfl, rfl⟩ k []
  | cons hm _ _ => exact endsExpr_firstKind hm ⟨rfl, rfl⟩ k _

theorem IsAtom.startsAtom {ws : List Word} {e : Expr} (h : IsAtom ws e) (k : TokenKind)
    (us : List Word) : PolyLet.startsAtom (firstKind k (ws ++ us)) = true := by
  obtain ⟨w, vs, rfl, hw⟩ := h.exists_cons
  exact hw

theorem IsBlock.startsBlock {ws : List Word} {e : Expr} (h : IsBlock ws e) (k : TokenKind) :
    PolyLet.startsBlock (firstKind k ws) = true := by
  obtain ⟨w, vs, rfl, hw⟩ := h.exists_cons
  exact hw

theorem not_startsBlock_of_startsAtom {k : TokenKind} (h : startsAtom k = true) :
    ¬startsBlock k = true := by
  cases k <;> simp_all [startsAtom, startsBlock]

theorem IsExpr.firstKind_ne {ws : List Word} {e : Expr} (h : IsExpr ws e) (k : TokenKind)
    (us : List Word) : firstKind k (ws ++ us) ≠ .closeParen := by
  obtain ⟨w, vs, rfl, hw⟩ := h.exists_cons
  show w.kind ≠ .closeParen
  rintro hk
  simp [hk, PolyLet.startsAtom, PolyLet.startsBlock] at hw

mutual

theorem IsExpr.accepted {ws : List Word} {e : Expr} :
    IsExpr ws e → Accepts (exprReader stop) ws EndsExpr (fun e' => e'.unlocated = e)
  | .block h => by
    rw [exprReader_eq]
    refine .peek (P := (startsBlock · = true)) (fun k _ => h.startsBlock k) fun k hk => ?_
    rw [if_pos hk]
    exact h.accepted
  | .atoms h => by
    rw [← List.append_nil ws]
    refine h.accepted [] _ fun f' hf' => ?_
    rw [argsReader_eq]
    -- what follows an expression is no argument
    refine .peek (P := EndsExpr) (fun _ hk => hk) fun k hk => ?_
    rw [if_neg (by simp [hk.1]), if_neg (by simp [hk.2])]
    exact .pure hf'
  | .atomsBlock hf ha => by
    refine hf.accepted _ _ fun f' hf' => ?_
    rw [argsReader_eq]
    -- the block is the last argument, as it reaches to the end of the expression
    refine .peek (P := (startsBlock · = true)) (fun k _ => ha.startsBlock k) fun k hk => ?_
    rw [if_neg (fun h => not_startsBlock_of_startsAtom h hk), if_pos hk]
    refine ha.accepted.map fun a' ha' => ?_
    rw [unlocated_applyTo, hf', ha']

theorem IsBlock.accepted {ws : List Word} {e : Expr} :
    IsBlock ws e → Accepts (blockReader stop) ws EndsExpr (fun e' => e'.unlocated = e)
  | .fn hf hp ha hb => by
    rw [blockReader]
    refine .peek_eq hf ?_
    refine .token hf fun f _ => hp.accepted.andThen ?_
    rintro p' rfl
    refine .token ha fun a _ => hb.accepted.map ?_
    rintro b' rfl
    rfl
  | .letIn hl hp hq he hi hb => by
    rw [blockReader]
    refine .peek_eq hl ?_
    refine .token hl fun l _ => hp.accepted.bind ?_ fun _ _ => hq
    rintro b ⟨rfl, rfl⟩
    refine .token hq fun q _ => he.accepted.bind ?_ fun k _ => endsExpr_firstKind hi ⟨rfl, rfl⟩ k _
    rintro e' rfl
    refine .token hi fun i _ => hb.accepted.map ?_
    rintro b' rfl
    rw [Expr.unlocated, unlocated_curry]
  | .ite hi hc ht ha he hb => by
    rw [blockReader]
    refine .peek_eq hi ?_
    refine .token hi fun i _ => hc.accepted.bind ?_ fun k _ => endsExpr_firstKind ht ⟨rfl, rfl⟩ k _
    rintro c' rfl
    refine .token ht fun t _ => ha.accepted.bind ?_ fun k _ => endsExpr_firstKind he ⟨rfl, rfl⟩ k _
    rintro a' rfl
    refine .token he fun e _ => hb.accepted.map ?_
    rintro b' rfl
    rfl

/-- Atoms are read from the left but grouped to the left, so the last argument is the outermost one.
What is read behind the atoms is therefore left open. -/
theorem IsAtoms.accepted {ws : List Word} {func : Expr} : IsAtoms ws func →
    ∀ us V, (∀ f', f'.unlocated = func → Accepts (argsReader stop f') us EndsExpr V) →
      Accepts (exprReader stop) (ws ++ us) EndsExpr V
  | .one h, us, V, hus => by
    rw [exprReader_eq]
    refine .peek (P := (startsAtom · = true)) (fun k _ => h.startsAtom k us) fun k hk => ?_
    rw [if_neg (not_startsBlock_of_startsAtom hk)]
    exact h.accepted.andThen hus
  | .app hf ha, us, V, hus => by
    rw [List.append_assoc]
    refine hf.accepted _ V fun f' hf' => ?_
    rw [argsReader_eq]
    refine .peek (P := (startsAtom · = true)) (fun k _ => ha.startsAtom k us) fun k hk => ?_
    rw [if_pos hk]
    refine ha.accepted.andThen fun a' ha' => hus _ ?_
    rw [unlocated_applyTo, hf', ha']

theorem IsAtom.accepted {ws : List Word} {e : Expr} {F : TokenKind → Prop} :
    IsAtom ws e → Accepts (atomReader stop) ws F (fun e' => e'.unlocated = e)
  | .int hw => by
    rw [atomReader_eq]
    refine .peek_eq hw ?_
    exact .token hw fun t ht => .pure (by rw [← ht]; rfl)
  | .boolTrue hw => by
    rw [atomReader_eq]
    refine .peek_eq hw ?_
    exact .token hw fun t _ => .pure rfl
  | .boolFalse hw => by
    rw [atomReader_eq]
    refine .peek_eq hw ?_
    exact .token hw fun t _ => .pure rfl
  | .name hw => by
    rw [atomReader_eq]
    refine .peek_eq hw ?_
    exact .token hw fun t ht => .pure (by rw [← ht]; rfl)
  | .unit ho hc => by
    rw [atomReader_eq]
    refine .peek_eq ho ?_
    exact .token ho fun o _ => .peek_eq hc (.token hc fun c _ => .pure rfl)
  | .parens ho he hes hc => by
    rw [atomReader_eq]
    refine .peek_eq ho ?_
    refine .token ho fun o _ => ?_
    refine .peek (P := (· ≠ .closeParen)) (fun k _ => he.firstKind_ne k _) fun k' hk' => ?_
    rw [if_neg hk']
    refine he.accepted.bind ?_ fun k _ => hes.endsExpr hc k
    rintro e' rfl
    refine (hes.accepted o.span hc).map ?_
    rintro q rfl
    exact unlocated_ofParens _ _

theorem IsTail.accepted {us : List Word} {es : List Expr} {c : Word} {F : TokenKind → Prop} :
    IsTail us es → ∀ opened, c.kind = .closeParen →
      Accepts (elemsReader stop opened) (us ++ [c]) F (fun q => Expr.unlocatedAll q.1 = es)
  | .nil, opened, hc => by
    rw [elemsReader_eq]
    refine .peek_eq hc ?_
    exact .token hc fun c _ => .pure rfl
  | .cons hm he hes, opened, hc => by
    rw [elemsReader_eq, List.cons_append, List.append_assoc]
    refine .peek_eq hm ?_
    refine .token hm fun _ _ => he.accepted.bind ?_ fun k _ => hes.endsExpr hc k
    rintro e' rfl
    refine (hes.accepted opened hc).map ?_
    rintro q rfl
    rfl

end

/-! ## Programs -/

/-- **The parser accepts exactly the grammar,** from tokens. -/
theorem exists_parseTokens_iff {ts : List Token} {e : Expr} :
    (∃ e', parseTokens stop ts = .ok e' ∧ e'.unlocated = e) ↔ IsExpr (words ts) e := by
  constructor
  · rintro ⟨e', h, rfl⟩
    obtain ⟨ks, hts, hks, -⟩ := (readsExprs stop _).expr.ok ts e' [] (Nat.lt_succ_self _)
      (parseTokens_eq_ok_iff.mp h)
    rw [List.append_nil] at hts
    exact hts ▸ hks
  · intro h
    obtain ⟨e', he', heq⟩ := h.accepted ts [] rfl ⟨rfl, rfl⟩
    rw [List.append_nil] at he'
    exact ⟨e', parseTokens_eq_ok_iff.mpr he', heq⟩

/-- Words are an expression in at most one way. -/
theorem IsExpr.unique {ws : List Word} {e₁ e₂ : Expr} (h₁ : IsExpr ws e₁) (h₂ : IsExpr ws e₂) :
    e₁ = e₂ := by
  -- the parser reads tokens of these words, and it has one answer
  rw [← words_toToken ws] at h₁ h₂
  obtain ⟨e, he, rfl⟩ : ∃ e, parseTokens {} _ = .ok e ∧ _ := exists_parseTokens_iff.mpr h₁
  obtain ⟨e', he', rfl⟩ := exists_parseTokens_iff.mpr h₂
  rw [Except.ok.inj (he.symm.trans he')]

theorem parse_of_lex {source : String} {tokens : List Token} (h : lex source = .ok tokens) :
    parse source = parseTokens (.point source.utf8ByteSize) (significant tokens) := by
  rw [parse, h]

theorem exists_lex_of_parse {source : String} {e : Expr} (h : parse source = .ok e) :
    ∃ tokens, lex source = .ok tokens := by
  cases hlex : lex source with
  | error error =>
    rw [parse, hlex] at h
    cases h
  | ok tokens => exact ⟨tokens, rfl⟩

/-- **A source is parsed if and only if its words are an expression,** and then into the tree of that
expression, which is the only one. -/
theorem parse_iff_isExpr {source : String} {tokens : List Token} (h : lex source = .ok tokens) :
    (∀ e, (∃ e', parse source = .ok e' ∧ e'.unlocated = e) ↔
      IsExpr (words (significant tokens)) e) ∧
    ∀ e₁ e₂, IsExpr (words (significant tokens)) e₁ → IsExpr (words (significant tokens)) e₂ →
      e₁ = e₂ := by
  refine ⟨fun e => ?_, fun e₁ e₂ => IsExpr.unique⟩
  rw [parse_of_lex h]
  exact exists_parseTokens_iff

/-- The function behind `f` is its argument, and reaches to the end. -/
theorem parse_function_argument :
    lex "f fn x -> (x)" = .ok [⟨.name, "f", ⟨0, 1⟩⟩, ⟨.kwFn, "fn", ⟨2, 4⟩⟩, ⟨.name, "x", ⟨5, 6⟩⟩,
      ⟨.arrow, "->", ⟨7, 9⟩⟩, ⟨.openParen, "(", ⟨10, 11⟩⟩, ⟨.name, "x", ⟨11, 12⟩⟩,
      ⟨.closeParen, ")", ⟨12, 13⟩⟩, endToken 13] ∧
    ∃ e, parse "f fn x -> (x)" = .ok e ∧
      e.unlocated = .app {} (.var {} "f") (.lam {} (.var "x") (.var {} "x")) := by
  have hlex : lex "f fn x -> (x)" = .ok [⟨.name, "f", ⟨0, 1⟩⟩, ⟨.kwFn, "fn", ⟨2, 4⟩⟩,
      ⟨.name, "x", ⟨5, 6⟩⟩, ⟨.arrow, "->", ⟨7, 9⟩⟩, ⟨.openParen, "(", ⟨10, 11⟩⟩,
      ⟨.name, "x", ⟨11, 12⟩⟩, ⟨.closeParen, ")", ⟨12, 13⟩⟩, endToken 13] := by
    have hspace : ∀ b ∈ [' '], isBlank b = true := List.forall_mem_singleton.mpr rfl
    rw [lex_eq_ok_iff]
    exact @Lexes.token 0 [] 'f' _ _ _ nofun rfl <| @Lexes.token 1 [' '] 'f' _ _ _ hspace rfl <|
      @Lexes.token 4 [' '] 'x' _ _ _ hspace rfl <| @Lexes.token 6 [' '] '-' _ _ _ hspace rfl <|
      @Lexes.token 9 [' '] '(' _ _ _ hspace rfl <| @Lexes.token 11 [] 'x' _ _ _ nofun rfl <|
      @Lexes.token 12 [] ')' _ _ _ nofun rfl <| Lexes.done nofun
  refine ⟨hlex, ((parse_iff_isExpr hlex).1 _).mpr ?_⟩
  have hx : IsExpr [⟨.openParen, "("⟩, ⟨.name, "x"⟩, ⟨.closeParen, ")"⟩] (.var {} "x") :=
    .atoms (.one (.parens rfl (.atoms (.one (.name rfl))) .nil rfl))
  exact .atomsBlock (.one (.name rfl)) (.fn rfl (.name rfl) rfl hx)

end PolyLet
