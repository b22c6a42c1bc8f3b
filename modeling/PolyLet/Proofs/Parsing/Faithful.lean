import PolyLet.Proofs.Parsing.Places

/-!
# Places are faithful

The text at the place of a node is the text of that node: parsed on its own, it gives the same tree.
The one exception are the functions that a `let` makes of its parameters. Such a function starts at a
parameter, so its text has an equals sign where a program has none and is not parsed at all. No text
of a node is parsed into another tree.

That is shown by going down from the root. Every node is placed: it is an expression of some tokens
in a row, or a function that a `let` made. The children of a placed node are placed again.

## Main definitions

* `MadeByLet ks m`: the function `m` is made by a `let` with parameters, in the tokens `ks`
* `Placed ks m`: the node `m` stands at its place in the tokens `ks`

## Main results

* `Placed.child`, `Placed.node`: the children of a placed node, and all nodes below it
* `FunctionAt.not_isProgram`: the tokens of a function that a `let` makes are no program
* `parse_text_of_node`: the text of a node is parsed into the node, or it is such a function
-/

namespace PolyLet

/-! ## Placed nodes -/

/-- Within the tokens, `m` is a function that a `let` with parameters makes: in front of its tokens
there are `let`, a name and the parameters before its own, and behind them there is `in`. -/
def MadeByLet (ks : List Token) (m : Expr) : Prop :=
  ∃ l x ps params ls i, l.kind = .kwLet ∧ x.kind = .name ∧ ParamsAt ps params ∧ FunctionAt ls m ∧
    i.kind = .kwIn ∧ l :: x :: (ps ++ (ls ++ [i])) <:+: ks

/-- Within the tokens, `m` is an expression at its place, or a function that a `let` makes. -/
def Placed (ks : List Token) (m : Expr) : Prop :=
  (∃ ls, ls <:+: ks ∧ ExprAt ls m) ∨ MadeByLet ks m

theorem Placed.mono {ks ls : List Token} {m : Expr} (h : Placed ks m) (hks : ks <:+: ls) :
    Placed ls m := by
  rcases h with ⟨ms, hms, hm⟩ | ⟨l, x, ps, params, ms, i, hl, hx, hps, hm, hi, hms⟩
  · exact .inl ⟨ms, hms.trans hks, hm⟩
  · exact .inr ⟨l, x, ps, params, ms, i, hl, hx, hps, hm, hi, hms.trans hks⟩

theorem ParamsAt.concat {ks ls : List Token} {ps : List (Pattern × Span)} {p : Pattern × Span}
    (hps : ParamsAt ks ps) (hp : PatternAt ls p) : ParamsAt (ks ++ ls) (ps ++ [p]) := by
  induction hps with
  | nil =>
    rw [List.nil_append, ← List.append_nil ls]
    exact .cons hp .nil
  | cons hq _ ih =>
    rw [List.append_assoc]
    exact .cons hq ih

theorem TailAt.exists_exprAt {ks : List Token} {es : List Expr} (h : TailAt ks es) :
    ∀ e ∈ es, ∃ ls, ls <:+: ks ∧ ExprAt ls e := by
  induction es generalizing ks with
  | nil => exact List.forall_mem_nil _
  | cons e es ih =>
    cases h with
    | @cons m ks ls _ _ hm he hes =>
      refine List.forall_mem_cons.mpr ⟨⟨ks, ⟨[m], ls, rfl⟩, he⟩, fun e' he' => ?_⟩
      obtain ⟨ms, hms, hexpr⟩ := ih hes e' he'
      exact ⟨ms, hms.trans ⟨m :: ks, [], by simp⟩, hexpr⟩

mutual

/-- The children of an expression are placed among its tokens. -/
theorem ExprAt.placed_child {ks : List Token} {e c : Expr} :
    ExprAt ks e → c ∈ e.children → Placed ks c
  | .block h, hc => h.placed_child hc
  | .atoms h, hc => h.placed_child hc
  | @ExprAt.atomsBlock ks ls _ _ _ hf ha _, hc => by
    simp only [Expr.children, List.mem_cons, List.not_mem_nil, or_false] at hc
    rcases hc with rfl | rfl
    · exact .inl ⟨ks, ⟨[], ls, rfl⟩, .atoms hf⟩
    · exact .inl ⟨ls, ⟨ks, [], by simp⟩, .block ha⟩

theorem BlockAt.placed_child {ks : List Token} {e c : Expr} :
    BlockAt ks e → c ∈ e.children → Placed ks c
  | @BlockAt.fn f a ps bs _ _ _ _ _ _ hb _, hc => by
    obtain rfl := List.mem_singleton.mp hc
    exact .inl ⟨bs, ⟨f :: (ps ++ [a]), [], by simp⟩, hb⟩
  | @BlockAt.letIn l q i ps es bs _ _ _ _ _ _ _ he _ hb _, hc => by
    simp only [Expr.children, List.mem_cons, List.not_mem_nil, or_false] at hc
    rcases hc with rfl | rfl
    · exact .inl ⟨es, ⟨l :: (ps ++ [q]), i :: bs, by simp⟩, he⟩
    · exact .inl ⟨bs, ⟨l :: (ps ++ q :: (es ++ [i])), [], by simp⟩, hb⟩
  | @BlockAt.letFunction l x i fs bs _ _ _ hl hx hf hi hb _, hc => by
    simp only [Expr.children, List.mem_cons, List.not_mem_nil, or_false] at hc
    rcases hc with rfl | rfl
    · -- no parameter of the `let` stands in front of the bound function
      exact .inr ⟨l, x, [], [], fs, i, hl, hx, .nil, hf, hi, ⟨[], bs, by simp⟩⟩
    · exact .inl ⟨bs, ⟨l :: x :: (fs ++ [i]), [], by simp⟩, hb⟩
  | @BlockAt.ite i t e cs as bs _ _ _ _ _ hcond _ ha _ hb _, hc => by
    simp only [Expr.children, List.mem_cons, List.not_mem_nil, or_false] at hc
    rcases hc with rfl | rfl | rfl
    · exact .inl ⟨cs, ⟨[i], t :: (as ++ e :: bs), by simp⟩, hcond⟩
    · exact .inl ⟨as, ⟨i :: (cs ++ [t]), e :: bs, by simp⟩, ha⟩
    · exact .inl ⟨bs, ⟨i :: (cs ++ t :: (as ++ [e])), [], by simp⟩, hb⟩

theorem AtomsAt.placed_child {ks : List Token} {e c : Expr} :
    AtomsAt ks e → c ∈ e.children → Placed ks c
  | .one h, hc => h.placed_child hc
  | @AtomsAt.app ks ls _ _ _ hf ha _, hc => by
    simp only [Expr.children, List.mem_cons, List.not_mem_nil, or_false] at hc
    rcases hc with rfl | rfl
    · exact .inl ⟨ks, ⟨[], ls, rfl⟩, .atoms hf⟩
    · exact .inl ⟨ls, ⟨ks, [], by simp⟩, .atoms (.one ha)⟩

theorem AtomAt.placed_child {ks : List Token} {e c : Expr} :
    AtomAt ks e → c ∈ e.children → Placed ks c
  | .int _, hc | .boolTrue _, hc | .boolFalse _, hc | .name _, hc | .unit _ _ _, hc =>
    absurd hc List.not_mem_nil
  | @AtomAt.parens o c ks ls _ e [] _ he hes _ _, hc => by
    -- parentheses around one expression leave its children as they are
    rw [ofParens, Expr.children_withSpan] at hc
    exact (he.placed_child hc).mono ⟨[o], ls ++ [c], by simp⟩
  | @AtomAt.parens o c ks ls _ e (e' :: es) _ he hes _ _, hc => by
    rcases List.mem_cons.mp hc with rfl | hc
    · exact .inl ⟨ks, ⟨[o], ls ++ [c], by simp⟩, he⟩
    · obtain ⟨ms, hms, hexpr⟩ := hes.exists_exprAt _ hc
      exact .inl ⟨ms, hms.trans ⟨o :: ks, [c], by simp⟩, hexpr⟩

end

/-- **The children of a placed node are placed.** -/
theorem Placed.child {ks : List Token} {e c : Expr} (h : Placed ks e) (hc : c ∈ e.children) :
    Placed ks c := by
  rcases h with ⟨ls, hls, he⟩ | ⟨l, x, ps, params, ls, i, hl, hx, hps, hf, hi, hls⟩
  · exact (he.placed_child hc).mono hls
  cases hf with
  | @last q ps' es _ _ _ _ _ he _ =>
    obtain rfl := List.mem_singleton.mp hc
    exact .inl ⟨es, List.IsInfix.trans ⟨l :: x :: (ps ++ (ps' ++ [q])), [i], by simp⟩ hls, he⟩
  | @param ps' fs _ _ _ hp hf _ =>
    -- the parameter goes over to those in front of the next function
    obtain rfl := List.mem_singleton.mp hc
    refine .inr ⟨l, x, ps ++ ps', _, fs, i, hl, hx, hps.concat hp, hf, hi, ?_⟩
    rwa [List.append_assoc] at hls ⊢

/-- All nodes of a placed node are placed. -/
theorem Placed.node {ks : List Token} {m e : Expr} (hm : IsNode m e) (h : Placed ks e) :
    Placed ks m := by
  induction hm with
  | root => exact h
  | child hc _ ih => exact ih (h.child hc)

/-! ## Functions that a `let` makes -/

mutual

/-- A pattern is also an atom. -/
theorem IsPattern.exists_isAtom {ws : List Word} {p : Pattern} : IsPattern ws p → ∃ e, IsAtom ws e
  | .name hx => ⟨_, .name hx⟩
  | .unit ho hc => ⟨_, .unit ho hc⟩
  | .parens ho hp hps hc => by
    obtain ⟨e, he⟩ := hp.exists_isAtom
    obtain ⟨es, hes⟩ := hps.exists_isTail
    exact ⟨_, .parens ho (.atoms (.one he)) hes hc⟩

theorem IsPatternTail.exists_isTail {ws : List Word} {ps : List Pattern} :
    IsPatternTail ws ps → ∃ es, IsTail ws es
  | .nil => ⟨_, .nil⟩
  | .cons hm hp hps => by
    obtain ⟨e, he⟩ := hp.exists_isAtom
    obtain ⟨es, hes⟩ := hps.exists_isTail
    exact ⟨_, .cons hm (.atoms (.one he)) hes⟩

end

/-- Patterns behind atoms are further atoms. -/
theorem IsPatterns.exists_isAtoms {us : List Word} {ps : List Pattern} (h : IsPatterns us ps)
    {ws : List Word} {func : Expr} (hf : IsAtoms ws func) : ∃ e, IsAtoms (ws ++ us) e := by
  induction h generalizing ws func with
  | nil => exact ⟨func, by rwa [List.append_nil]⟩
  | cons hp _ ih =>
    obtain ⟨arg, ha⟩ := hp.exists_isAtom
    rw [← List.append_assoc]
    exact ih (.app hf ha)

/-- An expression with a word behind it that does not continue it is the beginning of no program. -/
theorem IsExpr.not_isProgram_append {ws us : List Word} {e : Expr} {w : Word} (h : IsExpr ws e)
    (hw : EndsExpr w.kind) : ¬IsProgram (ws ++ w :: us) := by
  rintro ⟨e', h'⟩
  -- the expression is read up to the word, and not to the end
  obtain ⟨v, hv, -⟩ := @IsExpr.accepted {} ws e h (ws.map Word.toToken)
    ((w :: us).map Word.toToken) (words_toToken ws) hw
  obtain ⟨v', hv', -⟩ := @IsExpr.accepted {} _ e' h' ((ws ++ w :: us).map Word.toToken) []
    (words_toToken _) ⟨rfl, rfl⟩
  rw [List.append_nil, List.map_append, hv] at hv'
  cases hv'

/-- **The tokens of a function that a `let` makes are no program.** -/
theorem FunctionAt.not_isProgram {ks : List Token} {e : Expr} (h : FunctionAt ks e) :
    ¬IsProgram (words ks) := by
  obtain ⟨_, q, es, params, bound, hks, hps, hne, hq, -, -⟩ := h.exists_params
  rw [hks]
  cases hps with
  | nil => exact absurd rfl hne
  | cons hp hps =>
    -- the parameters are read as a call, which the equals sign does not continue
    obtain ⟨func, hf⟩ := hp.exists_isAtom
    obtain ⟨e, he⟩ := hps.exists_isAtoms (.one hf)
    refine (IsExpr.atoms he).not_isProgram_append ?_
    rw [hq]
    exact ⟨rfl, rfl⟩

/-! ## Texts of nodes -/

/-- The text of a function that a `let` makes is not parsed. -/
theorem MadeByLet.exists_error {source : String} {tokens : List Token} {m : Expr}
    (h : MadeByLet (significant tokens) m) (hlex : lex source = .ok tokens) :
    ∃ text error, m.span.textIn? source = some text ∧ parse text = .error error := by
  obtain ⟨l, x, ps, params, ls, i, -, -, -, hm, -, hls⟩ := h
  have hinfix : ls <:+: significant tokens :=
    List.IsInfix.trans ⟨l :: x :: ps, [i], by simp⟩ hls
  obtain ⟨text, us, htext, hus, hwords⟩ := exists_lex_excerpt hlex hinfix hm.covers
  cases hparse : parse text with
  | error error => exact ⟨text, error, htext, hparse⟩
  | ok e =>
    -- the words of the text would be a program
    rw [parse_of_lex hus] at hparse
    have hprogram := exists_parseTokens_iff.mp ⟨e, hparse, rfl⟩
    rw [hwords] at hprogram
    exact absurd ⟨_, hprogram⟩ hm.not_isProgram

/-- The text of an expression is parsed into it. -/
theorem ExprAt.exists_parse {source : String} {tokens ls : List Token} {m : Expr}
    (h : ExprAt ls m) (hls : ls <:+: significant tokens) (hlex : lex source = .ok tokens) :
    ∃ text m', m.span.textIn? source = some text ∧ parse text = .ok m' ∧
      m'.unlocated = m.unlocated := by
  obtain ⟨text, us, htext, hus, hwords⟩ := exists_lex_excerpt hlex hls h.covers
  have hexpr := h.isExpr
  rw [← hwords] at hexpr
  obtain ⟨m', hm', heq⟩ := exists_parseTokens_iff.mpr hexpr
  exact ⟨text, m', htext, (parse_of_lex hus).trans hm', heq⟩

/-- **Places are faithful.** Every node of a program has a text in the source. Whatever tree that
text is parsed into on its own, it is the tree of the node. The text is not parsed if and only if
the node is a function that a `let` with parameters makes. Hence the text of any node but a function
is parsed. -/
theorem parse_text_of_node {source : String} {e m : Expr} (h : parse source = .ok e)
    (hm : IsNode m e) :
    ∃ tokens text, lex source = .ok tokens ∧ m.span.textIn? source = some text ∧
      (∀ m', parse text = .ok m' → m'.unlocated = m.unlocated) ∧
      ((∃ error, parse text = .error error) ↔ MadeByLet (significant tokens) m) ∧
      ((∀ s p body, m ≠ .lam s p body) →
        ∃ m', parse text = .ok m' ∧ m'.unlocated = m.unlocated) := by
  obtain ⟨tokens, hlex, he⟩ := exists_exprAt_of_parse h
  have hplaced : Placed (significant tokens) m :=
    Placed.node hm (.inl ⟨_, List.infix_rfl, he⟩)
  rcases hplaced with ⟨ls, hls, hexpr⟩ | hlet
  · obtain ⟨text, m', htext, hparse, heq⟩ := hexpr.exists_parse hls hlex
    refine ⟨tokens, text, hlex, htext, fun m'' h'' => ?_, iff_of_false ?_ fun hlet => ?_,
      fun _ => ⟨m', hparse, heq⟩⟩
    · rw [hparse] at h''
      exact Except.ok.inj h'' ▸ heq
    · rintro ⟨error, herror⟩
      rw [hparse] at herror
      cases herror
    · -- the tokens of an expression are not those of such a function, which has no parse
      obtain ⟨text', error, htext', herror⟩ := hlet.exists_error hlex
      obtain rfl := Option.some.inj (htext.symm.trans htext')
      rw [hparse] at herror
      cases herror
  · obtain ⟨text, error, htext, herror⟩ := hlet.exists_error hlex
    refine ⟨tokens, text, hlex, htext, fun m' h' => ?_, iff_of_true ⟨error, herror⟩ hlet,
      fun hlam => ?_⟩
    · rw [herror] at h'
      cases h'
    · obtain ⟨l, x, ps, params, ls, i, -, -, -, hf, -, -⟩ := hlet
      cases hf <;> exact absurd rfl (hlam _ _ _)

/-- The function that takes `x` is made by the `let`, and its text is that of the bytes 6 to 11. -/
theorem parse_text_of_parameter :
    parse "let k x = x in k" = .ok (.letIn ⟨0, 16⟩ (.var "k")
      (.lam ⟨6, 11⟩ (.var "x") (.var ⟨10, 11⟩ "x")) (.var ⟨15, 16⟩ "k")) ∧
    IsNode (.lam ⟨6, 11⟩ (.var "x") (.var ⟨10, 11⟩ "x")) (.letIn ⟨0, 16⟩ (.var "k")
      (.lam ⟨6, 11⟩ (.var "x") (.var ⟨10, 11⟩ "x")) (.var ⟨15, 16⟩ "k")) ∧
    ∃ tokens text, lex "let k x = x in k" = .ok tokens ∧
      (⟨6, 11⟩ : Span).textIn? "let k x = x in k" = some text ∧
      (∀ m', parse text = .ok m' → m'.unlocated = .lam {} (.var "x") (.var {} "x")) ∧
      ((∃ error, parse text = .error error) ↔
        MadeByLet (significant tokens) (.lam ⟨6, 11⟩ (.var "x") (.var ⟨10, 11⟩ "x"))) := by
  have hparse : parse "let k x = x in k" = .ok (.letIn ⟨0, 16⟩ (.var "k")
      (.lam ⟨6, 11⟩ (.var "x") (.var ⟨10, 11⟩ "x")) (.var ⟨15, 16⟩ "k")) := by
    have hspace : ∀ b ∈ [' '], isBlank b = true := List.forall_mem_singleton.mpr rfl
    have hlex : lex "let k x = x in k" = .ok [⟨.kwLet, "let", ⟨0, 3⟩⟩, ⟨.name, "k", ⟨4, 5⟩⟩,
        ⟨.name, "x", ⟨6, 7⟩⟩, ⟨.equals, "=", ⟨8, 9⟩⟩, ⟨.name, "x", ⟨10, 11⟩⟩, ⟨.kwIn, "in", ⟨12, 14⟩⟩,
        ⟨.name, "k", ⟨15, 16⟩⟩, endToken 16] := by
      rw [lex_eq_ok_iff]
      exact @Lexes.token 0 [] 'l' _ _ _ (List.forall_mem_nil _) rfl <|
        @Lexes.token 3 [' '] 'k' _ _ _ hspace rfl <| @Lexes.token 5 [' '] 'x' _ _ _ hspace rfl <|
        @Lexes.token 7 [' '] '=' _ _ _ hspace rfl <| @Lexes.token 9 [' '] 'x' _ _ _ hspace rfl <|
        @Lexes.token 11 [' '] 'i' _ _ _ hspace rfl <| @Lexes.token 14 [' '] 'k' _ _ _ hspace rfl <|
        Lexes.done (List.forall_mem_nil _)
    have hparams (stop : Span) (rest : List Token) :
        paramsReader stop (⟨.name, "x", ⟨6, 7⟩⟩ :: ⟨.equals, "=", ⟨8, 9⟩⟩ :: rest) =
          .ok ([(.var "x", ⟨6, 7⟩)], ⟨.equals, "=", ⟨8, 9⟩⟩ :: rest) := by
      rw [paramsReader_eq, Reader.peek_bind, headKind_cons, if_neg (by decide),
        Reader.bind_of_ok (patternReader_name (by rfl) _), Reader.bind_of_ok (paramsReader_equals rfl)]
      rfl
    rw [parse_of_lex hlex, parseTokens_eq]
    show (exprReader _ [_, _, _, _, _, _, _] >>= _) = _
    rw [exprReader_of_startsBlock rfl]
    show ((binderReader _ [_, _, _, _, _, _] >>= _) >>= _) = _
    rw [binderReader_eq]
    show (((paramsReader _ [_, _, _, _, _] >>= _) >>= _) >>= _) = _
    rw [hparams]
    show ((exprReader _ [_, _, _] >>= _) >>= _) = _
    rw [exprReader_name rfl (by decide) (by decide)]
    show ((exprReader _ [_] >>= _) >>= _) = _
    rw [exprReader_name rfl (by decide) (by decide)]
    rfl
  have hnode : IsNode (.lam ⟨6, 11⟩ (.var "x") (.var ⟨10, 11⟩ "x")) (.letIn ⟨0, 16⟩ (.var "k")
      (.lam ⟨6, 11⟩ (.var "x") (.var ⟨10, 11⟩ "x")) (.var ⟨15, 16⟩ "k")) :=
    .child List.mem_cons_self .root
  obtain ⟨tokens, text, hlex, htext, htree, herror, -⟩ := parse_text_of_node hparse hnode
  exact ⟨hparse, hnode, tokens, text, hlex, htext, htree, herror⟩

end PolyLet
