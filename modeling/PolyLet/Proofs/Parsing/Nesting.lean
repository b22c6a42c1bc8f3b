import PolyLet.Proofs.Parsing.Faithful

/-!
# Places are nested

Every node of a program stands inside of its parent and apart from its siblings, behind those that
come before it in the source. Such is the order of the tokens: a node takes up the tokens of its
phrase, its children take up some of these, and no token belongs to two children. That holds as well
for the functions that a `let` makes of its parameters, and parentheses only add the tokens around an
expression to those that it takes up.

## Main definitions

* `InTurn ks ss`: the spans `ss` are those of runs of the tokens `ks`, one behind the other

## Main results

* `Covers.encloses`: a span of tokens is inside of a span of more tokens
* `InTurn.pairwise`: spans in turn do not overlap
* `ExprAt.children_inTurn`, `Placed.exists_inTurn`: the children of a node take up its tokens in turn
* `parse_span_nested`: the places of all nodes of a program
-/

namespace PolyLet

/-! ## Spans in turn -/

/-- A span of some tokens in a row is inside of the span of all of them. -/
theorem Covers.encloses {ks ls : List Token} {s t : Span} (h : InOrder ks) (hs : Covers ks s)
    (ht : Covers ls t) (hls : ls <:+: ks) : s.start ≤ t.start ∧ t.stop ≤ s.stop := by
  obtain ⟨first, last, hfirst, hlast, rfl⟩ := hs
  obtain ⟨first', last', hfirst', hlast', rfl⟩ := ht
  exact ⟨h.start_le_of_head hfirst first' (hls.subset (List.mem_of_head? hfirst')),
    h.le_stop_of_getLast hlast last' (hls.subset (List.mem_of_getLast? hlast'))⟩

/-- The ends of a span of tokens are ends of tokens. -/
theorem Covers.exists_mem {ks : List Token} {s : Span} (h : Covers ks s) :
    (∃ t ∈ ks, s.start = t.span.start) ∧ ∃ t ∈ ks, s.stop = t.span.stop := by
  obtain ⟨first, last, hfirst, hlast, rfl⟩ := h
  exact ⟨⟨first, List.mem_of_head? hfirst, rfl⟩, ⟨last, List.mem_of_getLast? hlast, rfl⟩⟩

theorem Covers.start_lt {ks : List Token} {s : Span} (h : Covers ks s) (hord : InOrder ks)
    (hlt : ∀ t ∈ ks, t.span.start < t.span.stop) : s.start < s.stop := by
  obtain ⟨first, last, hfirst, hlast, rfl⟩ := h
  have hmem := List.mem_of_head? hfirst
  exact Nat.lt_of_lt_of_le (hlt first hmem) (hord.le_stop_of_getLast hlast first hmem)

/-- The spans are those of some tokens in a row, each behind those of the span before. -/
inductive InTurn : List Token → List Span → Prop
  | nil {ks : List Token} : InTurn ks []
  | cons (as : List Token) {ks ls ms : List Token} {s : Span} {ss : List Span}
      (hms : as ++ (ks ++ ls) = ms) (hs : Covers ks s) (hss : InTurn ls ss) : InTurn ms (s :: ss)

namespace InTurn

variable {ks ls : List Token} {s : Span} {ss : List Span}

theorem mono (h : InTurn ks ss) (hks : ks <:+: ls) : InTurn ls ss := by
  induction h generalizing ls with
  | nil => exact .nil
  | @cons as ks ms _ _ _ hms hs _ ih =>
    obtain ⟨pre, post, rfl⟩ := hks
    refine .cons (pre ++ as) ?_ hs (ih (List.prefix_append ms post).isInfix)
    simp only [← hms, List.append_assoc]

/-- The span of the last tokens. -/
theorem last (as : List Token) (hls : as ++ ks = ls) (hs : Covers ks s) : InTurn ls [s] :=
  .cons as (by rw [List.append_nil, hls]) hs (@nil [])

theorem exists_covers (h : InTurn ks ss) : ∀ s ∈ ss, ∃ ls, ls <:+: ks ∧ Covers ls s := by
  induction h with
  | nil => exact List.forall_mem_nil _
  | @cons as ks ls ms s ss hms hs _ ih =>
    refine List.forall_mem_cons.mpr ⟨⟨ks, ⟨as, ls, by rw [← hms, List.append_assoc]⟩, hs⟩, ?_⟩
    intro t ht
    obtain ⟨ls', hls', hcovers⟩ := ih t ht
    exact ⟨ls', hls'.trans ⟨as ++ ks, [], by rw [← hms, List.append_nil, List.append_assoc]⟩,
      hcovers⟩

/-- **Spans in turn do not overlap.** -/
theorem pairwise (h : InTurn ks ss) (hord : InOrder ks) :
    ss.Pairwise fun s t => s.stop ≤ t.start := by
  induction h with
  | nil => exact .nil
  | @cons as ks ls _ s ss hms hs hss ih =>
    have hrow : InOrder (ks ++ ls) := hord.sublist (hms ▸ List.sublist_append_right as (ks ++ ls))
    refine List.pairwise_cons.mpr
      ⟨fun t ht => ?_, ih (hrow.sublist (List.sublist_append_right _ _))⟩
    -- the last token of the first span is in front of the first token of any other one
    obtain ⟨ls', hls', first', last', hfirst', -, rfl⟩ := hss.exists_covers t ht
    obtain ⟨first, last, -, hlast, rfl⟩ := hs
    exact (List.pairwise_append.mp hrow.pairwise).2.2 last (List.mem_of_getLast? hlast) first'
      (hls'.subset (List.mem_of_head? hfirst'))

end InTurn

/-! ## Children of expressions -/

theorem TailAt.inTurn {ks : List Token} {es : List Expr} (h : TailAt ks es) :
    InTurn ks (es.map Expr.span) := by
  induction es generalizing ks with
  | nil => exact .nil
  | cons e es ih =>
    cases h with
    | @cons m ks ls _ _ hm he hes => exact .cons [m] rfl he.covers (ih hes)

theorem FunctionAt.children_inTurn {ks : List Token} {e : Expr} (h : FunctionAt ks e) :
    InTurn ks (e.children.map Expr.span) := by
  cases h with
  | @last q ps es _ _ _ _ _ he _ => exact .last (ps ++ [q]) (by simp) he.covers
  | @param ps _ _ _ _ _ hf _ => exact .last ps rfl hf.covers

theorem BlockAt.children_inTurn {ks : List Token} {e : Expr} (h : BlockAt ks e) :
    InTurn ks (e.children.map Expr.span) := by
  cases h with
  | @fn f a ps bs _ _ _ _ _ _ hb _ => exact .last (f :: (ps ++ [a])) (by simp) hb.covers
  | @letIn l q i ps es bs _ _ _ _ _ _ _ he _ hb _ =>
    exact .cons (l :: (ps ++ [q])) (by simp) he.covers (.last [i] rfl hb.covers)
  | @letFunction l x i fs bs _ _ _ _ _ hf _ hb _ =>
    exact .cons [l, x] rfl hf.covers (.last [i] rfl hb.covers)
  | @ite i t e cs as bs _ _ _ _ _ hc _ ha _ hb _ =>
    exact .cons [i] rfl hc.covers <| .cons [t] rfl ha.covers <|
      .last [e] rfl hb.covers

mutual

/-- **The children of an expression take up its tokens in turn.** -/
theorem ExprAt.children_inTurn {ks : List Token} {e : Expr} :
    ExprAt ks e → InTurn ks (e.children.map Expr.span)
  | .block h => h.children_inTurn
  | .atoms h => h.children_inTurn
  | .atomsBlock hf ha _ => .cons [] rfl hf.covers (.last [] rfl ha.covers)

theorem AtomsAt.children_inTurn {ks : List Token} {e : Expr} :
    AtomsAt ks e → InTurn ks (e.children.map Expr.span)
  | .one h => h.children_inTurn
  | .app hf ha _ => .cons [] rfl hf.covers (.last [] rfl ha.covers)

theorem AtomAt.children_inTurn {ks : List Token} {e : Expr} :
    AtomAt ks e → InTurn ks (e.children.map Expr.span)
  | .int _ | .boolTrue _ | .boolFalse _ | .name _ | .unit _ _ _ => .nil
  | @AtomAt.parens o c ks ls s e [] _ he _ _ _ => by
    -- parentheses around one expression leave its children as they are
    rw [ofParens, Expr.children_withSpan]
    exact he.children_inTurn.mono ⟨[o], ls ++ [c], by simp⟩
  | @AtomAt.parens o c ks ls _ e (e' :: es) _ he hes _ _ =>
    .cons [o] rfl he.covers (hes.inTurn.mono ⟨[], [c], rfl⟩)

end

/-- A placed node takes up some tokens in a row, and its children take up these in turn. -/
theorem Placed.exists_inTurn {ks : List Token} {m : Expr} (h : Placed ks m) :
    ∃ ls, ls <:+: ks ∧ Covers ls m.span ∧ InTurn ls (m.children.map Expr.span) := by
  rcases h with ⟨ls, hls, hm⟩ | ⟨l, x, ps, params, ls, i, -, -, -, hm, -, hls⟩
  · exact ⟨ls, hls, hm.covers, hm.children_inTurn⟩
  · exact ⟨ls, List.IsInfix.trans ⟨l :: x :: ps, [i], by simp⟩ hls, hm.covers, hm.children_inTurn⟩

/-! ## Programs -/

theorem start_lt_of_mem_significant {source : String} {tokens : List Token}
    (hlex : lex source = .ok tokens) : ∀ t ∈ significant tokens, t.span.start < t.span.stop := by
  obtain ⟨ws, rfl, hws⟩ := (lex_eq_ok_iff.mp hlex).exists_words
  intro t ht
  simp only [significant, List.filter_append, List.mem_append] at ht
  rcases ht with ht | ht
  · exact (hws t (List.mem_filter.mp ht).1).2
  · -- the end of the input is not significant
    cases ht

/-- **Places are nested.** A program reaches from the first to the last of its significant tokens.
Each of its nodes, those that a `let` makes and those in parentheses among them, starts where a token
starts, ends where a token ends and is not empty. Its children lie inside of it, one behind the
other. -/
theorem parse_span_nested {source : String} {e : Expr} (h : parse source = .ok e) :
    ∃ tokens, lex source = .ok tokens ∧ Covers (significant tokens) e.span ∧
      ∀ m, IsNode m e →
        (∃ t ∈ significant tokens, m.span.start = t.span.start) ∧
        (∃ t ∈ significant tokens, m.span.stop = t.span.stop) ∧
        m.span.start < m.span.stop ∧
        (∀ c ∈ m.children, m.span.start ≤ c.span.start ∧ c.span.stop ≤ m.span.stop) ∧
        m.children.Pairwise fun a b => a.span.stop ≤ b.span.start := by
  obtain ⟨tokens, hlex, he⟩ := exists_exprAt_of_parse h
  refine ⟨tokens, hlex, he.covers, fun m hm => ?_⟩
  obtain ⟨ls, hls, hcovers, hturn⟩ :=
    (Placed.node hm (.inl ⟨_, List.infix_rfl, he⟩)).exists_inTurn
  have hord : InOrder ls := (inOrder_significant hlex).sublist hls.sublist
  obtain ⟨⟨first, hfirst, hstart⟩, ⟨last, hlast, hstop⟩⟩ := hcovers.exists_mem
  refine ⟨⟨first, hls.subset hfirst, hstart⟩, ⟨last, hls.subset hlast, hstop⟩, ?_,
    fun c hc => ?_, ?_⟩
  · exact hcovers.start_lt hord fun t ht => start_lt_of_mem_significant hlex t (hls.subset ht)
  · obtain ⟨ms, hms, hc⟩ := hturn.exists_covers c.span (List.mem_map_of_mem hc)
    exact hcovers.encloses hord hc hms
  · exact List.pairwise_map.mp (hturn.pairwise hord)

/-- In `(f) x` the parentheses belong to the place of `f`, which ends before that of `x`. -/
theorem parse_span_nested_parens :
    parse "(f) x" = .ok (.app ⟨0, 5⟩ (.var ⟨0, 3⟩ "f") (.var ⟨4, 5⟩ "x")) ∧
    ∃ tokens, lex "(f) x" = .ok tokens ∧ Covers (significant tokens) ⟨0, 5⟩ ∧
      (∃ t ∈ significant tokens, t.span.stop = 3) ∧
      [Expr.var ⟨0, 3⟩ "f", .var ⟨4, 5⟩ "x"].Pairwise fun a b => a.span.stop ≤ b.span.start := by
  have hparse : parse "(f) x" = .ok (.app ⟨0, 5⟩ (.var ⟨0, 3⟩ "f") (.var ⟨4, 5⟩ "x")) := by
    have hlex : lex "(f) x" = .ok [⟨.openParen, "(", ⟨0, 1⟩⟩, ⟨.name, "f", ⟨1, 2⟩⟩,
        ⟨.closeParen, ")", ⟨2, 3⟩⟩, ⟨.name, "x", ⟨4, 5⟩⟩, endToken 5] := by
      have hspace : ∀ b ∈ [' '], isBlank b = true := List.forall_mem_singleton.mpr rfl
      rw [lex_eq_ok_iff]
      exact @Lexes.token 0 [] '(' _ _ _ (List.forall_mem_nil _) rfl <|
        @Lexes.token 1 [] 'f' _ _ _ (List.forall_mem_nil _) rfl <|
        @Lexes.token 2 [] ')' _ _ _ (List.forall_mem_nil _) rfl <|
        @Lexes.token 3 [' '] 'x' _ _ _ hspace rfl <| Lexes.done (List.forall_mem_nil _)
    have hf : exprReader (.point 5) [⟨.name, "f", ⟨1, 2⟩⟩, ⟨.closeParen, ")", ⟨2, 3⟩⟩,
        ⟨.name, "x", ⟨4, 5⟩⟩] =
          .ok (.var ⟨1, 2⟩ "f", [⟨.closeParen, ")", ⟨2, 3⟩⟩, ⟨.name, "x", ⟨4, 5⟩⟩]) :=
      exprReader_name rfl (by decide) (by decide)
    have hclose : elemsReader (.point 5) ⟨0, 1⟩
        [⟨.closeParen, ")", ⟨2, 3⟩⟩, ⟨.name, "x", ⟨4, 5⟩⟩] =
          .ok (([], ⟨2, 3⟩), [⟨.name, "x", ⟨4, 5⟩⟩]) := by
      rw [elemsReader_eq]
      rfl
    have hatom : atomReader (.point 5) [⟨.openParen, "(", ⟨0, 1⟩⟩, ⟨.name, "f", ⟨1, 2⟩⟩,
        ⟨.closeParen, ")", ⟨2, 3⟩⟩, ⟨.name, "x", ⟨4, 5⟩⟩] =
          .ok (.var ⟨0, 3⟩ "f", [⟨.name, "x", ⟨4, 5⟩⟩]) := by
      have ho : (⟨.openParen, "(", ⟨0, 1⟩⟩ : Token).kind = .openParen := rfl
      rw [atomReader_eq, Reader.peek_bind, headKind_cons]
      simp only [reduceCtorEq, if_false, if_true]
      rw [bind_tokenReader ho, Reader.peek_bind, if_neg (by decide), Reader.bind_of_ok hf,
        Reader.bind_of_ok hclose]
      rfl
    have hx : atomReader (.point 5) [⟨.name, "x", ⟨4, 5⟩⟩] = .ok (.var ⟨4, 5⟩ "x", []) := by
      rw [atomReader_eq]
      rfl
    have hargs : argsReader (.point 5) (.var ⟨0, 3⟩ "f") [⟨.name, "x", ⟨4, 5⟩⟩] =
        .ok (.app ⟨0, 5⟩ (.var ⟨0, 3⟩ "f") (.var ⟨4, 5⟩ "x"), []) := by
      rw [argsReader_eq, Reader.peek_bind, if_pos (by decide), Reader.bind_of_ok hx, argsReader_eq]
      rfl
    rw [parse_of_lex hlex, parseTokens_eq]
    show (exprReader (.point 5) [_, _, _, _] >>= _) = _
    rw [exprReader_of_not_startsBlock (by decide), Reader.bind_of_ok hatom, hargs]
    rfl
  have hnode := @IsNode.root (.app ⟨0, 5⟩ (.var ⟨0, 3⟩ "f") (.var ⟨4, 5⟩ "x"))
  obtain ⟨tokens, hlex, hcovers, hnested⟩ := parse_span_nested hparse
  obtain ⟨-, -, -, -, hpairwise⟩ := hnested _ hnode
  obtain ⟨-, ⟨t, ht, hstop⟩, -⟩ := hnested _ (.child List.mem_cons_self .root)
  exact ⟨hparse, tokens, hlex, hcovers, ⟨t, ht, hstop.symm⟩, hpairwise⟩

end PolyLet
