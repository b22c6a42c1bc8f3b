import PolyLet.Proofs.Lexing.Run
import PolyLet.Proofs.Parsing.Grammar
import PolyLet.Proofs.Parsing.Reader

/-!
# What readers read

A reader of phrases takes the words of a phrase and nothing else. If it fails, then it has taken a
beginning of a phrase, and the error is at the token behind that beginning. And in both cases it has
looked at no token but those that it took and the one behind them. These three facts go together
through every sequence of readers, so that they hold of the readers of the language by the form of
their equations alone.

## Main definitions

* `Word.IsToken w`: a word that a source may contain
* `Begins P ws`: the words `ws` can be completed to a phrase
* `Reads stop n P r`: the reader `r` reads phrases `P` from fewer than `n` tokens

## Main results

* `Reads.bind`: a reader after another one
* `patternReader_reads`, `binderReader_reads`, `readsExprs`: the readers of the language read the
  phrases of the grammar
-/

namespace PolyLet

variable {α β : Type} {stop : Span} {m n : Nat}

/-! ## Words that a source may contain -/

/-- The text of the word, as a source of its own, is read as this one word. -/
def Word.IsToken (w : Word) : Prop :=
  ∃ t stop, lex w.text = .ok [t, endToken stop] ∧ t.word = w

theorem Word.isToken_of_scan {w : Word} {c : Char} {cs : List Char} (hw : w.text.toList = c :: cs)
    (hc : isBlank c = false) (hs : scan c cs = ⟨w.kind, c :: cs, [], none⟩) : w.IsToken := by
  have run := @Lexes.token 0 [] c cs _ _ nofun hc (by rw [hs]; exact .done nofun)
  rw [hs, List.nil_append, ← hw] at run
  refine ⟨_, _, lex_eq_ok_iff.mpr run, ?_⟩
  show (⟨w.kind, String.ofList w.text.toList⟩ : Word) = w
  rw [String.ofList_toList]

/-- Whether programs are made of tokens of this kind: not so comments, the end of the input and
invalid tokens. -/
def TokenKind.isSpelled (k : TokenKind) : Bool :=
  !k.isTrivia && k ≠ .endOfInput && k ≠ .invalid

/-- A text that is read as a token of the kind. -/
def TokenKind.spelling : TokenKind → String
  | kwLet => "let"
  | kwIn => "in"
  | kwFn => "fn"
  | kwIf => "if"
  | kwThen => "then"
  | kwElse => "else"
  | kwTrue => "True"
  | kwFalse => "False"
  | equals => "="
  | arrow => "->"
  | openParen => "("
  | closeParen => ")"
  | comma => ","
  | integer => "0"
  | name => "x"
  | lineComment | blockComment | endOfInput | invalid => ""

/-- Every kind that programs are made of has a word. -/
theorem isToken_spelling {k : TokenKind} (h : k.isSpelled = true) :
    (⟨k, k.spelling⟩ : Word).IsToken := by
  cases k
  case lineComment | blockComment | endOfInput | invalid => cases h
  all_goals exact Word.isToken_of_scan rfl rfl rfl

/-! ## Beginnings of phrases -/

/-- The words can be completed to a phrase, by words that a source may contain. -/
def Begins (P : List Word → α → Prop) (ws : List Word) : Prop :=
  ∃ post v, (∀ w ∈ post, w.IsToken) ∧ P (ws ++ post) v

theorem Begins.of_phrase {P : List Word → α → Prop} {ws : List Word} {v : α} (h : P ws v) :
    Begins P ws :=
  ⟨[], v, nofun, by rwa [List.append_nil]⟩

theorem Begins.of_spelling {P : List Word → α → Prop} {k : TokenKind} {v : α}
    (hk : k.isSpelled = true) (h : P [⟨k, k.spelling⟩] v) :
    Begins P [] :=
  ⟨[⟨k, k.spelling⟩], v, fun _ hw => List.mem_singleton.mp hw ▸ isToken_spelling hk, h⟩

/-- If every phrase `P` begins a phrase `Q`, then so does every beginning of a phrase `P`. -/
theorem Begins.bind {P : List Word → α → Prop} {Q : List Word → β → Prop} {ws : List Word}
    (hP : Begins P ws) (hQ : ∀ us v, P us v → Begins Q us) : Begins Q ws := by
  obtain ⟨post, v, hpost, hv⟩ := hP
  obtain ⟨post', x, hpost', hx⟩ := hQ _ v hv
  refine ⟨post ++ post', x, ?_, by rwa [← List.append_assoc]⟩
  exact fun w hw => (List.mem_append.mp hw).elim (hpost w) (hpost' w)

/-! ## Reading phrases -/

theorem headKind_append {ts ts' : List Token} (h : headKind ts' = headKind ts) (ks : List Token) :
    headKind (ks ++ ts') = headKind (ks ++ ts) := by
  cases ks with
  | nil => exact h
  | cons k ks => rfl

/-- The reader reads phrases from fewer than `n` tokens. -/
structure Reads (stop : Span) (n : Nat) (P : List Word → α → Prop) (r : Reader α) : Prop where
  /-- There is such a phrase. -/
  begins : Begins P []
  /-- What was taken is a phrase. From these tokens it is read again, if the token behind them is of
  the same kind. -/
  ok : ∀ ts v rest, ts.length < n → r ts = .ok (v, rest) →
    ∃ ks, ts = ks ++ rest ∧ P (words ks) v ∧
      ∀ rest', headKind rest' = headKind rest → r (ks ++ rest') = .ok (v, rest')
  /-- What comes before an error begins a phrase. With these tokens reading fails again, if the
  token behind them is of the same kind. -/
  error : ∀ ts e, ts.length < n → r ts = .error e →
    ∃ ks rest wanted, ts = ks ++ rest ∧ e = unexpectedAt stop wanted rest ∧ Begins P (words ks) ∧
      ∀ rest', headKind rest' = headKind rest →
        r (ks ++ rest') = .error (unexpectedAt stop wanted rest')

namespace Reads

variable {P : List Word → α → Prop} {Q : List Word → β → Prop} {r : Reader α} {f : α → Reader β}

theorem zero (h : Begins P []) : Reads stop 0 P r :=
  ⟨h, fun _ _ _ hlen => absurd hlen (Nat.not_lt_zero _),
    fun _ _ hlen => absurd hlen (Nat.not_lt_zero _)⟩

theorem pure {v : α} (h : P [] v) : Reads stop n P (Pure.pure v) := by
  refine ⟨.of_phrase h, ?_, ?_⟩
  · rintro ts v' rest - hr
    obtain ⟨rfl, rfl⟩ := Prod.mk.inj (Except.ok.inj hr)
    exact ⟨[], rfl, h, fun _ _ => rfl⟩
  · rintro ts e - hr
    cases hr

theorem fail {wanted : Wanted} (h : Begins P []) : Reads stop n P (Reader.fail stop wanted) := by
  refine ⟨h, ?_, ?_⟩
  · rintro ts v rest - hr
    cases hr
  · rintro ts e - hr
    exact ⟨[], ts, wanted, rfl, (Except.error.inj hr).symm, h, fun _ _ => rfl⟩

/-- A reader that decides by the kind of the next token. -/
theorem peek {f : TokenKind → Reader α} (hf : ∀ k, Reads stop n P (f k)) :
    Reads stop n P (Reader.peek >>= f) := by
  refine ⟨(hf .endOfInput).begins, ?_, ?_⟩
  · intro ts v rest hn hr
    rw [Reader.peek_bind] at hr
    obtain ⟨ks, rfl, hv, again⟩ := (hf _).ok ts v rest hn hr
    refine ⟨ks, rfl, hv, fun rest' hk => ?_⟩
    rw [Reader.peek_bind, headKind_append hk]
    exact again rest' hk
  · intro ts e hn hr
    rw [Reader.peek_bind] at hr
    obtain ⟨ks, rest, wanted, rfl, he, hb, again⟩ := (hf _).error ts e hn hr
    refine ⟨ks, rest, wanted, rfl, he, hb, fun rest' hk => ?_⟩
    rw [Reader.peek_bind, headKind_append hk]
    exact again rest' hk

/-- **A reader after another one.** The second one reads what is left, so fewer tokens are enough
for it if the phrases of the first one are not empty. -/
theorem bind (hr : Reads stop n P r)
    (hf : ∀ ws v, P ws v → Reads stop m (fun us => Q (ws ++ us)) (f v))
    (hn : ∀ ws v, P ws v → n ≤ m + ws.length) : Reads stop n Q (r >>= f) := by
  have begins (ws v) (h : P ws v) : Begins Q ws := by
    obtain ⟨post, x, hpost, hx⟩ := (hf ws v h).begins
    exact ⟨post, x, hpost, hx⟩
  have left {ks rest : List Token} {v : α} (hv : P (words ks) v) (hlen : (ks ++ rest).length < n) :
      rest.length < m := by
    have := hn _ v hv
    simp only [words, List.length_map, List.length_append] at this hlen
    omega
  refine ⟨hr.begins.bind begins, ?_, ?_⟩
  · intro ts x rest hlen h
    cases hrts : r ts with
    | error e =>
      rw [Reader.bind_of_error hrts] at h
      cases h
    | ok q =>
      obtain ⟨v, rest₁⟩ := q
      rw [Reader.bind_of_ok hrts] at h
      obtain ⟨ks₁, rfl, hv, again₁⟩ := hr.ok ts v rest₁ hlen hrts
      obtain ⟨ks₂, rfl, hx, again₂⟩ := (hf _ v hv).ok rest₁ x rest (left hv hlen) h
      refine ⟨ks₁ ++ ks₂, by simp, by simpa using hx, fun rest' hk => ?_⟩
      rw [List.append_assoc, Reader.bind_of_ok (again₁ _ (headKind_append hk ks₂))]
      exact again₂ rest' hk
  · intro ts e hlen h
    cases hrts : r ts with
    | error e' =>
      -- the first reader failed, and what it took begins a phrase of the whole
      obtain rfl := Except.error.inj ((Reader.bind_of_error hrts).symm.trans h)
      obtain ⟨ks, rest, wanted, rfl, he, hb, again⟩ := hr.error ts _ hlen hrts
      refine ⟨ks, rest, wanted, rfl, he, hb.bind begins, fun rest' hk => ?_⟩
      exact Reader.bind_of_error (again rest' hk)
    | ok q =>
      -- the second reader failed behind a phrase of the first one, which reads it again since the
      -- kind of the token behind that phrase is the same
      obtain ⟨v, rest₁⟩ := q
      rw [Reader.bind_of_ok hrts] at h
      obtain ⟨ks₁, rfl, hv, again₁⟩ := hr.ok ts v rest₁ hlen hrts
      obtain ⟨ks₂, rest, wanted, rfl, he, ⟨post, x, hpost, hx⟩, again₂⟩ :=
        (hf _ v hv).error rest₁ e (left hv hlen) h
      refine ⟨ks₁ ++ ks₂, rest, wanted, by simp, he, ⟨post, x, hpost, by simpa using hx⟩,
        fun rest' hk => ?_⟩
      rw [List.append_assoc, Reader.bind_of_ok (again₁ _ (headKind_append hk ks₂))]
      exact again₂ rest' hk

theorem imp {Q : List Word → α → Prop} (hr : Reads stop n P r) (h : ∀ ws v, P ws v → Q ws v) :
    Reads stop n Q r := by
  refine ⟨hr.begins.bind fun _ _ hv => .of_phrase (h _ _ hv), ?_, ?_⟩
  · intro ts v rest hlen hrts
    obtain ⟨ks, hts, hv, again⟩ := hr.ok ts v rest hlen hrts
    exact ⟨ks, hts, h _ _ hv, again⟩
  · intro ts e hlen hrts
    obtain ⟨ks, rest, wanted, hts, he, hb, again⟩ := hr.error ts e hlen hrts
    exact ⟨ks, rest, wanted, hts, he, hb.bind fun _ _ hv => .of_phrase (h _ _ hv), again⟩

theorem andThen (hr : Reads stop n P r)
    (hf : ∀ ws v, P ws v → Reads stop n (fun us => Q (ws ++ us)) (f v)) :
    Reads stop n Q (r >>= f) :=
  hr.bind hf fun _ _ _ => Nat.le_add_right _ _

theorem next (hr : Reads stop (n + 1) P r) (hne : ∀ ws v, P ws v → ws ≠ [])
    (hf : ∀ ws v, P ws v → Reads stop n (fun us => Q (ws ++ us)) (f v)) :
    Reads stop (n + 1) Q (r >>= f) :=
  hr.bind hf fun ws v h => Nat.add_le_add_left (List.length_pos_iff.mpr (hne ws v h)) n

theorem map {g : α → β} (hr : Reads stop n P r) (hg : ∀ ws v, P ws v → Q ws (g v)) :
    Reads stop n Q (r >>= fun v => Pure.pure (g v)) :=
  hr.andThen fun ws v h => .pure (by rw [List.append_nil]; exact hg ws v h)

/-- A token of a kind that programs are made of. -/
theorem token {kind : TokenKind} (hk : kind.isSpelled = true) :
    Reads stop n (fun ws t => ws = [t.word] ∧ t.kind = kind) (tokenReader stop kind) := by
  have begins : Begins (fun ws t => ws = [Token.word t] ∧ t.kind = kind) [] :=
    .of_spelling (v := ⟨kind, kind.spelling, {}⟩) hk ⟨rfl, rfl⟩
  have hend : headKind [] ≠ kind := by
    rintro rfl
    cases hk
  refine ⟨begins, ?_, ?_⟩
  · intro ts t rest _ hr
    by_cases h : headKind ts = kind
    · cases ts with
      | nil => exact absurd h hend
      | cons t' ts =>
        rw [tokenReader_of_eq h] at hr
        obtain ⟨rfl, rfl⟩ := Prod.mk.inj (Except.ok.inj hr)
        exact ⟨[t'], rfl, ⟨rfl, h⟩, fun rest' _ => tokenReader_of_eq h rest'⟩
    · rw [tokenReader_of_ne h] at hr
      cases hr
  · intro ts e _ hr
    by_cases h : headKind ts = kind
    · cases ts with
      | nil => exact absurd h hend
      | cons t' ts =>
        rw [tokenReader_of_eq h] at hr
        cases hr
    · rw [tokenReader_of_ne h] at hr
      refine ⟨[], ts, .token kind, rfl, (Except.error.inj hr).symm, begins, fun rest' hk' => ?_⟩
      exact tokenReader_of_ne (hk' ▸ h)

theorem token_andThen {kind : TokenKind} {f : Token → Reader β}
    (hk : kind.isSpelled = true)
    (hf : ∀ t, t.kind = kind → Reads stop n (fun us => Q (t.word :: us)) (f t)) :
    Reads stop n Q (tokenReader stop kind >>= f) := by
  refine (token hk).andThen ?_
  rintro ws t ⟨rfl, ht⟩
  exact hf t ht

theorem token_next {kind : TokenKind} {f : Token → Reader β}
    (hk : kind.isSpelled = true)
    (hf : ∀ t, t.kind = kind → Reads stop n (fun us => Q (t.word :: us)) (f t)) :
    Reads stop (n + 1) Q (tokenReader stop kind >>= f) := by
  refine (token hk).next ?_ ?_
  · rintro ws t ⟨rfl, -⟩
    exact List.cons_ne_nil _ _
  · rintro ws t ⟨rfl, ht⟩
    exact hf t ht

end Reads

/-! ## Patterns -/

/-- The words of a list up to and with a closing parenthesis. -/
def ClosedList (T : List Word → α → Prop) (ws : List Word) (q : α × Span) : Prop :=
  ∃ us c, ws = us ++ [c] ∧ T us q.1 ∧ c.kind = .closeParen

theorem IsPattern.begins : Begins (fun ws (p : Pattern × Span) => IsPattern ws p.1) [] :=
  .of_spelling (k := .name) (v := (.var "x", {})) rfl (.name rfl)

theorem IsPatternTail.begins : Begins (ClosedList IsPatternTail) [] :=
  .of_spelling (k := .closeParen) (v := ([], {})) rfl ⟨[], _, rfl, .nil, rfl⟩

theorem patternReader_step
    (hp : Reads stop n (fun ws p => IsPattern ws p.1) (patternReader stop))
    (hq : ∀ opened, Reads stop n (ClosedList IsPatternTail) (patternElemsReader stop opened)) :
    Reads stop (n + 1) (fun ws p => IsPattern ws p.1) (patternReader stop) := by
  rw [patternReader_eq]
  refine .peek fun k => ?_
  split
  · exact .token_next rfl fun x hx => .pure (.name hx)
  split
  · refine .token_next rfl fun o ho => .peek fun k' => ?_
    split
    · exact .token_andThen rfl fun c hc => .pure (.unit ho hc)
    · refine hp.andThen fun ws p hws => (hq o.span).map ?_
      rintro _ q ⟨us, c, rfl, hus, hc⟩
      exact .parens ho hws hus hc
  · exact .fail IsPattern.begins

theorem patternElemsReader_step {opened : Span}
    (hp : Reads stop n (fun ws p => IsPattern ws p.1) (patternReader stop))
    (hq : Reads stop n (ClosedList IsPatternTail) (patternElemsReader stop opened)) :
    Reads stop (n + 1) (ClosedList IsPatternTail) (patternElemsReader stop opened) := by
  rw [patternElemsReader_eq]
  refine .peek fun k => ?_
  split
  · refine .token_next rfl fun m hm => hp.andThen fun ws p hws => hq.map ?_
    rintro _ q ⟨us, c, rfl, hus, hc⟩
    exact ⟨m.word :: (ws ++ us), c, by simp, .cons hm hws hus, hc⟩
  split
  · exact .token_next rfl fun c hc => .pure ⟨[], c.word, rfl, .nil, hc⟩
  · exact .fail IsPatternTail.begins

theorem patternReader_reads (stop : Span) (n : Nat) :
    Reads stop n (fun ws p => IsPattern ws p.1) (patternReader stop) ∧
      ∀ opened, Reads stop n (ClosedList IsPatternTail) (patternElemsReader stop opened) := by
  induction n with
  | zero => exact ⟨.zero IsPattern.begins, fun _ => .zero IsPatternTail.begins⟩
  | succ n ih =>
    exact ⟨patternReader_step ih.1 ih.2, fun opened => patternElemsReader_step ih.1 (ih.2 opened)⟩

theorem paramsReader_reads (stop : Span) (n : Nat) :
    Reads stop n (fun ws ps => IsPatterns ws (ps.map Prod.fst)) (paramsReader stop) := by
  induction n with
  | zero => exact .zero (.of_phrase (v := []) .nil)
  | succ n ih =>
    rw [paramsReader_eq]
    refine .peek fun k => ?_
    split
    · exact .pure .nil
    · refine (patternReader_reads stop (n + 1)).1.next (fun _ _ hp => hp.ne_nil) fun ws p hp => ?_
      exact ih.map fun us ps hps => .cons hp hps

theorem binderReader_reads (stop : Span) (n : Nat) :
    Reads stop n (fun ws b => IsBinder ws b.1 (b.2.map Prod.fst)) (binderReader stop) := by
  rw [binderReader_eq]
  refine .peek fun k => ?_
  split
  · refine .token_andThen rfl fun x hx => (paramsReader_reads stop n).map fun ws ps hps => ?_
    -- without parameters this is a plain binder
    cases ps with
    | nil =>
      cases hps
      exact .plain (.name hx)
    | cons p ps => exact .function hx hps (List.cons_ne_nil _ _)
  · exact (patternReader_reads stop n).1.map fun ws p hp => .plain hp

/-! ## Trees without their places -/

theorem unlocated_withSpan (span : Span) (e : Expr) : (e.withSpan span).unlocated = e.unlocated := by
  cases e <;> rfl

theorem unlocated_applyTo (func arg : Expr) :
    (applyTo func arg).unlocated = .app {} func.unlocated arg.unlocated := by
  rw [applyTo, Expr.unlocated]

theorem unlocated_ofParens (span : Span) (es : List Expr) :
    (ofParens span es).unlocated = .ofElems (Expr.unlocatedAll es) := by
  rcases es with _ | ⟨e, _ | ⟨e', es⟩⟩
  · rfl
  · exact unlocated_withSpan span e
  · rfl

theorem unlocated_curry (params : List (Pattern × Span)) (body : Expr) :
    (curry params body).unlocated = .ofParams (params.map Prod.fst) body.unlocated := by
  induction params with
  | nil => rfl
  | cons p params ih =>
    show Expr.lam {} p.1 (curry params body).unlocated = _
    rw [ih]
    rfl

/-! ## Expressions -/

/-- The words continue the function `func` to the expression `e`. -/
def IsArgs (func : Expr) (us : List Word) (e : Expr) : Prop :=
  ∀ ws, IsAtoms ws func.unlocated → IsExpr (ws ++ us) e.unlocated

theorem IsAtom.begins : Begins (fun ws e => IsAtom ws (Expr.unlocated e)) [] :=
  .of_spelling (k := .name) (v := .var {} "x") rfl (.name rfl)

theorem IsBlock.begins : Begins (fun ws e => IsBlock ws (Expr.unlocated e)) [] := by
  refine ⟨[.kwFn, .name, .arrow, .name].map fun k => ⟨k, k.spelling⟩,
    .lam {} (.var "x") (.var {} "x"), ?_, ?_⟩
  · simp only [List.forall_mem_map]
    intro k hk
    refine isToken_spelling ?_
    revert k
    decide
  · exact @IsBlock.fn _ _ [_] [_] _ _ rfl (.name rfl) rfl (.atoms (.one (.name rfl)))

theorem IsTail.begins : Begins (ClosedList fun ws es => IsTail ws (Expr.unlocatedAll es)) [] :=
  .of_spelling (k := .closeParen) (v := ([], {})) rfl ⟨[], _, rfl, .nil, rfl⟩

/-- All readers of expressions read their phrases from fewer than `n` tokens. -/
structure ReadsExprs (stop : Span) (n : Nat) : Prop where
  expr : Reads stop n (fun ws e => IsExpr ws e.unlocated) (exprReader stop)
  args : ∀ func, Reads stop n (IsArgs func) (argsReader stop func)
  atom : Reads stop n (fun ws e => IsAtom ws e.unlocated) (atomReader stop)
  elems : ∀ opened, Reads stop n (ClosedList fun ws es => IsTail ws (Expr.unlocatedAll es))
    (elemsReader stop opened)

namespace ReadsExprs

theorem zero : ReadsExprs stop 0 where
  expr := .zero (IsAtom.begins.bind fun _ _ h => .of_phrase (.atoms (.one h)))
  args _ := .zero (.of_phrase fun _ h => by rw [List.append_nil]; exact .atoms h)
  atom := .zero IsAtom.begins
  elems _ := .zero IsTail.begins

theorem atom_succ (h : ReadsExprs stop n) :
    Reads stop (n + 1) (fun ws e => IsAtom ws e.unlocated) (atomReader stop) := by
  rw [atomReader_eq]
  refine .peek fun k => ?_
  split
  · exact .token_next rfl fun t ht => .pure (.int ht)
  split
  · exact .token_next rfl fun t ht => .pure (.boolTrue ht)
  split
  · exact .token_next rfl fun t ht => .pure (.boolFalse ht)
  split
  · exact .token_next rfl fun t ht => .pure (.name ht)
  split
  · refine .token_next rfl fun o ho => .peek fun k' => ?_
    split
    · exact .token_andThen rfl fun c hc => .pure (.unit ho hc)
    · refine h.expr.andThen fun ws e hws => (h.elems o.span).map ?_
      rintro _ q ⟨us, c, rfl, hus, hc⟩
      rw [unlocated_ofParens]
      exact .parens ho hws hus hc
  · exact .fail IsAtom.begins

theorem elems_succ (h : ReadsExprs stop n) (opened : Span) :
    Reads stop (n + 1) (ClosedList fun ws es => IsTail ws (Expr.unlocatedAll es))
      (elemsReader stop opened) := by
  rw [elemsReader_eq]
  refine .peek fun k => ?_
  split
  · refine .token_next rfl fun m hm => h.expr.andThen fun ws e hws => (h.elems opened).map ?_
    rintro _ q ⟨us, c, rfl, hus, hc⟩
    exact ⟨m.word :: (ws ++ us), c, by simp, .cons hm hws hus, hc⟩
  split
  · exact .token_next rfl fun c hc => .pure ⟨[], c.word, rfl, .nil, hc⟩
  · exact .fail IsTail.begins

theorem block_succ (h : ReadsExprs stop n) :
    Reads stop (n + 1) (fun ws e => IsBlock ws e.unlocated) (blockReader stop) := by
  rw [blockReader]
  refine .peek fun k => ?_
  split
  · refine .token_next rfl fun f hf => ?_
    refine (patternReader_reads stop n).1.andThen fun ps p hp => ?_
    refine .token_andThen rfl fun a ha => h.expr.map fun bs body hb => ?_
    exact .fn hf hp ha hb
  split
  · refine .token_next rfl fun l hl => ?_
    refine (binderReader_reads stop n).andThen fun ps b hp => ?_
    refine .token_andThen rfl fun q hq => h.expr.andThen fun es bound he => ?_
    refine .token_andThen rfl fun i hi => h.expr.map fun bs body hb => ?_
    show IsBlock _ (.letIn {} b.1 (curry b.2 bound).unlocated body.unlocated)
    rw [unlocated_curry]
    exact .letIn hl hp hq he hi hb
  split
  · refine .token_next rfl fun i hi => h.expr.andThen fun cs cond hc => ?_
    refine .token_andThen rfl fun t ht => h.expr.andThen fun as a ha => ?_
    refine .token_andThen rfl fun e he => h.expr.map fun bs b hb => ?_
    exact .ite hi hc ht ha he hb
  · exact .fail IsBlock.begins

theorem expr_succ (h : ReadsExprs stop n) :
    Reads stop (n + 1) (fun ws e => IsExpr ws e.unlocated) (exprReader stop) := by
  rw [exprReader_eq]
  refine .peek fun k => ?_
  split
  · exact h.block_succ.imp fun _ _ hb => .block hb
  · refine h.atom_succ.next (fun _ _ ha => ha.ne_nil) fun ws func hf => ?_
    exact (h.args func).imp fun us e he => he ws (.one hf)

theorem args_succ (h : ReadsExprs stop n) (func : Expr) :
    Reads stop (n + 1) (IsArgs func) (argsReader stop func) := by
  rw [argsReader_eq]
  refine .peek fun k => ?_
  split
  · refine h.atom_succ.next (fun _ _ ha => ha.ne_nil) fun us arg ha => ?_
    refine (h.args (applyTo func arg)).imp fun vs e he ws hws => ?_
    rw [← List.append_assoc]
    refine he _ ?_
    rw [unlocated_applyTo]
    exact .app hws ha
  split
  · refine h.block_succ.map fun us arg ha ws hws => ?_
    rw [unlocated_applyTo]
    exact .atomsBlock hws ha
  · refine .pure fun ws hws => ?_
    rw [List.append_nil]
    exact .atoms hws

end ReadsExprs

/-- The readers of expressions read the phrases of the grammar, from however many tokens. -/
theorem readsExprs (stop : Span) (n : Nat) : ReadsExprs stop n := by
  induction n with
  | zero => exact .zero
  | succ n ih => exact ⟨ih.expr_succ, ih.args_succ, ih.atom_succ, ih.elems_succ⟩

end PolyLet
