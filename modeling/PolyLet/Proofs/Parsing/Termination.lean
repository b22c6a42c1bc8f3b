import PolyLet.Proofs.Parsing.Descent
import PolyLet.Proofs.Parsing.FirstError

/-!
# The descent comes to an end

From every position of a token stream, every function of the descent comes to an end: with a phrase,
behind at least one token, or with an error. The position never moves back, and never past the last
token. The loops stop for whatever they have gathered before. So the descent is a total function,
and it is the one that the readers define by recursion on the number of tokens that are left.

## Main definitions

* `Descent.Halts x ks least`: the computation comes to an end from every position of the stream
* `Descent.Gives x pos ws phrase?`: from a position on, the computation gives a phrase of the tokens
  ahead

## Main results

* `Follows.halts`: what does what a reader does comes to an end
* `halts_commaLoop`: a loop over the values of a list stops
* `descent_terminates`: what is said above, for all functions and all streams
-/

namespace PolyLet

open Descent TokenStream

variable {α β : Type} {ks : TokenStream} {eof : Token} {pos m : Nat} {ws : List Token}

/-! ## Coming to an end -/

/-- From every position of the stream the computation comes to an end, at a position that is neither
before the first one nor behind the last token. If it succeeds, it has taken at least `least`
tokens. -/
def Descent.Halts (x : Descent α) (ks : TokenStream) (least : Nat) : Prop :=
  ∀ pos < ks.tokens.length, ∃ result pos', x.runAt pos = some (result, pos') ∧
    pos ≤ pos' ∧ pos' < ks.tokens.length ∧ ∀ v, result = .ok v → pos + least ≤ pos'

theorem Follows.halts {x : Descent α} {r : Token → Reader α}
    (h : ∀ eof n, Follows ks eof (fun _ => True) (n + 1) m x (r eof)) : x.Halts ks m := by
  intro pos hpos
  obtain ⟨eof, ws, hahead⟩ := ks.exists_ahead hpos
  have hlt := hahead.lt_length
  cases h eof ws.length pos ws hahead (Nat.lt_succ_self _) trivial with
  | error used rest hr hx =>
    rw [List.length_append] at hlt
    exact ⟨_, _, hx, Nat.le_add_right _ _, by omega, nofun⟩
  | ok used rest hr hx hm =>
    rw [List.length_append] at hlt
    exact ⟨_, _, hx, Nat.le_add_right _ _, by omega, fun _ _ => Nat.add_le_add_left hm pos⟩

namespace Descent.Halts

variable {x : Descent α} {f : α → Descent β}

theorem pure (v : α) : Halts (Pure.pure v) ks 0 :=
  fun pos hpos => ⟨_, pos, rfl, Nat.le_refl pos, hpos, fun _ _ => Nat.le_refl pos⟩

theorem fail (wanted : Wanted) : Halts (ks.fail wanted : Descent α) ks m :=
  fun pos hpos => ⟨_, pos, rfl, Nat.le_refl pos, hpos, nofun⟩

theorem bind (hx : x.Halts ks m) (hf : ∀ v, (f v).Halts ks 0) : (x >>= f).Halts ks m := by
  intro pos hpos
  obtain ⟨result, pos₁, hx, hle, hlt, hok⟩ := hx pos hpos
  cases result with
  | error e => exact ⟨_, pos₁, runAt_bind_of_error hx, hle, hlt, nofun⟩
  | ok v =>
    obtain ⟨result', pos₂, hf, hle', hlt', -⟩ := hf v pos₁ hlt
    have hleast := hok v rfl
    exact ⟨_, pos₂, (runAt_bind_of_ok hx).trans hf, by omega, hlt', fun _ _ => by omega⟩

theorem current {f : Token → Descent α} (h : ∀ t, (f t).Halts ks m) :
    (ks.current >>= f).Halts ks m :=
  fun pos hpos => h (ks.tokenAt pos) pos hpos

theorem ite {c : Prop} [Decidable c] {y : Descent α} (hx : x.Halts ks m) (hy : y.Halts ks m) :
    Halts (if c then x else y) ks m := by
  split
  next => exact hx
  next => exact hy

end Descent.Halts

/-- There is a token behind every one that is not the end of the input. -/
theorem TokenStream.succ_lt_length (hpos : pos < ks.tokens.length)
    (h : (ks.tokenAt pos).kind ≠ .endOfInput) : pos + 1 < ks.tokens.length := by
  obtain ⟨eof, ws, hahead⟩ := ks.exists_ahead hpos
  cases ws with
  | nil => exact absurd hahead.kind_tokenAt h
  | cons t ws =>
    have hlt := hahead.lt_length
    rw [List.length_cons] at hlt
    omega

theorem halts_advance (ks : TokenStream) : ks.advance.Halts ks 0 := by
  intro pos hpos
  by_cases h : (ks.tokenAt pos).kind = .endOfInput
  · refine ⟨.ok (ks.tokenAt pos), pos, ?_, Nat.le_refl pos, hpos, fun _ _ => Nat.le_refl pos⟩
    rw [advance, runAt_bind_of_ok rfl, if_neg (not_not_intro h)]
    rfl
  · exact ⟨_, pos + 1, runAt_advance h, Nat.le_succ pos, ks.succ_lt_length hpos h,
      fun _ _ => Nat.le_succ pos⟩

theorem halts_expect (ks : TokenStream) (wanted : Wanted) (kind : TokenKind) :
    (ks.expect wanted kind).Halts ks 0 :=
  .current fun _ => .ite (halts_advance ks) (.fail wanted)

theorem halts_eat (ks : TokenStream) (kind : TokenKind) : (ks.eat kind).Halts ks 0 :=
  .current fun _ => .ite ((halts_advance ks).bind fun _ => .pure true) (.pure false)

/-- **A loop over the values of a list stops,** as a round that goes on has taken a comma and a
value. -/
theorem halts_commaLoop {item : Descent β} {value : β → α} {loop : List α → Descent (List α)}
    (hloop : ∀ vs, loop vs = (do
      if ← ks.eat .comma then
        let v ← item
        loop (vs ++ [value v])
      else
        return vs))
    (hitem : item.Halts ks 1) (vs : List α) : (loop vs).Halts ks 0 := by
  intro pos hpos
  -- on the tokens from the position on, for whatever has been gathered before
  induction hleft : ks.tokens.length - pos using Nat.strong_induction_on generalizing pos vs with
  | _ left ih =>
    rw [hloop, eat_bind, runAt_bind_of_ok rfl]
    by_cases hcomma : (ks.tokenAt pos).kind = .comma
    · have hne : (ks.tokenAt pos).kind ≠ .endOfInput := by
        rw [hcomma]
        decide
      rw [if_pos hcomma, runAt_bind_of_ok (runAt_advance hne), if_pos rfl]
      obtain ⟨result, pos₁, hrun, hle, hlt, hok⟩ := hitem _ (ks.succ_lt_length hpos hne)
      cases result with
      | error e => exact ⟨_, pos₁, runAt_bind_of_error hrun, by omega, hlt, nofun⟩
      | ok v =>
        obtain ⟨result', pos₂, hrun', hle', hlt', -⟩ :=
          ih (ks.tokens.length - pos₁) (by omega) (vs ++ [value v]) pos₁ hlt rfl
        rw [runAt_bind_of_ok hrun]
        exact ⟨_, pos₂, hrun', by omega, hlt', fun _ _ => by omega⟩
    · rw [if_neg hcomma]
      exact Halts.pure vs pos hpos

/-! ## Giving what the readers give -/

/-- From the position on, the computation gives the phrase at the front of the tokens ahead, or the
error if there is none, and takes the tokens of the phrase. -/
def Descent.Gives {n : Nat} (x : Descent α) (pos : Nat) (ws : List Token)
    (phrase? : Except SyntaxError (Phrase n α)) : Prop :=
  ∃ pos', x.runAt pos = some (phrase?.map Phrase.value, pos') ∧
    ∀ phrase, phrase? = .ok phrase → pos' + phrase.rest.length = pos + ws.length

theorem Agrees.gives {n : Nat} {x : Descent α} {r : Reader α}
    {phrase? : Except SyntaxError (Phrase n α)} (h : Agrees x r m pos ws)
    (hr : r ws = outcome phrase?) : x.Gives pos ws phrase? := by
  cases h with
  | error used rest hr' hx =>
    rw [hr] at hr'
    cases phrase? with
    | ok phrase => cases hr'
    | error e =>
      obtain rfl := Except.error.inj hr'
      exact ⟨_, hx, nofun⟩
  | ok used rest hr' hx hm =>
    rw [hr] at hr'
    cases phrase? with
    | error e => cases hr'
    | ok phrase =>
      obtain ⟨rfl, rfl⟩ := Prod.mk.inj (Except.ok.inj hr')
      refine ⟨_, hx, fun phrase' hphrase => ?_⟩
      obtain rfl := Except.ok.inj hphrase
      rw [List.length_append, Nat.add_assoc]

/-- A program is read up to the end of the input. -/
theorem runAt_program (h : Ahead ks eof pos ws) :
    ∃ pos', ks.program.runAt pos = some (parseTokens eof.span ws, pos') ∧
      ∀ e, parseTokens eof.span ws = .ok e → pos' = pos + ws.length := by
  rw [parseTokens_eq]
  cases follows_expr ks eof (ws.length + 1) pos ws h (Nat.lt_succ_self _) trivial with
  | error used rest hr hx =>
    rw [hr]
    exact ⟨_, runAt_bind_of_error hx, nofun⟩
  | ok used rest hr hx hm =>
    have hrest := h.drop
    refine ⟨pos + used.length, ?_⟩
    rw [hr, program, runAt_bind_of_ok hx, runAt_bind_of_ok rfl, hrest.kind_tokenAt]
    cases rest with
    | nil => exact ⟨rfl, fun _ _ => by rw [List.append_nil]⟩
    | cons t rest =>
      -- the error names the token where the end of the input is wanted
      refine ⟨?_, nofun⟩
      show _ = some (Except.error (unexpectedAt eof.span (.token .endOfInput) (t :: rest)), _)
      rw [headKind_cons, if_pos (hrest.kind_ne t List.mem_cons_self), hrest.unexpectedAt_eq]
      rfl

/-- The significant tokens of a source are ahead of the first position. -/
theorem ahead_of_lex {source : String} {tokens : List Token} (h : lex source = .ok tokens) :
    Ahead (.ofTokens (.point source.utf8ByteSize) tokens) (endToken source.utf8ByteSize) 0
      (significant tokens) := by
  have hkept := filter_eq_significant_append h
  have htokens : (TokenStream.ofTokens (.point source.utf8ByteSize) tokens).tokens =
      significant tokens ++ [endToken source.utf8ByteSize] := by
    rw [TokenStream.tokens_ofTokens (by rw [hkept, List.getLast?_concat]; rfl), hkept]
  refine ⟨⟨[], htokens⟩, fun t ht => ?_, rfl⟩
  simp only [significant, List.mem_filter, Bool.and_eq_true, decide_eq_true_eq] at ht
  exact ht.2.2

/-! ## The main result -/

/-- **The descent terminates and never runs off its tokens.** In any stream of tokens, every
function for a phrase comes to an end from every position, and has moved the position forward if it
succeeds. The loops over parameters, over the elements of patterns and of tuples, and over arguments
stop, with whatever they have gathered before. Neither they nor the functions that take single
tokens move back or past the last token. What they compute is what the readers compute by recursion
on the number of tokens, from the tokens up to the next end of the input. In particular, descent
through the tokens of a source parses it, and comes to the last token if it succeeds. -/
theorem descent_terminates (ks : TokenStream) :
    0 < ks.tokens.length ∧
    (∀ x ∈ [ks.program, ks.expr, ks.function, ks.letIn, ks.conditional, ks.application, ks.atom,
      ks.parens], x.Halts ks 1) ∧
    ks.pattern.Halts ks 1 ∧ ks.binder.Halts ks 1 ∧
    (∀ ps, (ks.paramLoop ps).Halts ks 0) ∧ (∀ ps, (ks.patternLoop ps).Halts ks 0) ∧
    (∀ es, (ks.elemLoop es).Halts ks 0) ∧ (∀ func, (ks.argLoop func).Halts ks 0) ∧
    ks.advance.Halts ks 0 ∧ (∀ kind, (ks.eat kind).Halts ks 0) ∧
    (∀ wanted kind, (ks.expect wanted kind).Halts ks 0) ∧
    (∀ pos < ks.tokens.length, ∃ eof ws, Ahead ks eof pos ws ∧
      ks.expr.Gives pos ws (readExpr eof.span ws) ∧
      (∀ func, (ks.argLoop func).Gives pos ws (readArgs eof.span func ws)) ∧
      ks.atom.Gives pos ws (readAtom eof.span ws) ∧
      ks.pattern.Gives pos ws (readPattern eof.span ws) ∧
      ks.binder.Gives pos ws (readBinder eof.span ws)) ∧
    ∀ source tokens, lex source = .ok tokens →
      ∃ pos', (program (.ofTokens (.point source.utf8ByteSize) tokens)).runAt 0 =
          some (parse source, pos') ∧
        ∀ e, parse source = .ok e → pos' = (significant tokens).length := by
  have hexpr : ks.expr.Halts ks 1 := Follows.halts fun eof n => follows_expr ks eof (n + 1)
  have hpattern : ks.pattern.Halts ks 1 :=
    Follows.halts fun eof n => follows_pattern ks eof (n + 1)
  refine ⟨?_, ?_, hpattern, Follows.halts fun eof n => follows_binder ks eof (n + 1),
    fun ps => Follows.halts fun eof n => follows_paramLoop ks eof (n + 1) ps,
    halts_commaLoop (patternLoop.eq_1 ks) hpattern, halts_commaLoop (elemLoop.eq_1 ks) hexpr,
    fun func => Follows.halts fun eof n => follows_argLoop (follows_expr ks eof (n + 1)) func,
    halts_advance ks, halts_eat ks, halts_expect ks, fun pos hpos => ?_, fun source tokens h => ?_⟩
  · refine List.length_pos_iff.mpr fun hnil => ?_
    have hends := ks.ends
    rw [hnil] at hends
    cases hends
  · intro x hx
    simp only [List.mem_cons, List.not_mem_nil, or_false] at hx
    rcases hx with rfl | rfl | rfl | rfl | rfl | rfl | rfl | rfl
    · exact hexpr.bind fun e => .current fun t => .ite (.fail _) (.pure e)
    · exact hexpr
    · exact Follows.halts fun eof n => follows_function (follows_expr ks eof n)
    · exact Follows.halts fun eof n => follows_letIn (follows_expr ks eof n)
    · exact Follows.halts fun eof n => follows_conditional (follows_expr ks eof n)
    · exact Follows.halts fun eof n => follows_application (follows_expr ks eof n)
    · exact Follows.halts fun eof n => follows_atom (follows_expr ks eof n)
    · exact Follows.halts fun eof n => follows_parens (follows_expr ks eof n)
  · obtain ⟨eof, ws, hahead⟩ := ks.exists_ahead hpos
    have hlt := Nat.lt_succ_self ws.length
    have hread := follows_expr ks eof (ws.length + 1)
    refine ⟨eof, ws, hahead, ?_, fun func => ?_, ?_, ?_, ?_⟩
    · exact (hread pos ws hahead hlt trivial).gives rfl
    · exact (follows_argLoop hread func pos ws hahead hlt trivial).gives rfl
    · exact (follows_atom (follows_expr ks eof ws.length) pos ws hahead hlt trivial).gives rfl
    · exact (follows_pattern ks eof (ws.length + 1) pos ws hahead hlt trivial).gives rfl
    · exact (follows_binder ks eof (ws.length + 1) pos ws hahead hlt trivial).gives rfl
  · rw [parse_of_lex h, ← Nat.zero_add (significant tokens).length]
    exact runAt_program (ahead_of_lex h)

/-- The tokens of `fn x` run out where an arrow has to follow, and the descent fails without going
past the end of the input. -/
theorem descent_terminates_unfinished :
    lex "fn x" = .ok [⟨.kwFn, "fn", ⟨0, 2⟩⟩, ⟨.name, "x", ⟨3, 4⟩⟩, endToken 4] ∧
    ∃ pos' < 3, (program (.ofTokens (.point 4)
        [⟨.kwFn, "fn", ⟨0, 2⟩⟩, ⟨.name, "x", ⟨3, 4⟩⟩, endToken 4])).runAt 0 =
      some (.error (.unexpected (.token .arrow) .endOfInput (.point 4)), pos') := by
  have hlex : lex "fn x" = .ok [⟨.kwFn, "fn", ⟨0, 2⟩⟩, ⟨.name, "x", ⟨3, 4⟩⟩, endToken 4] := by
    have hspace : ∀ b ∈ [' '], isBlank b = true := List.forall_mem_singleton.mpr rfl
    rw [lex_eq_ok_iff]
    exact @Lexes.token 0 [] 'f' _ _ _ (List.forall_mem_nil _) rfl <|
      @Lexes.token 2 [' '] 'x' _ _ _ hspace rfl <| Lexes.done (List.forall_mem_nil _)
  have hparse : parse "fn x" = .error (.unexpected (.token .arrow) .endOfInput (.point 4)) := by
    rw [parse_of_lex hlex, parseTokens_eq]
    show (exprReader _ [_, _] >>= _) = _
    rw [exprReader_eq, blockReader, patternReader_eq]
    rfl
  obtain ⟨hpos, hphrases, -, -, -, -, -, -, -, -, -, -, hsource⟩ :=
    descent_terminates
      (.ofTokens (.point 4) [⟨.kwFn, "fn", ⟨0, 2⟩⟩, ⟨.name, "x", ⟨3, 4⟩⟩, endToken 4])
  obtain ⟨pos₁, hrun, -⟩ := hsource "fn x" _ hlex
  obtain ⟨result, pos₂, hrun', -, hlt, -⟩ := hphrases _ List.mem_cons_self 0 hpos
  obtain ⟨rfl, rfl⟩ := Prod.mk.inj (Option.some.inj (hrun.symm.trans hrun'))
  rw [hparse] at hrun
  exact ⟨hlex, pos₁, hlt, hrun⟩

end PolyLet
