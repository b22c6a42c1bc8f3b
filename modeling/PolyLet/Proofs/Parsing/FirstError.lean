import PolyLet.Proofs.Lexing.Tiling
import PolyLet.Proofs.Parsing.Acceptance

/-!
# Errors are at the first impossible token

A syntax error stands at the first token with which the source can no longer become a program. The
tokens before it begin one, and can be completed by tokens that a source may contain. With the token
of the error no program begins, however it is continued; and if the error is at the end of the input,
then the source is not a program as it stands.

## Main results

* `parseTokens_error`: where parsing fails, and that it fails with all other continuations too
* `filter_eq_significant_append`: the end of the input comes behind the significant tokens
* `parse_error_at_first_impossible`: the place of an error
-/

namespace PolyLet

variable {stop : Span}

/-- Parsing fails behind tokens that begin an expression. With another rest it fails again, if the
rest starts with a token of the same kind. -/
theorem parseTokens_error {ts : List Token} (hend : ∀ t ∈ ts, t.kind ≠ .endOfInput)
    {error : SyntaxError} (h : parseTokens stop ts = .error error) :
    ∃ ks rest wanted, ts = ks ++ rest ∧ error = unexpectedAt stop wanted rest ∧
      Begins IsExpr (words ks) ∧
      ∀ rest', headKind rest' = headKind rest → ∀ e, parseTokens stop (ks ++ rest') ≠ .ok e := by
  have reads := (readsExprs stop (ts.length + 1)).expr
  rcases parseTokens_error_cases h with hread | ⟨e, t, rest, hread, rfl⟩
  · obtain ⟨ks, rest, wanted, hts, herror, ⟨post, e, hpost, he⟩, again⟩ :=
      reads.error ts error (Nat.lt_succ_self _) hread
    refine ⟨ks, rest, wanted, hts, herror, ⟨post, e.unlocated, hpost, he⟩, fun rest' hk e he => ?_⟩
    exact absurd ((again rest' hk).symm.trans (parseTokens_eq_ok_iff.mp he)) nofun
  · obtain ⟨ks, rfl, he, again⟩ := reads.ok ts e (t :: rest) (Nat.lt_succ_self _) hread
    refine ⟨ks, t :: rest, _, rfl, rfl, .of_phrase he, fun rest' hk e' he' => ?_⟩
    -- the same expression is read again, and again there is a token behind it
    have hrest : rest' = [] :=
      (Prod.mk.inj (Except.ok.inj ((again rest' hk).symm.trans (parseTokens_eq_ok_iff.mp he')))).2
    rw [hrest] at hk
    exact hend t (by simp) hk.symm

/-- If parsing fails behind `ks` whatever follows the kind of token that is there, then no program
begins with `ks` and that token. -/
theorem not_isProgram_of_parseTokens_ne {ks : List Token} {t : Token} {rest : List Token}
    (h : ∀ rest', headKind rest' = headKind (t :: rest) →
      ∀ e, parseTokens stop (ks ++ rest') ≠ .ok e) (post : List Word) :
    ¬IsProgram (words (ks ++ [t]) ++ post) := by
  rintro ⟨e, he⟩
  have hwords : words (ks ++ [t]) ++ post = words (ks ++ t :: post.map Word.toToken) := by
    simp
  rw [hwords] at he
  obtain ⟨e', he', -⟩ : ∃ e', parseTokens stop _ = .ok e' ∧ _ := exists_parseTokens_iff.mpr he
  exact h (t :: post.map Word.toToken) rfl e' he'

theorem unexpectedAt_span (ks rest : List Token) (wanted : Wanted) (n : Nat) :
    (((ks ++ rest) ++ [endToken n])[ks.length]?).map Token.span =
      some (unexpectedAt (.point n) wanted rest).span := by
  cases rest <;> simp [unexpectedAt, SyntaxError.span, endToken]

/-- The tokens of a source that are not comments are the significant ones and the end of the
input. -/
theorem filter_eq_significant_append {source : String} {tokens : List Token}
    (h : lex source = .ok tokens) :
    tokens.filter (fun t => !t.kind.isTrivia) =
      significant tokens ++ [endToken source.utf8ByteSize] := by
  obtain ⟨ws, rfl, hws⟩ := (lex_eq_ok_iff.mp h).exists_words
  have hlen : 0 + byteLength source.toList = source.utf8ByteSize := by
    rw [Nat.zero_add, ← utf8ByteSize_ofList, String.ofList_toList]
  have hsig : significant ws = ws.filter fun t => !t.kind.isTrivia :=
    List.filter_congr fun t ht => by simp [(hws t ht).1]
  rw [hlen, significant, List.filter_append, List.filter_append, ← hsig]
  simp [significant, endToken, TokenKind.isTrivia]

/-- **A syntax error is at the first impossible token.** The tokens before it can be extended to a
program, and together with it they cannot; where the error is at the end of the input, the source is
not a program as it is. -/
theorem parse_error_at_first_impossible {source : String} {tokens : List Token}
    {error : SyntaxError} (hlex : lex source = .ok tokens) (h : parse source = .error error) :
    ∃ i ≤ (significant tokens).length,
      ((tokens.filter fun t => !t.kind.isTrivia)[i]?).map Token.span = some error.span ∧
      (∃ post, (∀ w ∈ post, w.IsToken) ∧ IsProgram (words ((significant tokens).take i) ++ post)) ∧
      (i < (significant tokens).length →
        ∀ post, ¬IsProgram (words ((significant tokens).take (i + 1)) ++ post)) ∧
      (i = (significant tokens).length → ¬IsProgram (words (significant tokens))) := by
  have hend : ∀ t ∈ significant tokens, t.kind ≠ .endOfInput := by
    intro t ht
    simp only [significant, List.mem_filter, Bool.and_eq_true, decide_eq_true_eq] at ht
    exact ht.2.2
  rw [parse_of_lex hlex] at h
  obtain ⟨ks, rest, wanted, hts, rfl, ⟨post, e, hpost, he⟩, fails⟩ := parseTokens_error hend h
  rw [filter_eq_significant_append hlex, hts]
  refine ⟨ks.length, by simp, unexpectedAt_span ks rest wanted _, ?_, ?_, ?_⟩
  · rw [List.take_left]
    exact ⟨post, hpost, e, he⟩
  · -- the error is at a token, and no rest that starts with it is parsed
    intro hi
    cases rest with
    | nil => simp at hi
    | cons t rest =>
      rw [List.take_length_add_append]
      exact not_isProgram_of_parseTokens_ne fails
  · -- the error is at the end of the input
    rintro hi ⟨e', he'⟩
    obtain ⟨e'', he'', -⟩ := exists_parseTokens_iff.mpr he'
    exact fails rest rfl e'' he''

/-- In `fn x (` the parenthesis is impossible, as an arrow has to follow the pattern. -/
theorem parse_error_at_third_token :
    lex "fn x (" = .ok [⟨.kwFn, "fn", ⟨0, 2⟩⟩, ⟨.name, "x", ⟨3, 4⟩⟩, ⟨.openParen, "(", ⟨5, 6⟩⟩,
      endToken 6] ∧
    parse "fn x (" = .error (.unexpected (.token .arrow) .openParen ⟨5, 6⟩) ∧
    ∃ i ≤ 3,
      ([(⟨0, 2⟩ : Span), ⟨3, 4⟩, ⟨5, 6⟩, .point 6][i]?) = some ⟨5, 6⟩ ∧
      ∀ post, ¬IsProgram
        ([⟨.kwFn, "fn"⟩, ⟨.name, "x"⟩, (⟨.openParen, "("⟩ : Word)].take (i + 1) ++ post) := by
  have hlex : lex "fn x (" = .ok [⟨.kwFn, "fn", ⟨0, 2⟩⟩, ⟨.name, "x", ⟨3, 4⟩⟩,
      ⟨.openParen, "(", ⟨5, 6⟩⟩, endToken 6] := by
    have hspace : ∀ b ∈ [' '], isBlank b = true := List.forall_mem_singleton.mpr rfl
    rw [lex_eq_ok_iff]
    exact @Lexes.token 0 [] 'f' _ _ _ nofun rfl <| @Lexes.token 2 [' '] 'x' _ _ _ hspace rfl <|
      @Lexes.token 4 [' '] '(' _ _ _ hspace rfl <| Lexes.done nofun
  have hparse : parse "fn x (" = .error (.unexpected (.token .arrow) .openParen ⟨5, 6⟩) := by
    rw [parse_of_lex hlex, parseTokens_eq]
    show (exprReader _ [_, _, _] >>= _) = _
    rw [exprReader_eq, blockReader, patternReader_eq]
    rfl
  obtain ⟨i, hi, hspan, -, hlt, -⟩ := parse_error_at_first_impossible hlex hparse
  have hi3 : i ≤ 3 := hi
  have hspan' : ([(⟨0, 2⟩ : Span), ⟨3, 4⟩, ⟨5, 6⟩, .point 6][i]?) = some ⟨5, 6⟩ := by
    rw [← List.getElem?_map] at hspan
    exact hspan
  have hne : i ≠ 3 := by
    rintro rfl
    cases hspan'
  refine ⟨hlex, hparse, i, hi3, hspan', fun post hprog => ?_⟩
  refine hlt (Nat.lt_of_le_of_ne hi hne) post ?_
  rw [words, List.map_take]
  exact hprog

end PolyLet
