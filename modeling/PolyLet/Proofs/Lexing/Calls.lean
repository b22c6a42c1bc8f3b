import PolyLet.Proofs.Lexing.Separation

/-!
# The lexer, call by call

A lexer is asked for one token after the other, and it may be left at any moment. Whenever that is,
the errors that it has recorded are those of the invalid tokens that it has handed out, one for each
and in the same order. It hands out the end of the input once and nothing from then on, so the tokens
of a source are what any number of calls that is large enough gives, and the first error of a source
is the one that is recorded with its first invalid token.

## Main definitions

* `Lexer.calls k l`: the answers to `k` calls of a lexer, and the lexer after them
* `handedOut answers`: the tokens among the answers
* `Records l answers l'`: what a lexer has recorded while it gave the answers

## Main results

* `Lexer.next_records`, `Lexer.calls_records`: one call and any number of calls record the errors of
  the invalid tokens
* `Lexer.calls_readAll`: calls up to the end of the input, and behind it
* `calls_track_errors`: what is said above, for every source
-/

namespace PolyLet

/-! ## What one call records -/

/-- The tokens among the answers of a lexer. -/
def handedOut (answers : List (Option Token)) : List Token :=
  answers.filterMap id

/-- The invalid tokens of a list. -/
def invalidTokens (ts : List Token) : List Token :=
  ts.filter (·.kind = .invalid)

/-- Between `l` and `l'`, the errors of the invalid tokens among the answers were recorded, behind
those that were there, in the order of the tokens and at their spans. -/
def Records (l : Lexer) (answers : List (Option Token)) (l' : Lexer) : Prop :=
  ∃ recorded, l'.errors = l.errors ++ recorded ∧
    recorded.map LexError.span = (invalidTokens (handedOut answers)).map Token.span

theorem Records.refl (l : Lexer) : Records l [] l :=
  ⟨[], (List.append_nil _).symm, rfl⟩

theorem Records.trans {l l' l'' : Lexer} {as bs : List (Option Token)} (h : Records l as l')
    (h' : Records l' bs l'') : Records l (as ++ bs) l'' := by
  obtain ⟨es, hes, hspans⟩ := h
  obtain ⟨fs, hfs, hspans'⟩ := h'
  refine ⟨es ++ fs, by rw [hfs, hes, List.append_assoc], ?_⟩
  rw [List.map_append, hspans, hspans', ← List.map_append]
  simp only [handedOut, invalidTokens, List.filterMap_append, List.filter_append]

/-- The error of a token that was scanned is at its place, and only an invalid token has one. -/
theorem span_errorsAt (start : Nat) (c : Char) (cs : List Char) :
    ((scan c cs).errorsAt start).map LexError.span =
      (invalidTokens [(scan c cs).tokenAt start]).map Token.span := by
  by_cases hinvalid : (scan c cs).kind = .invalid
  · obtain ⟨fault, hfault⟩ := scan_kind_eq_invalid_iff.mp hinvalid
    have hkept : invalidTokens [(scan c cs).tokenAt start] = [(scan c cs).tokenAt start] :=
      List.filter_cons_of_pos (decide_eq_true hinvalid)
    rw [Scanned.errorsAt_of_fault hfault, hkept]
    rfl
  · have hnone : (scan c cs).fault? = none := Option.eq_none_iff_forall_ne_some.mpr
      fun fault hfault => hinvalid (scan_kind_eq_invalid_iff.mpr ⟨fault, hfault⟩)
    have hdropped : invalidTokens [(scan c cs).tokenAt start] = [] :=
      List.filter_cons_of_neg fun h => hinvalid (of_decide_eq_true h)
    rw [Scanned.errorsAt_eq_nil_iff.mpr hnone, hdropped]
    rfl

namespace Lexer

theorem next_of_finished {l : Lexer} (h : l.finished = true) : l.next = (none, l) := by
  rw [next, if_pos h]

/-- **One call** records the error of the token that it answers, if that is invalid. -/
theorem next_records (l : Lexer) : Records l [l.next.1] l.next.2 := by
  obtain ⟨start, text, errors, _ | _⟩ := l
  · rcases blanks_or_token text with hb | ⟨blanks, c, cs, rfl, hb, hc⟩
    · rw [next_blanks hb]
      exact ⟨[], (List.append_nil _).symm, rfl⟩
    · rw [next_token hb hc]
      exact ⟨_, rfl, span_errorsAt _ c cs⟩
  · rw [next_of_finished rfl]
    exact ⟨[], (List.append_nil _).symm, rfl⟩

theorem finished_of_next {l l' : Lexer} (h : l.next = (none, l')) : l.finished = true := by
  obtain ⟨start, text, errors, _ | _⟩ := l
  · rcases blanks_or_token text with hb | ⟨blanks, c, cs, rfl, hb, hc⟩
    · rw [next_blanks hb] at h
      cases h
    · rw [next_token hb hc] at h
      cases h
  · rfl

/-! ## Any number of calls -/

/-- The answers to the first `k` calls, and the lexer after them. -/
def calls : Nat → Lexer → List (Option Token) × Lexer
  | 0, l => ([], l)
  | k + 1, l =>
    let (answer, l') := l.next
    let (answers, last) := calls k l'
    (answer :: answers, last)

variable {l l' : Lexer}

theorem calls_succ {answer : Option Token} (h : l.next = (answer, l')) (k : Nat) :
    l.calls (k + 1) = (answer :: (l'.calls k).1, (l'.calls k).2) := by
  rw [calls, h]

theorem length_calls (k : Nat) (l : Lexer) : (l.calls k).1.length = k := by
  induction k generalizing l with
  | zero => rfl
  | succ k ih => rw [calls_succ rfl, List.length_cons, ih]

theorem calls_add (j k : Nat) (l : Lexer) : l.calls (j + k) =
    ((l.calls j).1 ++ ((l.calls j).2.calls k).1, ((l.calls j).2.calls k).2) := by
  induction j generalizing l with
  | zero => rw [Nat.zero_add]; rfl
  | succ j ih => rw [Nat.add_right_comm, calls_succ rfl, calls_succ rfl, ih, List.cons_append]

/-- **Any number of calls** records the errors of the invalid tokens among the answers. -/
theorem calls_records (k : Nat) (l : Lexer) : Records l (l.calls k).1 (l.calls k).2 := by
  induction k generalizing l with
  | zero => exact .refl l
  | succ k ih =>
    rw [calls_succ rfl]
    exact l.next_records.trans (ih l.next.2)

theorem calls_of_finished (h : l.finished = true) (k : Nat) :
    l.calls k = (List.replicate k none, l) := by
  induction k with
  | zero => rfl
  | succ k ih => rw [calls_succ (next_of_finished h), ih, List.replicate_succ]

/-- **Calls up to the end of the input, and behind it.** The tokens that are left are handed out, and
after them nothing is. -/
theorem calls_readAll (l : Lexer) (k : Nat) : l.calls (l.readAll.1.length + k) =
    (l.readAll.1.map some ++ List.replicate k none, l.readAll.2) := by
  cases hnext : l.next with
  | mk answer l' =>
    cases answer with
    | none =>
      have hfinished := finished_of_next hnext
      rw [readAll_of_finished hfinished, List.length_nil, Nat.zero_add, calls_of_finished hfinished]
      rfl
    | some t =>
      have := pending_next hnext
      rw [readAll_of_next hnext, List.length_cons, Nat.add_right_comm, calls_succ hnext,
        calls_readAll l' k, List.map_cons, List.cons_append]
termination_by l.pending

theorem fst_calls (l : Lexer) (k : Nat) :
    (l.calls k).1 = (l.readAll.1.map some ++ List.replicate k none).take k := by
  have hadd := calls_add k l.readAll.1.length l
  rw [Nat.add_comm, calls_readAll] at hadd
  rw [(Prod.mk.inj hadd).1, List.take_left' (length_calls k l)]

end Lexer

/-! ## Whole sources -/

variable {source : String} {t : Token}

/-- The errors that are recorded after some calls are the first ones of the source. -/
theorem errors_calls_prefix (source : String) (k : Nat) :
    ((Lexer.ofSource source).calls k).2.errors <+: (tokenize source).2 := by
  -- with the calls up to the end of the input, the lexer has recorded all errors
  have hadd := Lexer.calls_add k (Lexer.ofSource source).readAll.1.length (Lexer.ofSource source)
  rw [Nat.add_comm, Lexer.calls_readAll] at hadd
  obtain ⟨recorded, herrors, -⟩ := Lexer.calls_records (Lexer.ofSource source).readAll.1.length
    ((Lexer.ofSource source).calls k).2
  rw [← (Prod.mk.inj hadd).2] at herrors
  exact ⟨recorded, herrors.symm⟩

/-- The errors that are recorded after some calls are those of the invalid tokens so far. -/
theorem errors_calls (source : String) (k : Nat) :
    ((Lexer.ofSource source).calls k).2.errors.map LexError.span =
      (invalidTokens (handedOut ((Lexer.ofSource source).calls k).1)).map Token.span := by
  obtain ⟨recorded, herrors, hspans⟩ := (Lexer.ofSource source).calls_records k
  rw [herrors, ← hspans]
  rfl

theorem handedOut_map_some (ts : List Token) : handedOut (ts.map some) = ts := by
  rw [handedOut, List.filterMap_map]
  exact List.filterMap_some

/-- The errors of a source are those of its invalid tokens. -/
theorem errors_tokenize (source : String) : (tokenize source).2.map LexError.span =
    (invalidTokens (tokenize source).1).map Token.span := by
  have herrors := errors_calls source ((Lexer.ofSource source).readAll.1.length + 0)
  rw [Lexer.calls_readAll, List.replicate_zero, List.append_nil, handedOut_map_some] at herrors
  exact herrors

theorem lex_of_valid (h : ∀ t ∈ (tokenize source).1, t.kind ≠ .invalid) :
    lex source = .ok (tokenize source).1 := by
  have hnone : invalidTokens (tokenize source).1 = [] :=
    List.filter_eq_nil_iff.mpr fun t ht hinvalid => h t ht (of_decide_eq_true hinvalid)
  have herrors := errors_tokenize source
  rw [hnone, List.map_nil, List.map_eq_nil_iff] at herrors
  rw [lex_eq_ok_iff, ← herrors]
  exact tokenize_lexes source

/-- A source with an invalid token has an error at the first one, and is refused with it. -/
theorem exists_lex_error (h : (tokenize source).1.find? (·.kind = .invalid) = some t) :
    ∃ error, lex source = .error error ∧ error.span = t.span ∧
      (tokenize source).2.head? = some error := by
  have hspan := congrArg List.head? (errors_tokenize source)
  rw [List.head?_map, List.head?_map, invalidTokens, List.head?_filter, h, Option.map_some,
    Option.map_eq_some_iff] at hspan
  obtain ⟨error, hhead, hspan⟩ := hspan
  obtain ⟨errors, herrors⟩ := List.head?_eq_some_iff.mp hhead
  refine ⟨error, ?_, hspan, hhead⟩
  rw [lex, ← Prod.eta (tokenize source), herrors]

/-- **Errors are recorded call by call.** After any number of calls of a lexer on a source, the errors
that it has recorded are those of the invalid tokens that it has handed out, in the same order and at
the same spans. It hands out the tokens of the source, of which the last and no other is the end of
the input, and nothing from then on. The source is read without error if none of its tokens is
invalid. Otherwise it is refused with an error at the first invalid token, which is the first one
that is recorded, from the call on that hands out that token. -/
theorem calls_track_errors (source : String) :
    (∀ k, ((Lexer.ofSource source).calls k).2.errors.map LexError.span =
      (invalidTokens (handedOut ((Lexer.ofSource source).calls k).1)).map Token.span) ∧
    (∃ words : List Token,
      (tokenize source).1 = words ++ [⟨.endOfInput, "", .point source.utf8ByteSize⟩] ∧
      ∀ t ∈ words, t.kind ≠ .endOfInput) ∧
    (∀ k, ((Lexer.ofSource source).calls k).1 =
      ((tokenize source).1.map some ++ List.replicate k none).take k) ∧
    ((∀ t ∈ (tokenize source).1, t.kind ≠ .invalid) → lex source = .ok (tokenize source).1) ∧
    ∀ t, (tokenize source).1.find? (·.kind = .invalid) = some t →
      ∃ error, lex source = .error error ∧ error.span = t.span ∧
        ∀ k, some t ∈ ((Lexer.ofSource source).calls k).1 →
          ((Lexer.ofSource source).calls k).2.errors.head? = some error := by
  refine ⟨errors_calls source, ?_, (Lexer.ofSource source).fst_calls, lex_of_valid, fun t ht => ?_⟩
  · obtain ⟨words, hwords, hkind⟩ := (tokenize_lexes source).exists_words
    rw [byteLength_toList, Nat.zero_add] at hwords
    exact ⟨words, hwords, fun t ht => (hkind t ht).1⟩
  · obtain ⟨error, hlex, hspan, hhead⟩ := exists_lex_error ht
    refine ⟨error, hlex, hspan, fun k hk => ?_⟩
    -- an error has been recorded with the token, so the first one of the source is there
    have hinvalid := List.find?_some (p := fun t : Token => decide (t.kind = .invalid)) ht
    have hmem : t ∈ invalidTokens (handedOut ((Lexer.ofSource source).calls k).1) :=
      List.mem_filter.mpr ⟨List.mem_filterMap.mpr ⟨some t, hk, rfl⟩, hinvalid⟩
    have herrors := errors_calls source k
    obtain ⟨later, hall⟩ := errors_calls_prefix source k
    cases hfirst : ((Lexer.ofSource source).calls k).2.errors with
    | nil =>
      rw [hfirst, List.map_nil, eq_comm, List.map_eq_nil_iff] at herrors
      rw [herrors] at hmem
      cases hmem
    | cons first errors =>
      rw [← hall, hfirst] at hhead
      exact hhead

/-- The second call on `x -` records the error, while `x` alone is read without one. -/
theorem calls_track_errors_dash :
    (∀ t ∈ (tokenize "x").1, t.kind ≠ .invalid) ∧
    lex "x" = .ok [⟨.name, "x", ⟨0, 1⟩⟩, endToken 1] ∧
    (tokenize "x -").1.find? (·.kind = .invalid) = some ⟨.invalid, "-", ⟨2, 3⟩⟩ ∧
    some ⟨.invalid, "-", ⟨2, 3⟩⟩ ∈ ((Lexer.ofSource "x -").calls 2).1 ∧
    ∃ error, lex "x -" = .error error ∧ error.span = ⟨2, 3⟩ ∧
      ((Lexer.ofSource "x -").calls 2).2.errors.head? = some error := by
  have hword : tokenize "x" = ([⟨.name, "x", ⟨0, 1⟩⟩, endToken 1], []) := by
    rw [tokenize_eq_iff]
    exact @Lexes.token 0 [] 'x' _ _ _ (List.forall_mem_nil _) rfl <| .done (List.forall_mem_nil _)
  have hdash : tokenize "x -" =
      ([⟨.name, "x", ⟨0, 1⟩⟩, ⟨.invalid, "-", ⟨2, 3⟩⟩, endToken 3],
        [⟨.unexpectedCharacter '-', ⟨2, 3⟩⟩]) := by
    have hspace : ∀ b ∈ [' '], isBlank b = true := List.forall_mem_singleton.mpr rfl
    rw [tokenize_eq_iff]
    exact @Lexes.token 0 [] 'x' _ _ _ (List.forall_mem_nil _) rfl <|
      @Lexes.token 1 [' '] '-' _ _ _ hspace rfl <| .done (List.forall_mem_nil _)
  have hvalid : ∀ t ∈ (tokenize "x").1, t.kind ≠ .invalid := by
    rw [hword]
    simp [endToken]
  have hfirst : (tokenize "x -").1.find? (·.kind = .invalid) = some ⟨.invalid, "-", ⟨2, 3⟩⟩ := by
    rw [hdash]
    rfl
  have hlex := (calls_track_errors "x").2.2.2.1 hvalid
  rw [hword] at hlex
  have hanswers := (calls_track_errors "x -").2.2.1 2
  rw [hdash] at hanswers
  have hmem : some ⟨.invalid, "-", ⟨2, 3⟩⟩ ∈ ((Lexer.ofSource "x -").calls 2).1 := by
    rw [hanswers]
    exact List.mem_cons_of_mem _ List.mem_cons_self
  obtain ⟨error, herror, hspan, hcalls⟩ := (calls_track_errors "x -").2.2.2.2 _ hfirst
  exact ⟨hvalid, hlex, hfirst, hmem, error, herror, hspan, hcalls 2 hmem⟩

end PolyLet
