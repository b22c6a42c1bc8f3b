import Mathlib.Data.List.Infix
import Mathlib.Tactic.SplitIfs
import PolyLet.Proofs.Lexing.Tiling
import PolyLet.Proofs.Parsing.Grammar

/-!
# Excerpts of a source

A piece of a source that starts where a token starts and ends where a token ends is read into the
same words as it is within the source. What comes in front of it has no effect on how it is read, as
every token is read from its own start. What comes behind it has none either: a token that ends
before the end of the piece was ended by a character of the piece, and one that ends with the piece
is ended by the end of the text as well.

## Main definitions

* `Covers ks s`: the span `s` reaches from the first to the last of the tokens `ks`

## Main results

* `scan_of_append`: a token is scanned again if the text is cut off behind it
* `Lexes.drop`, `Lexes.take`: the run on the end and on the beginning of a text
* `exists_lex_excerpt`: the text at the span of some significant tokens is read into their words
-/

namespace PolyLet

/-! ## One token -/

/-- What is left behind a run of characters of one class is left behind it in the shorter text. -/
theorem takeWhile_of_append {p : Char → Bool} {cs rest post : List Char}
    (h : (cs ++ post).dropWhile p = rest ++ post) :
    cs.takeWhile p = (cs ++ post).takeWhile p ∧ cs.dropWhile p = rest := by
  have hcs : cs = (cs ++ post).takeWhile p ++ rest := by
    refine (List.append_left_inj post).mp ?_
    rw [List.append_assoc, ← h, List.takeWhile_append_dropWhile]
  -- the run ended in front of `rest` already
  have hhead : rest.head?.any p = false := by
    have hnot := List.head?_dropWhile_not p (cs ++ post)
    cases rest with
    | nil => rfl
    | cons r rest =>
      rw [h] at hnot
      simpa using hnot
  have happ := @takeWhile_append_of_head p _ rest
    (fun c hc => List.mem_takeWhile_imp (l := cs ++ post) hc) hhead
  rwa [← hcs] at happ

theorem splitBlockComment_ne_nil {cs inner rest : List Char}
    (h : splitBlockComment cs = some (inner, rest)) : inner ≠ [] := by
  fun_cases splitBlockComment cs with
  | case1 => cases h
  | case2 r =>
    obtain ⟨rfl, -⟩ := Prod.mk.inj (Option.some.inj h)
    exact List.cons_ne_nil _ _
  | case3 c cs hne =>
    rw [splitBlockComment.eq_3 c cs hne] at h
    obtain ⟨_, -, heq⟩ := Option.map_eq_some_iff.mp h
    obtain ⟨rfl, -⟩ := Prod.mk.inj heq
    exact List.cons_ne_nil _ _

/-- A block comment ends at its first end, whatever follows. -/
theorem splitBlockComment_append_eq {cs inner rest : List Char}
    (h : splitBlockComment cs = some (inner, rest)) (rest' : List Char) :
    splitBlockComment (inner ++ rest') = some (inner, rest') := by
  fun_induction splitBlockComment cs generalizing inner with
  | case1 => cases h
  | case2 r =>
    obtain ⟨rfl, rfl⟩ := Prod.mk.inj (Option.some.inj h)
    rfl
  | case3 c cs hne ih =>
    obtain ⟨⟨inner', rest''⟩, hcs, heq⟩ := Option.map_eq_some_iff.mp h
    obtain ⟨rfl, rfl⟩ := Prod.mk.inj heq
    rw [List.cons_append, splitBlockComment, ih hcs]
    · rfl
    -- the first two characters are no end, as they are the first two of the text
    · rintro r rfl hr
      obtain ⟨d, ds, rfl⟩ := List.exists_cons_of_ne_nil (splitBlockComment_ne_nil hcs)
      obtain ⟨rfl, -⟩ := List.cons.inj hr
      exact hne _ rfl (splitBlockComment_append hcs).symm

theorem Scanned.text_append_of_append {s : Scanned} {cs rest post : List Char}
    (happ : s.text ++ s.rest = cs ++ post) (h : s.rest = rest ++ post) : s.text ++ rest = cs := by
  rw [h, ← List.append_assoc] at happ
  exact List.append_cancel_right happ

theorem scanDash_of_append {cs rest post : List Char}
    (h : (scanDash (cs ++ post)).rest = rest ++ post) :
    scanDash cs = { scanDash (cs ++ post) with rest := rest } := by
  have htext : (scanDash (cs ++ post)).text ++ rest = '-' :: cs :=
    Scanned.text_append_of_append (scanDash_append (cs ++ post)) h
  generalize hs : scanDash (cs ++ post) = s at h htext
  unfold scanDash at hs
  split at hs
  next =>
    subst hs
    obtain rfl := (List.cons.inj htext).2
    rfl
  next r hcs =>
    subst hs
    obtain ⟨ht, hd⟩ := takeWhile_of_append h
    rw [← ht]
    -- the second dash is in front of the end of the line, so it was not cut off
    rw [hcs, List.takeWhile_cons_of_pos rfl] at htext
    obtain ⟨tail, rfl⟩ : ∃ tail, cs = '-' :: tail := ⟨_, (List.cons.inj htext).2.symm⟩
    rw [scanDash, hd]
  next =>
    subst hs
    obtain rfl := (List.cons.inj htext).2
    rfl
  next h₁ h₂ h₃ =>
    subst hs
    obtain rfl := (List.cons.inj htext).2
    rw [scanDash]
    · rfl
    · rintro r rfl
      exact h₁ _ rfl
    · rintro r rfl
      exact h₂ _ rfl
    · rintro r rfl
      exact h₃ _ rfl

theorem scanBrace_of_append {cs rest post : List Char}
    (h : (scanBrace (cs ++ post)).rest = rest ++ post) :
    scanBrace cs = { scanBrace (cs ++ post) with rest := rest } := by
  have htext : (scanBrace (cs ++ post)).text ++ rest = '\x7b' :: cs :=
    Scanned.text_append_of_append (scanBrace_append (cs ++ post)) h
  generalize hs : scanBrace (cs ++ post) = s at h htext
  unfold scanBrace at hs
  split at hs
  next body hcs =>
    split at hs
    next inner r hsplit =>
      subst hs
      obtain rfl : '-' :: (inner ++ rest) = cs := (List.cons.inj htext).2
      simp only [scanBrace, splitBlockComment_append_eq hsplit rest]
    next hsplit =>
      -- an open comment reaches to the end of the text, so nothing was cut off
      subst hs
      obtain ⟨rfl, rfl⟩ := List.nil_eq_append_iff.mp h
      rw [List.append_nil] at hcs htext ⊢
      simp only [scanBrace, hcs, hsplit]
      rfl
  next hne =>
    subst hs
    obtain rfl := (List.cons.inj htext).2
    rw [scanBrace]
    · rfl
    · rintro r rfl
      exact hne _ rfl

theorem scanNumber_of_append {cs rest post : List Char}
    (h : (scanNumber (cs ++ post)).rest = rest ++ post) :
    scanNumber cs = { scanNumber (cs ++ post) with rest := rest } := by
  have hrest : (cs ++ post).dropWhile Char.isDigit = rest ++ post := by
    rw [← h, scanNumber]
    split <;> rfl
  obtain ⟨ht, hd⟩ := takeWhile_of_append hrest
  rw [scanNumber, scanNumber, ht, hd]
  split <;> rfl

theorem scanWord_of_append {c : Char} {cs rest post : List Char}
    (h : (scanWord c (cs ++ post)).rest = rest ++ post) :
    scanWord c cs = { scanWord c (cs ++ post) with rest := rest } := by
  obtain ⟨ht, hd⟩ := takeWhile_of_append h
  rw [scanWord, scanWord, ht, hd]

/-- The token is the same if the text is cut off within what is left behind it. -/
def KeepsToken (f : List Char → Scanned) : Prop :=
  ∀ cs rest post, (f (cs ++ post)).rest = rest ++ post →
    f cs = { f (cs ++ post) with rest := rest }

theorem KeepsToken.ite {p : Prop} [Decidable p] {f g : List Char → Scanned} (hf : KeepsToken f)
    (hg : KeepsToken g) : KeepsToken fun cs => if p then f cs else g cs := by
  intro cs rest post h
  by_cases hp : p
  · simp only [if_pos hp] at h ⊢
    exact hf cs rest post h
  · simp only [if_neg hp] at h ⊢
    exact hg cs rest post h

theorem keepsToken_single {kind : TokenKind} {text : List Char} {fault? : Option LexFault} :
    KeepsToken fun cs => ⟨kind, text, cs, fault?⟩ := by
  intro cs rest post h
  rw [List.append_cancel_right h]

/-- **A token is scanned again if the text is cut off behind it.** -/
theorem scan_of_append {c : Char} {cs rest post : List Char}
    (h : (scan c (cs ++ post)).rest = rest ++ post) :
    scan c cs = { scan c (cs ++ post) with rest := rest } := by
  have hscan : KeepsToken (scan c) :=
    .ite keepsToken_single <| .ite keepsToken_single <| .ite keepsToken_single <|
    .ite keepsToken_single <| .ite (fun _ _ _ => scanDash_of_append) <|
    .ite (fun _ _ _ => scanBrace_of_append) <|
    .ite (fun cs rest post => @scanNumber_of_append (c :: cs) rest post) <|
    .ite (fun _ _ _ => scanWord_of_append) keepsToken_single
  exact hscan cs rest post h

/-! ## The run on a piece of a text -/

theorem Scanned.errorsAt_eq_nil_iff {start : Nat} {s : Scanned} :
    s.errorsAt start = [] ↔ s.fault? = none := by
  cases h : s.fault? <;> simp [errorsAt, h]

/-- If a text is cut off within what is left behind its first token, that token is the same. -/
theorem exists_scan_eq {c : Char} {cs text post : List Char} (h : (scan c cs).rest = text ++ post) :
    ∃ cs', cs = cs' ++ post ∧ scan c cs' = { scan c cs with rest := text } := by
  obtain ⟨d, ds, htext⟩ := List.exists_cons_of_ne_nil (scan_text_ne_nil c cs)
  have happ := scan_append c cs
  rw [htext, h, List.cons_append, ← List.append_assoc] at happ
  obtain ⟨-, rfl⟩ := List.cons.inj happ
  exact ⟨ds ++ text, rfl, scan_of_append h⟩

namespace Lexes

variable {start : Nat} {cs : List Char} {ts : List Token} {errors : List LexError}

/-- From the start of one of its tokens, a text is read as it is from its beginning. -/
theorem drop (run : Lexes start cs ts errors) {as bs : List Token} {t : Token}
    (hts : ts = as ++ t :: bs) :
    ∃ before rest errors', cs = before ++ rest ∧ start + byteLength before = t.span.start ∧
      errors' <:+ errors ∧ Lexes t.span.start rest (t :: bs) errors' := by
  induction run generalizing as with
  | @done start blanks hb =>
    obtain ⟨rfl, ht⟩ : as = [] ∧ [endToken (start + byteLength blanks)] = t :: bs := by
      cases as with
      | nil => exact ⟨rfl, hts⟩
      | cons a as => simp at hts
    obtain ⟨rfl, rfl⟩ := List.cons.inj ht
    exact ⟨blanks, [], [], by simp, rfl, List.nil_suffix, .done nofun⟩
  | @token start blanks c cs ts errors hb hc run ih =>
    cases as with
    | nil =>
      obtain ⟨rfl, rfl⟩ := List.cons.inj hts
      exact ⟨blanks, c :: cs, _, rfl, rfl, List.suffix_rfl,
        .token (List.forall_mem_nil _) hc run⟩
    | cons a as =>
      obtain ⟨before, rest, errors', hcs, hstart, herrors, hrun⟩ := ih (List.cons.inj hts).2
      refine ⟨blanks ++ (scan c cs).text ++ before, rest, errors', ?_, ?_,
        herrors.trans (List.suffix_append _ _), hrun⟩
      · rw [List.append_assoc, List.append_assoc, ← hcs, scan_append]
      · rw [← hstart, byteLength_append, byteLength_append]
        omega

/-- Up to the end of one of its tokens, a text is read as it is up to its end, wherever it starts. -/
theorem take (run : Lexes start cs ts errors) {as bs : List Token} (herrors : errors = [])
    (hts : ts = as ++ bs) (hbs : bs ≠ []) :
    ∃ text post, cs = text ++ post ∧
      start + byteLength text = (as.getLast?.map (·.span.stop)).getD start ∧
      ∀ start', ∃ us stop, Lexes start' text (us ++ [endToken stop]) [] ∧ words us = words as := by
  induction run generalizing as with
  | @done start blanks hb =>
    -- the only token is behind the piece, which is empty then
    obtain rfl : as = [] := by
      cases as with
      | nil => rfl
      | cons a as => simp [hbs] at hts
    exact ⟨[], blanks, rfl, rfl, fun start' => ⟨[], start', .done nofun, rfl⟩⟩
  | @token start blanks c cs ts errors hb hc run ih =>
    obtain ⟨hfault, herrors⟩ := List.append_eq_nil_iff.mp herrors
    cases as with
    | nil =>
      exact ⟨[], blanks ++ c :: cs, rfl, rfl, fun start' => ⟨[], start', .done nofun, rfl⟩⟩
    | cons a as =>
      obtain ⟨rfl, htail⟩ := List.cons.inj hts
      obtain ⟨text, post, hrest, hlen, hrun⟩ := ih herrors htail
      -- the token ends within the piece, so it is the same without what comes behind the piece
      obtain ⟨cs', hcs, hscan⟩ := exists_scan_eq hrest
      refine ⟨blanks ++ c :: cs', post, by rw [hcs]; simp, ?_, fun start' => ?_⟩
      · have hlen' := congrArg byteLength (scan_append c cs')
        simp only [hscan, byteLength_append] at hlen'
        rw [List.getLast?_cons, byteLength_append, ← hlen', Option.map_some, Option.getD_some,
          ← Nat.add_assoc, ← Nat.add_assoc]
        exact hlen.trans (Option.getD_map (fun t : Token => t.span.stop)
          ((scan c cs).tokenAt (start + byteLength blanks)) _)
      · obtain ⟨us, stop, hus, hwords⟩ :=
          hrun (start' + byteLength blanks + byteLength (scan c cs').text)
        refine ⟨(scan c cs').tokenAt (start' + byteLength blanks) :: us, stop, ?_, ?_⟩
        · have hnone : (scan c cs').errorsAt (start' + byteLength blanks) = [] := by
            rw [Scanned.errorsAt_eq_nil_iff] at hfault ⊢
            rw [hscan]
            exact hfault
          have hrun' := @Lexes.token start' blanks c cs' _ _ hb hc (by rw [hscan] at hus ⊢; exact hus)
          rwa [hnone] at hrun'
        · rw [words_cons, words_cons, hwords, hscan]
          rfl

end Lexes

/-! ## Excerpts -/

/-- Words that programs are made of. -/
def Word.isSignificant (w : Word) : Bool :=
  !w.kind.isTrivia && w.kind ≠ .endOfInput

theorem words_significant (ts : List Token) :
    words (significant ts) = (words ts).filter Word.isSignificant := by
  rw [words, words, List.filter_map]
  rfl

/-- Tokens in a row among the significant ones are the significant ones of some tokens in a row, of
which the first and the last one are the same. -/
theorem exists_trimmed {p : Token → Bool} {ts ks : List Token} (hne : ks ≠ [])
    (h : ks <:+: ts.filter p) :
    ∃ as ls bs, ts = as ++ (ls ++ bs) ∧ ls.filter p = ks ∧ ls.head? = ks.head? ∧
      ls.getLast? = ks.getLast? := by
  obtain ⟨pre, post, h⟩ := h
  obtain ⟨_, bs, rfl, h, -⟩ := List.filter_eq_append_iff.mp h.symm
  obtain ⟨as, ls, rfl, -, hls⟩ := List.filter_eq_append_iff.mp h
  obtain ⟨first, ks', rfl⟩ := List.exists_cons_of_ne_nil hne
  obtain ⟨as', ls', rfl, -, hfirst, hls'⟩ := List.filter_eq_cons_iff.mp hls
  obtain ⟨ks'', last, hks⟩ := List.eq_nil_or_concat' (first :: ks') |>.resolve_left hne
  have hls'' : (first :: ls').filter p = ks'' ++ [last] := by
    rw [List.filter_cons_of_pos hfirst, hls', hks]
  obtain ⟨ls₁, ls₂, hsplit, hls₁, hls₂⟩ := List.filter_eq_append_iff.mp hls''
  obtain ⟨ls₃, bs', rfl, hls₃, hlast, -⟩ := List.filter_eq_cons_iff.mp hls₂
  refine ⟨as ++ as', ls₁ ++ ls₃ ++ [last], bs' ++ bs, ?_, ?_, ?_, ?_⟩
  · rw [hsplit]
    simp
  · rw [List.filter_append, List.filter_append, hls₁, List.filter_eq_nil_iff.mpr hls₃,
      List.filter_cons_of_pos hlast, hks, List.append_nil]
    rfl
  · have hhead := congrArg List.head? hsplit
    rw [List.append_cons, ← List.append_assoc, ← List.append_assoc,
      List.head?_append_of_ne_nil _ (List.concat_ne_nil _ _)] at hhead
    exact hhead.symm
  · rw [hks, List.getLast?_concat, List.getLast?_concat]

/-- The span reaches from the start of the first to the end of the last of the tokens. -/
def Covers (ks : List Token) (s : Span) : Prop :=
  ∃ first last, ks.head? = some first ∧ ks.getLast? = some last ∧
    s = ⟨first.span.start, last.span.stop⟩

/-- **The text at the span of some significant tokens in a row is read into their words.** -/
theorem exists_lex_excerpt {source : String} {ts ks : List Token} {s : Span}
    (hlex : lex source = .ok ts) (hks : ks <:+: significant ts) (hs : Covers ks s) :
    ∃ text us, s.textIn? source = some text ∧ lex text = .ok us ∧
      words (significant us) = words ks := by
  obtain ⟨first, last, hfirst, hlast, rfl⟩ := hs
  have hne : ks ≠ [] := by
    rintro rfl
    cases hfirst
  obtain ⟨as, ls, bs, rfl, hfilter, hhead, hend⟩ := exists_trimmed hne hks
  rw [hfirst] at hhead
  rw [hlast] at hend
  obtain ⟨ls', rfl⟩ := List.head?_eq_some_iff.mp hhead
  have run : Lexes 0 source.toList (as ++ first :: (ls' ++ bs)) [] := lex_eq_ok_iff.mp hlex
  obtain ⟨before, rest, errors, hcs, hstart, herrors, hrest⟩ := run.drop rfl
  obtain rfl := List.suffix_nil.mp herrors
  have hbs : bs ≠ [] := by
    -- the last token of the source is its end, which is not significant
    rintro rfl
    obtain ⟨ws, hws, -⟩ := run.exists_words
    have hlast_eq := congrArg List.getLast? hws
    rw [List.append_nil, List.getLast?_append_of_ne_nil _ (List.cons_ne_nil _ _), hend,
      List.getLast?_concat] at hlast_eq
    have hmem : last ∈ (first :: ls').filter fun t => !t.kind.isTrivia && t.kind ≠ .endOfInput := by
      rw [hfilter]
      exact List.mem_of_getLast? hlast
    rw [Option.some.inj hlast_eq, List.mem_filter] at hmem
    cases hmem.2
  obtain ⟨text, post, rfl, hstop, htext⟩ := hrest.take rfl List.cons_append.symm hbs
  obtain ⟨us, stop, hus, hwords⟩ := htext 0
  rw [hend, Option.map_some, Option.getD_some] at hstop
  refine ⟨String.ofList text, us ++ [endToken stop], ?_, ?_, ?_⟩
  · have hat := textIn?_ofList before text post
    rw [Nat.zero_add] at hstart
    rwa [hstart, hstop, List.append_assoc, ← hcs, String.ofList_toList] at hat
  · rwa [lex_eq_ok_iff, String.toList_ofList]
  · rw [words_significant, words_append, hwords, List.filter_append, ← words_significant,
      significant, hfilter]
    exact List.append_nil _

end PolyLet
