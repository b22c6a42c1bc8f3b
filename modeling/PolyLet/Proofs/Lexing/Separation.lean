import PolyLet.Proofs.Lexing.Excerpt

/-!
# Texts that are read apart

A token is read as it is read within its source if it stands alone: what follows it only shows where
it ends, and the end of the text shows that as well. For the same reason a text is read in front of a
line feed as it is read alone. A line feed is a blank, it ends a line comment, and no word or number
goes on with it. Only a block comment does not end there, so one that is left open takes in the lines
behind it.

## Main definitions

* `Span.shift k`, `Token.shift k`, `LexError.shift k`: what was read `k` bytes further on
* `EndsLine f`: the scan `f` reads a token in front of a line feed as at the end of the text
* `Scanned.Marked s`: what was scanned is invalid exactly if it has a fault

## Main results

* `scan_line`: the first token of a text with a line feed behind it
* `Lexes.line`, `Lexes.shift`: the run on a text that goes on behind a line feed, and the run on a
  text that starts further on
* `scan_kind_eq_invalid_iff`: the invalid tokens are those with a fault
* `tokenize_line`: lines are read one after the other
* `tokenize_text_of_token`: a token is read again from its own text
-/

namespace PolyLet

/-! ## The first token of a line -/

/-- In front of a line feed a token is read as at the end of the text, unless it is an open block
comment. -/
def EndsLine (f : List Char → Scanned) : Prop :=
  ∀ cs post, (f cs).fault? ≠ some .unterminatedBlockComment →
    f (cs ++ '\n' :: post) = { f cs with rest := (f cs).rest ++ '\n' :: post }

theorem EndsLine.ite {p : Prop} [Decidable p] {f g : List Char → Scanned} (hf : EndsLine f)
    (hg : EndsLine g) : EndsLine fun cs => if p then f cs else g cs := by
  intro cs post h
  by_cases hp : p
  · simp only [if_pos hp] at h ⊢
    exact hf cs post h
  · simp only [if_neg hp] at h ⊢
    exact hg cs post h

theorem endsLine_single {kind : TokenKind} {text : List Char} {fault? : Option LexFault} :
    EndsLine fun cs => ⟨kind, text, cs, fault?⟩ :=
  fun _ _ _ => rfl

/-- A run of characters of one class ends at a line feed, if that is not of the class. -/
theorem takeWhile_line {p : Char → Bool} (hp : p '\n' = false) (cs post : List Char) :
    (cs ++ '\n' :: post).takeWhile p = cs.takeWhile p ∧
      (cs ++ '\n' :: post).dropWhile p = cs.dropWhile p ++ '\n' :: post := by
  have hhead : (cs.dropWhile p ++ '\n' :: post).head?.any p = false := by
    have hnot := List.head?_dropWhile_not p cs
    cases hdrop : cs.dropWhile p with
    | nil => exact hp
    | cons c rest =>
      rw [hdrop] at hnot
      simpa using hnot
  have happ := @takeWhile_append_of_head p (cs.takeWhile p) _
    (fun c hc => List.mem_takeWhile_imp hc) hhead
  rwa [← List.append_assoc, List.takeWhile_append_dropWhile] at happ

/-- What a text starts with, a line feed apart, is not behind its line feed. -/
theorem exists_cons_of_line {c : Char} {cs post rest : List Char} (hc : c ≠ '\n')
    (h : cs ++ '\n' :: post = c :: rest) : ∃ cs', cs = c :: cs' := by
  cases cs with
  | nil => exact absurd (List.cons.inj h).1.symm hc
  | cons d cs =>
    obtain ⟨rfl, -⟩ := List.cons.inj h
    exact ⟨cs, rfl⟩

theorem endsLine_scanDash : EndsLine scanDash := by
  intro cs post _
  fun_cases scanDash cs with
  | case1 rest => rfl
  | case2 tail =>
    obtain ⟨ht, hd⟩ := takeWhile_line (p := (· ≠ '\n')) rfl ('-' :: tail) post
    rw [List.cons_append] at ht hd
    rw [List.cons_append, scanDash, ht, hd]
  | case3 rest => rfl
  | case4 cs h₁ h₂ h₃ =>
    rw [scanDash.eq_4]
    · rfl
    · intro rest h
      obtain ⟨cs', rfl⟩ := exists_cons_of_line (by decide) h
      exact h₁ cs' rfl
    · intro tail h
      obtain ⟨cs', rfl⟩ := exists_cons_of_line (by decide) h
      exact h₂ cs' rfl
    · intro rest h
      obtain ⟨cs', rfl⟩ := exists_cons_of_line (by decide) h
      exact h₃ cs' rfl

theorem endsLine_scanBrace : EndsLine scanBrace := by
  intro cs post hclosed
  fun_cases scanBrace cs with
  | case1 body inner rest hsplit =>
    -- the comment ends within the line
    have hline : splitBlockComment (body ++ '\n' :: post) = some (inner, rest ++ '\n' :: post) := by
      rw [← splitBlockComment_append hsplit, List.append_assoc]
      exact splitBlockComment_append_eq hsplit _
    simp only [scanBrace, List.cons_append, hline]
  | case2 body hsplit =>
    refine absurd ?_ hclosed
    simp only [scanBrace, hsplit]
    rfl
  | case3 cs hne =>
    rw [scanBrace.eq_2]
    · rfl
    · intro body h
      obtain ⟨cs', rfl⟩ := exists_cons_of_line (by decide) h
      exact hne cs' rfl

theorem endsLine_scanNumber (c : Char) : EndsLine fun cs => scanNumber (c :: cs) := by
  intro cs post _
  obtain ⟨ht, hd⟩ := takeWhile_line (p := Char.isDigit) rfl (c :: cs) post
  simp only [scanNumber, ← List.cons_append, ht, hd]
  split <;> rfl

theorem endsLine_scanWord (c : Char) : EndsLine (scanWord c) := by
  intro cs post _
  obtain ⟨ht, hd⟩ := takeWhile_line (p := isNameRest) rfl cs post
  simp only [scanWord, ht, hd]

/-- **The first token of a line** is the first token of the text that goes on behind the line. -/
theorem scan_line {c : Char} {cs : List Char} (post : List Char)
    (h : (scan c cs).fault? ≠ some .unterminatedBlockComment) :
    scan c (cs ++ '\n' :: post) = { scan c cs with rest := (scan c cs).rest ++ '\n' :: post } := by
  have hscan : EndsLine (scan c) :=
    .ite endsLine_single <| .ite endsLine_single <| .ite endsLine_single <| .ite endsLine_single <|
    .ite endsLine_scanDash <| .ite endsLine_scanBrace <| .ite (endsLine_scanNumber c) <|
    .ite (endsLine_scanWord c) endsLine_single
  exact hscan cs post h

/-! ## The run on a text of several lines -/

theorem Lexes.ne_nil {start : Nat} {cs : List Char} {ts : List Token} {errors : List LexError}
    (run : Lexes start cs ts errors) : ts ≠ [] := by
  cases run <;> exact List.cons_ne_nil _ _

/-- **The run on a text that goes on behind a line feed.** The end of the line is no end of the
input. -/
theorem Lexes.line {start : Nat} {cs post : List Char} {ts us : List Token}
    {errors errors' : List LexError} (run : Lexes start cs ts errors)
    (hclosed : ∀ e ∈ errors, e.fault ≠ .unterminatedBlockComment)
    (run' : Lexes (start + byteLength (cs ++ ['\n'])) post us errors') :
    Lexes start (cs ++ '\n' :: post) (ts.dropLast ++ us) (errors ++ errors') := by
  induction run with
  | @done start blanks hb =>
    rw [List.append_cons]
    exact run'.blanks (List.forall_mem_append.mpr ⟨hb, List.forall_mem_singleton.mpr rfl⟩)
  | @token start blanks c cs ts errors hb hc run ih =>
    obtain ⟨hfirst, hclosed⟩ := List.forall_mem_append.mp hclosed
    have hscan := @scan_line c cs post fun hfault =>
      hfirst ⟨_, _⟩ (by rw [Scanned.errorsAt, hfault]; exact List.mem_singleton_self _) rfl
    have hlen : byteLength (c :: cs) =
        byteLength (scan c cs).text + byteLength (scan c cs).rest := by
      rw [← byteLength_append, scan_append]
    have hrun := ih hclosed (by
      simp only [byteLength_append, hlen] at run' ⊢
      simpa only [Nat.add_assoc] using run')
    have hrun' := @Lexes.token start blanks c (cs ++ '\n' :: post) _ _ hb hc (by rw [hscan]; exact hrun)
    rw [hscan] at hrun'
    rw [List.dropLast_cons_of_ne_nil run.ne_nil, List.cons_append, List.append_assoc,
      List.append_assoc]
    exact hrun'

/-! ## Reading further on -/

/-- The span with both ends moved on by `k` bytes. -/
def Span.shift (k : Nat) (s : Span) : Span :=
  ⟨s.start + k, s.stop + k⟩

/-- The token with its place moved on by `k` bytes. -/
def Token.shift (k : Nat) (t : Token) : Token :=
  { t with span := t.span.shift k }

/-- The error with its place moved on by `k` bytes. -/
def LexError.shift (k : Nat) (e : LexError) : LexError :=
  { e with span := e.span.shift k }

theorem Scanned.spanAt_shift (start k : Nat) (s : Scanned) :
    (s.spanAt start).shift k = s.spanAt (start + k) := by
  simp only [spanAt, Span.shift, Nat.add_right_comm]

theorem Scanned.tokenAt_shift (start k : Nat) (s : Scanned) :
    (s.tokenAt start).shift k = s.tokenAt (start + k) := by
  rw [tokenAt, tokenAt, ← spanAt_shift]
  rfl

theorem Scanned.errorsAt_shift (start k : Nat) (s : Scanned) :
    (s.errorsAt start).map (LexError.shift k) = s.errorsAt (start + k) := by
  rw [errorsAt, errorsAt, ← spanAt_shift]
  cases s.fault? <;> rfl

/-- **The run on a text that starts further on** is the same run further on. -/
theorem Lexes.shift {start : Nat} {cs : List Char} {ts : List Token} {errors : List LexError}
    (run : Lexes start cs ts errors) (k : Nat) :
    Lexes (start + k) cs (ts.map (Token.shift k)) (errors.map (LexError.shift k)) := by
  induction run with
  | @done start blanks hb =>
    have hend : (endToken (start + byteLength blanks)).shift k =
        endToken (start + k + byteLength blanks) := by
      rw [Nat.add_right_comm]
      rfl
    rw [List.map_singleton, hend]
    exact .done hb
  | @token start blanks c cs ts errors hb hc run ih =>
    rw [List.map_cons, List.map_append, Scanned.tokenAt_shift, Scanned.errorsAt_shift,
      Nat.add_right_comm]
    refine .token hb hc ?_
    rwa [Nat.add_right_comm start, Nat.add_right_comm]

/-- **Lines are read one after the other.** If no block comment is left open in a text, then the
tokens of a text that goes on behind a line feed are those of the first part but for the end of the
input, and then those of the second part, moved on by the length of the first part and of the line
feed. So are its errors. -/
theorem tokenize_line (a b : String)
    (h : ∀ e ∈ (tokenize a).2, e.fault ≠ .unterminatedBlockComment) :
    ∃ words : List Token,
      (tokenize a).1 = words ++ [⟨.endOfInput, "", .point a.utf8ByteSize⟩] ∧
      (∀ t ∈ words, t.kind ≠ .endOfInput) ∧
      (tokenize (a ++ "\n" ++ b)).1 =
        words ++ (tokenize b).1.map (Token.shift (a.utf8ByteSize + 1)) ∧
      (tokenize (a ++ "\n" ++ b)).2 =
        (tokenize a).2 ++ (tokenize b).2.map (LexError.shift (a.utf8ByteSize + 1)) := by
  have run := tokenize_lexes a
  obtain ⟨words, hwords, hkind⟩ := run.exists_words
  rw [byteLength_toList, Nat.zero_add] at hwords
  have hsecond := (tokenize_lexes b).shift (a.utf8ByteSize + 1)
  rw [Nat.zero_add] at hsecond
  have hstart : a.utf8ByteSize + 1 = byteLength (a.toList ++ ['\n']) := by
    rw [byteLength_append, byteLength_toList]
    rfl
  have hboth := run.line h (by rwa [Nat.zero_add, ← hstart])
  rw [hwords, List.dropLast_concat] at hboth
  have htext : (a ++ "\n" ++ b).toList = a.toList ++ '\n' :: b.toList := by
    rw [String.toList_append, String.toList_append, List.append_assoc]
    rfl
  rw [← htext, ← tokenize_eq_iff] at hboth
  obtain ⟨htokens, herrors⟩ := Prod.mk.inj hboth
  exact ⟨words, hwords, fun t ht => (hkind t ht).1, htokens, herrors⟩

/-- A dash at the end of a line and an angle bracket on the next line are no arrow. -/
theorem tokenize_line_dash :
    (∀ e ∈ (tokenize "x -").2, e.fault ≠ .unterminatedBlockComment) ∧
    (tokenize ("x -" ++ "\n" ++ ">")).1 =
      [⟨.name, "x", ⟨0, 1⟩⟩, ⟨.invalid, "-", ⟨2, 3⟩⟩, ⟨.invalid, ">", ⟨4, 5⟩⟩, endToken 5] ∧
    (tokenize ("x -" ++ "\n" ++ ">")).2 =
      [⟨.unexpectedCharacter '-', ⟨2, 3⟩⟩, ⟨.unexpectedCharacter '>', ⟨4, 5⟩⟩] := by
  have hspace : ∀ b ∈ [' '], isBlank b = true := List.forall_mem_singleton.mpr rfl
  have hfirst : tokenize "x -" =
      ([⟨.name, "x", ⟨0, 1⟩⟩, ⟨.invalid, "-", ⟨2, 3⟩⟩, endToken 3],
        [⟨.unexpectedCharacter '-', ⟨2, 3⟩⟩]) := by
    rw [tokenize_eq_iff]
    exact @Lexes.token 0 [] 'x' _ _ _ (List.forall_mem_nil _) rfl <|
      @Lexes.token 1 [' '] '-' _ _ _ hspace rfl <| .done (List.forall_mem_nil _)
  have hsecond : tokenize ">" =
      ([⟨.invalid, ">", ⟨0, 1⟩⟩, endToken 1], [⟨.unexpectedCharacter '>', ⟨0, 1⟩⟩]) := by
    rw [tokenize_eq_iff]
    exact @Lexes.token 0 [] '>' _ _ _ (List.forall_mem_nil _) rfl <| .done (List.forall_mem_nil _)
  have hclosed : ∀ e ∈ (tokenize "x -").2, e.fault ≠ .unterminatedBlockComment := by
    rw [hfirst]
    exact List.forall_mem_singleton.mpr fun h => by cases h
  obtain ⟨words, hwords, -, htokens, herrors⟩ := tokenize_line "x -" ">" hclosed
  rw [hfirst] at hwords herrors
  rw [hsecond] at htokens herrors
  obtain rfl : [⟨.name, "x", ⟨0, 1⟩⟩, ⟨.invalid, "-", ⟨2, 3⟩⟩] = words :=
    List.append_cancel_right (hwords : [_, _] ++ [endToken 3] = _)
  exact ⟨hclosed, htokens, herrors⟩

/-! ## One token -/

/-- What was scanned is invalid exactly if it has a fault. -/
def Scanned.Marked (s : Scanned) : Prop :=
  s.kind = .invalid ↔ ∃ fault, s.fault? = some fault

namespace Scanned.Marked

theorem invalid (fault : LexFault) (text rest : List Char) : (invalid fault text rest).Marked :=
  ⟨fun _ => ⟨fault, rfl⟩, fun _ => rfl⟩

theorem valid {kind : TokenKind} (h : kind ≠ .invalid) (text rest : List Char) :
    (⟨kind, text, rest, none⟩ : Scanned).Marked :=
  ⟨fun hkind => absurd hkind h, fun ⟨_, hfault⟩ => by cases hfault⟩

theorem ite {p : Prop} [Decidable p] {s s' : Scanned} (hs : s.Marked) (hs' : s'.Marked) :
    (if p then s else s').Marked := by
  split
  · exact hs
  · exact hs'

end Scanned.Marked

open Scanned (Marked)

theorem marked_scanDash (cs : List Char) : (scanDash cs).Marked := by
  unfold scanDash
  split
  · exact .valid TokenKind.noConfusion _ _
  · exact .valid TokenKind.noConfusion _ _
  · exact .invalid _ _ _
  · exact .invalid _ _ _

theorem marked_scanBrace (cs : List Char) : (scanBrace cs).Marked := by
  unfold scanBrace
  split
  · split
    · exact .valid TokenKind.noConfusion _ _
    · exact .invalid _ _ _
  · exact .invalid _ _ _

theorem marked_scanNumber (cs : List Char) : (scanNumber cs).Marked :=
  .ite (.valid TokenKind.noConfusion _ _) (.invalid _ _ _)

theorem keyword_kind_ne_invalid (x : String) : (TokenKind.ofKeyword? x).getD .name ≠ .invalid := by
  unfold TokenKind.ofKeyword?
  split <;> exact TokenKind.noConfusion

theorem marked_scanWord (c : Char) (cs : List Char) : (scanWord c cs).Marked :=
  .valid (keyword_kind_ne_invalid _) _ _

/-- **The invalid tokens are those with a fault.** -/
theorem scan_kind_eq_invalid_iff {c : Char} {cs : List Char} :
    (scan c cs).kind = .invalid ↔ ∃ fault, (scan c cs).fault? = some fault := by
  have hsingle : ∀ {kind}, kind ≠ .invalid → (⟨kind, [c], cs, none⟩ : Scanned).Marked :=
    fun h => .valid h _ _
  have hscan : (scan c cs).Marked :=
    .ite (hsingle TokenKind.noConfusion) <| .ite (hsingle TokenKind.noConfusion) <|
    .ite (hsingle TokenKind.noConfusion) <| .ite (hsingle TokenKind.noConfusion) <|
    .ite (marked_scanDash cs) <| .ite (marked_scanBrace cs) <| .ite (marked_scanNumber (c :: cs)) <|
    .ite (marked_scanWord c cs) (.invalid _ _ _)
  exact hscan

/-- A token is scanned from its own text as it is scanned from the text that it is the first token
of. -/
theorem exists_scan_text (c : Char) (cs : List Char) :
    ∃ cs', (scan c cs).text = c :: cs' ∧ scan c cs' = { scan c cs with rest := [] } := by
  obtain ⟨cs', -, hscan⟩ := exists_scan_eq (List.nil_append (scan c cs).rest).symm
  refine ⟨cs', ?_, hscan⟩
  have happ := scan_append c cs'
  rwa [hscan, List.append_nil] at happ

/-- The run on the text of one token. -/
theorem lexes_text_of_scan {c : Char} (hc : isBlank c = false) (cs : List Char) :
    Lexes 0 (scan c cs).text [(scan c cs).tokenAt 0, endToken (byteLength (scan c cs).text)]
      ((scan c cs).errorsAt 0) := by
  obtain ⟨cs', htext, hscan⟩ := exists_scan_text c cs
  have hrest : Lexes (0 + byteLength [] + byteLength (scan c cs').text) (scan c cs').rest
      [endToken (byteLength (scan c cs).text)] [] := by
    have run := @Lexes.done (byteLength (scan c cs).text) [] (List.forall_mem_nil _)
    rw [hscan, byteLength_nil, Nat.zero_add]
    exact run
  have run := @Lexes.token 0 [] c cs' _ _ (List.forall_mem_nil _) hc hrest
  rw [hscan, List.append_nil, List.nil_append, ← htext] at run
  exact run

namespace Scanned

theorem mem_errorsAt {s : Scanned} {start : Nat} {e : LexError} :
    e ∈ s.errorsAt start ↔ s.fault? = some e.fault ∧ e.span = s.spanAt start := by
  cases e
  cases h : s.fault? <;> simp [errorsAt, h, eq_comm]

theorem errorsAt_of_fault {s : Scanned} {fault : LexFault} (h : s.fault? = some fault)
    (start : Nat) : s.errorsAt start = [⟨fault, s.spanAt start⟩] := by
  rw [errorsAt, h]
  rfl

end Scanned

namespace Lexes

variable {start : Nat} {cs : List Char} {ts : List Token} {errors : List LexError}

theorem start_le_errors (run : Lexes start cs ts errors) : ∀ e ∈ errors, start ≤ e.span.start := by
  induction run with
  | done hb => exact List.forall_mem_nil _
  | @token start blanks c cs ts errors hb hc run ih =>
    refine List.forall_mem_append.mpr ⟨fun e he => ?_, fun e he => ?_⟩
    · rw [(Scanned.mem_errorsAt.mp he).2]
      exact Nat.le_add_right _ _
    · have := ih e he
      omega

/-- Every token but the end of the input was scanned at its place, and the errors at its place are
its own. -/
theorem exists_scan_at (run : Lexes start cs ts errors) {t : Token} (ht : t ∈ ts)
    (hne : t.kind ≠ .endOfInput) :
    ∃ before c cs', cs = before ++ c :: cs' ∧ start + byteLength before = t.span.start ∧
      isBlank c = false ∧ t = (scan c cs').tokenAt t.span.start ∧
      errors.filter (·.span = t.span) = (scan c cs').errorsAt t.span.start := by
  induction run with
  | done hb =>
    rw [List.mem_singleton.mp ht] at hne
    exact absurd rfl hne
  | @token start blanks c cs ts errors hb hc run ih =>
    have hpos := byteLength_pos (scan_text_ne_nil c cs)
    rw [List.filter_append]
    rcases List.mem_cons.mp ht with rfl | ht
    · -- all later errors are behind the token
      have hlater : errors.filter
          (·.span = ((scan c cs).tokenAt (start + byteLength blanks)).span) = [] := by
        refine List.filter_eq_nil_iff.mpr fun e he heq => ?_
        have hle := run.start_le_errors e he
        rw [of_decide_eq_true heq] at hle
        simp only [Scanned.tokenAt, Scanned.spanAt] at hle
        omega
      refine ⟨blanks, c, cs, rfl, rfl, hc, rfl, ?_⟩
      rw [hlater, List.append_nil]
      exact List.filter_eq_self.mpr fun e he => decide_eq_true (Scanned.mem_errorsAt.mp he).2
    · -- the first token is in front of the others
      have hfirst : ((scan c cs).errorsAt (start + byteLength blanks)).filter
          (·.span = t.span) = [] := by
        refine List.filter_eq_nil_iff.mpr fun e he heq => ?_
        have hle := run.start_le t ht
        rw [← of_decide_eq_true heq, (Scanned.mem_errorsAt.mp he).2] at hle
        simp only [Scanned.spanAt] at hle
        omega
      obtain ⟨before, c', cs', hrest, hstart, hc', hscan, herrors⟩ := ih ht
      refine ⟨blanks ++ (scan c cs).text ++ before, c', cs', ?_, ?_, hc', hscan, ?_⟩
      · rw [List.append_assoc, List.append_assoc, ← hrest, scan_append]
      · rw [← hstart, byteLength_append, byteLength_append]
        omega
      · rw [hfirst, List.nil_append]
        exact herrors

theorem exists_scan (run : Lexes start cs ts errors) {t : Token} (ht : t ∈ ts)
    (hne : t.kind ≠ .endOfInput) :
    ∃ c cs', isBlank c = false ∧ t = (scan c cs').tokenAt t.span.start ∧
      errors.filter (·.span = t.span) = (scan c cs').errorsAt t.span.start := by
  obtain ⟨-, c, cs', -, -, hscan⟩ := run.exists_scan_at ht hne
  exact ⟨c, cs', hscan⟩

end Lexes

/-- **A token is read again from its own text.** Any token of a source but the end of the input, the
invalid ones among them, is the only token of its text, with the same kind. If it is invalid, then
the source has one error at its place, and its text has the same fault; otherwise neither has one. -/
theorem tokenize_text_of_token {source : String} {t : Token} (ht : t ∈ (tokenize source).1)
    (hne : t.kind ≠ .endOfInput) :
    (tokenize t.text).1 =
      [⟨t.kind, t.text, ⟨0, t.text.utf8ByteSize⟩⟩,
        ⟨.endOfInput, "", .point t.text.utf8ByteSize⟩] ∧
    (t.kind = .invalid → ∃ fault : LexFault,
      (tokenize source).2.filter (·.span = t.span) = [⟨fault, t.span⟩] ∧
      (tokenize t.text).2 = [⟨fault, ⟨0, t.text.utf8ByteSize⟩⟩]) ∧
    (t.kind ≠ .invalid →
      (tokenize source).2.filter (·.span = t.span) = [] ∧ (tokenize t.text).2 = []) := by
  obtain ⟨c, cs, hc, hscan, herrors⟩ := (tokenize_lexes source).exists_scan ht hne
  have htext : t.text = String.ofList (scan c cs).text := congrArg Token.text hscan
  have hkind : t.kind = (scan c cs).kind := congrArg Token.kind hscan
  have hspan : t.span = (scan c cs).spanAt t.span.start := congrArg Token.span hscan
  have hlen : t.text.utf8ByteSize = byteLength (scan c cs).text := by
    rw [htext, utf8ByteSize_ofList]
  have hwhole : (scan c cs).spanAt 0 = ⟨0, t.text.utf8ByteSize⟩ := by
    rw [hlen, Scanned.spanAt, Nat.zero_add]
  have halone : tokenize t.text =
      ([(scan c cs).tokenAt 0, endToken t.text.utf8ByteSize], (scan c cs).errorsAt 0) := by
    rw [hlen, tokenize_eq_iff, htext, String.toList_ofList]
    exact lexes_text_of_scan hc cs
  rw [halone, herrors, hkind, ne_eq, scan_kind_eq_invalid_iff]
  refine ⟨?_, ?_, ?_⟩
  · rw [Scanned.tokenAt, hwhole, ← htext]
    rfl
  · rintro ⟨fault, hfault⟩
    refine ⟨fault, ?_, ?_⟩
    · rw [Scanned.errorsAt_of_fault hfault, ← hspan]
    · rw [Scanned.errorsAt_of_fault hfault, hwhole]
  · intro hvalid
    have hnone : (scan c cs).fault? = none := Option.eq_none_iff_forall_ne_some.mpr
      fun fault hfault => hvalid ⟨fault, hfault⟩
    exact ⟨Scanned.errorsAt_eq_nil_iff.mpr hnone, Scanned.errorsAt_eq_nil_iff.mpr hnone⟩

/-- The dash of `-1` is as invalid alone as it is in front of the digit. -/
theorem tokenize_text_of_dash :
    (⟨.invalid, "-", ⟨0, 1⟩⟩ : Token) ∈ (tokenize "-1").1 ∧
    (tokenize "-").1 = [⟨.invalid, "-", ⟨0, 1⟩⟩, endToken 1] ∧
    ∃ fault : LexFault, (tokenize "-1").2.filter (·.span = ⟨0, 1⟩) = [⟨fault, ⟨0, 1⟩⟩] ∧
      (tokenize "-").2 = [⟨fault, ⟨0, 1⟩⟩] := by
  have hsource : tokenize "-1" =
      ([⟨.invalid, "-", ⟨0, 1⟩⟩, ⟨.integer, "1", ⟨1, 2⟩⟩, endToken 2],
        [⟨.unexpectedCharacter '-', ⟨0, 1⟩⟩]) := by
    rw [tokenize_eq_iff]
    exact @Lexes.token 0 [] '-' _ _ _ (List.forall_mem_nil _) rfl <|
      @Lexes.token 1 [] '1' _ _ _ (List.forall_mem_nil _) rfl <| .done (List.forall_mem_nil _)
  have hmem : (⟨.invalid, "-", ⟨0, 1⟩⟩ : Token) ∈ (tokenize "-1").1 := by
    rw [hsource]
    exact List.mem_cons_self
  obtain ⟨htokens, hinvalid, -⟩ := tokenize_text_of_token hmem fun h => by cases h
  exact ⟨hmem, htokens, hinvalid rfl⟩

end PolyLet
