import PolyLet.Proofs.Lexing.Words

/-!
# Tokens tile their source

The tokens of a source stand in it one behind the other. Each of them is the text that the source has
at its span, between two of them there are only blanks, and the last one is the end of the input. So
the source is the gaps and the texts of the tokens in turn, whether it is well formed or not.

## Main definitions

* `Span.textIn? s source`: the text that a source has at a span
* `gaps start ts`: the spans between the tokens of a list

## Main results

* `Span.textIn?_eq_some_iff`: a span has a text when the source splits around it
* `Lexes.join_gaps`: the gaps and the tokens of a run make up its text
* `tokenize_tiles`: what is said above, for every source
-/

namespace PolyLet

/-! ## The text at a span -/

/-- The text that the source has at a span. There is none if an end of the span is past the end of
the source or inside of a character, or if the span ends before it starts. -/
def Span.textIn? (s : Span) (source : String) : Option String :=
  if h : (⟨s.start⟩ : String.Pos.Raw).IsValid source ∧ (⟨s.stop⟩ : String.Pos.Raw).IsValid source ∧
      s.start ≤ s.stop then
    some (String.extract (⟨⟨s.start⟩, h.1⟩ : source.Pos) ⟨⟨s.stop⟩, h.2.1⟩)
  else none

theorem Span.textIn?_eq_some_iff {s : Span} {source text : String} :
    s.textIn? source = some text ↔
      ∃ before after, source = before ++ text ++ after ∧ s.start = before.utf8ByteSize ∧
        s.stop = (before ++ text).utf8ByteSize := by
  unfold textIn?
  constructor
  · intro h
    split at h
    next hv =>
      rw [String.extract_eq_copy_slice _ _ hv.2.2] at h
      obtain ⟨before, after, h₁, h₂⟩ :=
        String.copy_slice_eq_iff_splits.mp ⟨_, Option.some.inj h⟩
      refine ⟨before, after, h₂.eq_append, ?_, ?_⟩
      · exact congrArg String.Pos.Raw.byteIdx h₁.offset_eq_rawEndPos
      · exact congrArg String.Pos.Raw.byteIdx h₂.offset_eq_rawEndPos
    next => cases h
  · rintro ⟨before, after, rfl, hstart, hstop⟩
    have h₁ : (⟨s.start⟩ : String.Pos.Raw).IsValid (before ++ text ++ after) :=
      String.Pos.Raw.isValid_iff_exists_append.mpr
        ⟨before, text ++ after, String.append_assoc, congrArg String.Pos.Raw.mk hstart⟩
    have h₂ : (⟨s.stop⟩ : String.Pos.Raw).IsValid (before ++ text ++ after) :=
      String.Pos.Raw.isValid_iff_exists_append.mpr
        ⟨before ++ text, after, rfl, congrArg String.Pos.Raw.mk hstop⟩
    have hle : s.start ≤ s.stop := by
      rw [hstart, hstop, String.utf8ByteSize_append]
      omega
    have hs₁ : (⟨⟨s.start⟩, h₁⟩ : (before ++ text ++ after).Pos).Splits before (text ++ after) :=
      ⟨String.append_assoc, congrArg String.Pos.Raw.mk hstart⟩
    have hs₂ : (⟨⟨s.stop⟩, h₂⟩ : (before ++ text ++ after).Pos).Splits (before ++ text) after :=
      ⟨rfl, congrArg String.Pos.Raw.mk hstop⟩
    obtain ⟨_, hcopy⟩ := String.copy_slice_eq_iff_splits.mpr ⟨before, after, hs₁, hs₂⟩
    rw [dif_pos ⟨h₁, h₂, hle⟩, String.extract_eq_copy_slice _ _ hle, hcopy]

/-- A span with a text starts and ends between characters. -/
theorem Span.isValid_of_textIn? {s : Span} {source text : String}
    (h : s.textIn? source = some text) :
    (⟨s.start⟩ : String.Pos.Raw).IsValid source ∧
      (⟨s.stop⟩ : String.Pos.Raw).IsValid source := by
  unfold textIn? at h
  split at h
  next hv => exact ⟨hv.1, hv.2.1⟩
  next => cases h

/-- The text at a span, where the source is given by its characters. -/
theorem textIn?_ofList (before text after : List Char) :
    (⟨byteLength before, byteLength before + byteLength text⟩ : Span).textIn?
      (String.ofList (before ++ text ++ after)) = some (String.ofList text) := by
  refine Span.textIn?_eq_some_iff.mpr ⟨String.ofList before, String.ofList after, ?_, ?_, ?_⟩
  · rw [String.ofList_append, String.ofList_append]
  · rw [utf8ByteSize_ofList]
  · rw [← String.ofList_append, utf8ByteSize_ofList, byteLength_append]

/-! ## Tokens in their order -/

namespace Lexes

variable {start : Nat} {cs : List Char} {ts : List Token} {errors : List LexError}

/-- The end of the input is the last token, and every other one takes up a piece of the text. -/
theorem exists_words (h : Lexes start cs ts errors) :
    ∃ words, ts = words ++ [endToken (start + byteLength cs)] ∧
      ∀ t ∈ words, t.kind ≠ .endOfInput ∧ t.span.start < t.span.stop := by
  induction h with
  | done hb => exact ⟨[], rfl, nofun⟩
  | @token start blanks c cs ts errors hb hc run ih =>
    obtain ⟨words, hts, hwords⟩ := ih
    have hlen : byteLength (c :: cs) =
        byteLength (scan c cs).text + byteLength (scan c cs).rest := by
      rw [← byteLength_append, scan_append]
    refine ⟨(scan c cs).tokenAt (start + byteLength blanks) :: words, ?_, ?_⟩
    · rw [hts, byteLength_append, hlen]
      simp only [List.cons_append, Nat.add_assoc]
    · refine List.forall_mem_cons.mpr ⟨⟨scan_kind_ne_endOfInput c cs, ?_⟩, hwords⟩
      exact Nat.lt_add_of_pos_right (byteLength_pos (scan_text_ne_nil c cs))

theorem start_le (h : Lexes start cs ts errors) : ∀ t ∈ ts, start ≤ t.span.start := by
  induction h with
  | done hb =>
    simp only [List.mem_singleton, forall_eq]
    exact Nat.le_add_right _ _
  | @token start blanks c cs ts errors hb hc run ih =>
    refine List.forall_mem_cons.mpr ⟨Nat.le_add_right _ _, fun t ht => ?_⟩
    have := ih t ht
    omega

/-- Tokens stand one behind the other. -/
theorem pairwise (h : Lexes start cs ts errors) :
    ts.Pairwise fun a b => a.span.stop ≤ b.span.start := by
  induction h with
  | done hb => exact List.pairwise_singleton _ _
  | token hb hc run ih => exact List.pairwise_cons.mpr ⟨run.start_le, ih⟩

end Lexes

/-! ## Tokens and gaps -/

/-- The spans in front of the tokens of a list, each of which reaches back to the token before, and
the first one to the byte `start`. -/
def gaps (start : Nat) : List Token → List Span
  | [] => []
  | t :: ts => ⟨start, t.span.start⟩ :: gaps t.span.stop ts

namespace Lexes

variable {start : Nat} {cs : List Char} {ts : List Token} {errors : List LexError}

/-- Every token has the text that the source has at its span. -/
theorem textIn?_span (h : Lexes start cs ts errors) (before : List Char)
    (hbefore : byteLength before = start) :
    ∀ t ∈ ts, t.span.textIn? (String.ofList (before ++ cs)) = some t.text := by
  induction h generalizing before with
  | @done start blanks hb =>
    simp only [List.mem_singleton, forall_eq]
    have := textIn?_ofList (before ++ blanks) [] []
    simpa [hbefore, endToken, Span.point] using this
  | @token start blanks c cs ts errors hb hc run ih =>
    have hsplit : before ++ (blanks ++ c :: cs) =
        before ++ blanks ++ (scan c cs).text ++ (scan c cs).rest := by
      rw [List.append_assoc, scan_append, List.append_assoc]
    rw [hsplit]
    refine List.forall_mem_cons.mpr ⟨?_, ih _ (by simp [hbefore, Nat.add_assoc])⟩
    have := textIn?_ofList (before ++ blanks) (scan c cs).text (scan c cs).rest
    rwa [byteLength_append, hbefore] at this

/-- **The gaps and the tokens make up the text,** and the gaps are blank. -/
theorem join_gaps (h : Lexes start cs ts errors) (before : List Char)
    (hbefore : byteLength before = start) :
    ∃ texts : List String,
      (gaps start ts).map (·.textIn? (String.ofList (before ++ cs))) = texts.map some ∧
      (∀ g ∈ texts, ∀ c ∈ g.toList, isBlank c = true) ∧
      String.join (List.zipWith (· ++ ·) texts (ts.map Token.text)) = String.ofList cs := by
  induction h generalizing before with
  | @done start blanks hb =>
    have hgap := textIn?_ofList before blanks []
    rw [List.append_nil, hbefore] at hgap
    exact ⟨[String.ofList blanks], by simpa [gaps, endToken, Span.point] using hgap,
      by simpa using hb, by simp [endToken]⟩
  | @token start blanks c cs ts errors hb hc run ih =>
    have hsplit : before ++ (blanks ++ c :: cs) =
        before ++ blanks ++ (scan c cs).text ++ (scan c cs).rest := by
      rw [List.append_assoc, scan_append, List.append_assoc]
    obtain ⟨texts, hgaps, hblank, hjoin⟩ :=
      ih (before ++ blanks ++ (scan c cs).text) (by simp [hbefore, Nat.add_assoc])
    have hgap := textIn?_ofList before blanks (c :: cs)
    rw [List.append_assoc, hbefore] at hgap
    refine ⟨String.ofList blanks :: texts, ?_, ?_, ?_⟩
    · rw [← hsplit] at hgaps
      exact congrArg₂ List.cons hgap hgaps
    · exact List.forall_mem_cons.mpr ⟨by simpa using hb, hblank⟩
    · rw [List.map_cons, List.zipWith_cons_cons, String.join_cons, hjoin, String.ofList_append,
        ← scan_append c cs, String.ofList_append, String.append_assoc]
      rfl

end Lexes

/-- **Tokens tile their source.** The last token of any source is the end of the input, and no other
one is. Every other token takes up a piece of the source; the pieces stand one behind the other, each
starts and ends between characters, and each is the text of its token. Between the pieces and in
front of them there are only spaces, tabs, carriage returns and line feeds, and together with these
they are the source. -/
theorem tokenize_tiles (source : String) :
    (∃ words : List Token,
      (tokenize source).1 = words ++ [⟨.endOfInput, "", .point source.utf8ByteSize⟩] ∧
      ∀ t ∈ words, t.kind ≠ .endOfInput ∧ t.span.start < t.span.stop) ∧
    ((tokenize source).1.Pairwise fun a b => a.span.stop ≤ b.span.start) ∧
    (∀ t ∈ (tokenize source).1,
      (⟨t.span.start⟩ : String.Pos.Raw).IsValid source ∧
      (⟨t.span.stop⟩ : String.Pos.Raw).IsValid source ∧
      t.span.textIn? source = some t.text) ∧
    ∃ texts : List String,
      (gaps 0 (tokenize source).1).map (·.textIn? source) = texts.map some ∧
      (∀ g ∈ texts, ∀ c ∈ g.toList, c ∈ [' ', '\t', '\r', '\n']) ∧
      String.join (List.zipWith (· ++ ·) texts ((tokenize source).1.map Token.text)) = source := by
  have run := tokenize_lexes source
  have hlen : byteLength source.toList = source.utf8ByteSize := by
    rw [← utf8ByteSize_ofList, String.ofList_toList]
  refine ⟨?_, run.pairwise, ?_, ?_⟩
  · have h := run.exists_words
    rwa [hlen, Nat.zero_add] at h
  · intro t ht
    have h := run.textIn?_span [] rfl t ht
    rw [List.nil_append, String.ofList_toList] at h
    obtain ⟨hstart, hstop⟩ := Span.isValid_of_textIn? h
    exact ⟨hstart, hstop, h⟩
  · obtain ⟨texts, hgaps, hblank, hjoin⟩ := run.join_gaps [] rfl
    rw [List.nil_append, String.ofList_toList] at hgaps
    rw [String.ofList_toList] at hjoin
    refine ⟨texts, hgaps, fun g hg c hc => ?_, hjoin⟩
    simpa [isBlank, or_assoc] using hblank g hg c hc

end PolyLet
