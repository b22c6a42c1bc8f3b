import Mathlib.Data.List.TakeWhile
import PolyLet.Token.Lexer

/-!
# Runs of the lexer

What a lexer goes through on its way to the end of a text: blanks, a token, blanks, a token, and
after the last blanks the end of the input. The relation `Lexes` writes such a run down without the
state of the lexer. Every text has exactly one run, and it is the one that the lexer makes, so facts
about the tokens of a source are proved by induction on its run.

## Main definitions

* `Scanned.tokenAt start s`, `Scanned.errorsAt start s`: the token that was scanned at a place, and
  its error if it has one
* `Lexes start text tokens errors`: the run on a text that starts at the byte `start`

## Main results

* `Lexes.blanks`: blanks in front of a text do not change how it is read
* `Lexes.readAll_eq`: the lexer follows the run
* `exists_lexes`: every text has a run
* `tokenize_lexes`, `lex_eq_ok_iff`: what a whole source is read into
-/

namespace PolyLet

/-! ## Byte lengths -/

@[simp] theorem byteLength_nil : byteLength [] = 0 :=
  rfl

@[simp] theorem byteLength_cons (c : Char) (cs : List Char) :
    byteLength (c :: cs) = c.utf8Size + byteLength cs :=
  rfl

@[simp] theorem byteLength_append (as bs : List Char) :
    byteLength (as ++ bs) = byteLength as + byteLength bs := by
  induction as with
  | nil => simp
  | cons a as ih => simp [ih, Nat.add_assoc]

theorem byteLength_pos {cs : List Char} (h : cs ≠ []) : 0 < byteLength cs := by
  cases cs with
  | nil => exact absurd rfl h
  | cons c cs => exact Nat.add_pos_left c.utf8Size_pos _

theorem utf8ByteSize_ofList (cs : List Char) : (String.ofList cs).utf8ByteSize = byteLength cs := by
  induction cs with
  | nil => rfl
  | cons c cs ih =>
    rw [← List.singleton_append, String.ofList_append, String.utf8ByteSize_append, ih]
    exact congrArg (· + byteLength cs) String.utf8ByteSize_singleton

theorem byteLength_toList (s : String) : byteLength s.toList = s.utf8ByteSize := by
  rw [← utf8ByteSize_ofList, String.ofList_toList]

/-! ## The run on a text -/

/-- Where the text that was scanned stands, if scanning began at the byte `start`. -/
def Scanned.spanAt (start : Nat) (s : Scanned) : Span :=
  ⟨start, start + byteLength s.text⟩

/-- The token that was scanned at the byte `start`. -/
def Scanned.tokenAt (start : Nat) (s : Scanned) : Token :=
  ⟨s.kind, String.ofList s.text, s.spanAt start⟩

/-- The error of the token that was scanned at the byte `start`, if it is invalid. -/
def Scanned.errorsAt (start : Nat) (s : Scanned) : List LexError :=
  (s.fault?.map (⟨·, s.spanAt start⟩)).toList

/-- The token at the end of a source of the given length. -/
def endToken (stop : Nat) : Token :=
  ⟨.endOfInput, "", .point stop⟩

/-- The run of a lexer on a text that starts at the byte `start`: the tokens and the errors. -/
inductive Lexes : Nat → List Char → List Token → List LexError → Prop
  | done {start : Nat} {blanks : List Char} (hb : ∀ b ∈ blanks, isBlank b = true) :
      Lexes start blanks [endToken (start + byteLength blanks)] []
  | token {start : Nat} {blanks : List Char} {c : Char} {cs : List Char} {ts : List Token}
      {errors : List LexError} (hb : ∀ b ∈ blanks, isBlank b = true) (hc : isBlank c = false)
      (run : Lexes (start + byteLength blanks + byteLength (scan c cs).text) (scan c cs).rest ts
        errors) :
      Lexes start (blanks ++ c :: cs) ((scan c cs).tokenAt (start + byteLength blanks) :: ts)
        ((scan c cs).errorsAt (start + byteLength blanks) ++ errors)

/-- Blanks in front of a text do not change how it is read. -/
theorem Lexes.blanks {start : Nat} {bs cs : List Char} {ts : List Token} {errors : List LexError}
    (h : Lexes (start + byteLength bs) cs ts errors) (hbs : ∀ b ∈ bs, isBlank b = true) :
    Lexes start (bs ++ cs) ts errors := by
  cases h with
  | done hb =>
    have run := @Lexes.done start (bs ++ cs) (List.forall_mem_append.mpr ⟨hbs, hb⟩)
    rwa [byteLength_append, ← Nat.add_assoc] at run
  | @token _ blanks c cs ts errors hb hc run =>
    -- more blanks in front of the first token
    have hstart : start + byteLength bs + byteLength blanks = start + byteLength (bs ++ blanks) := by
      rw [byteLength_append, Nat.add_assoc]
    rw [hstart] at run ⊢
    rw [← List.append_assoc]
    exact .token (List.forall_mem_append.mpr ⟨hbs, hb⟩) hc run

/-! ## The lexer follows the run -/

namespace Lexer

theorem next_blanks {start : Nat} {blanks : List Char} {errors : List LexError}
    (hb : ∀ b ∈ blanks, isBlank b = true) :
    (⟨start, blanks, errors, false⟩ : Lexer).next =
      (some (endToken (start + byteLength blanks)),
        ⟨start + byteLength blanks, [], errors, true⟩) := by
  have hd : blanks.dropWhile isBlank = [] := List.dropWhile_eq_nil_iff.mpr hb
  have ht : blanks.takeWhile isBlank = blanks := List.takeWhile_eq_self_iff.mpr hb
  simp only [next, hd, ht, endToken, Bool.false_eq_true, if_false]

theorem next_token {start : Nat} {blanks : List Char} {c : Char} {cs : List Char}
    {errors : List LexError} (hb : ∀ b ∈ blanks, isBlank b = true) (hc : isBlank c = false) :
    (⟨start, blanks ++ c :: cs, errors, false⟩ : Lexer).next =
      (some ((scan c cs).tokenAt (start + byteLength blanks)),
        ⟨start + byteLength blanks + byteLength (scan c cs).text, (scan c cs).rest,
          errors ++ (scan c cs).errorsAt (start + byteLength blanks), false⟩) := by
  have hd : (blanks ++ c :: cs).dropWhile isBlank = c :: cs := by
    rw [List.dropWhile_append_of_pos hb, List.dropWhile_cons_of_neg (by simp [hc])]
  have ht : (blanks ++ c :: cs).takeWhile isBlank = blanks := by
    rw [List.takeWhile_append_of_pos hb, List.takeWhile_cons_of_neg (by simp [hc]),
      List.append_nil]
  simp only [next, hd, ht, Bool.false_eq_true, if_false]
  rfl

theorem readAll_of_next {l l' : Lexer} {t : Token} (h : l.next = (some t, l')) :
    l.readAll = (t :: l'.readAll.1, l'.readAll.2) := by
  rw [readAll]
  split
  next h' => simp [h] at h'
  next t' l'' h' =>
    obtain ⟨ht, rfl⟩ := Prod.mk.inj (h.symm.trans h')
    rw [Option.some.inj ht]

theorem readAll_of_finished {l : Lexer} (h : l.finished = true) : l.readAll = ([], l) := by
  have hn : l.next = (none, l) := by simp [next, h]
  rw [readAll]
  split
  next l' h' => rw [(Prod.mk.inj (hn.symm.trans h')).2]
  next h' => simp [hn] at h'

end Lexer

/-- **The lexer follows the run** and has then reached the end of the text. -/
theorem Lexes.readAll_eq {start : Nat} {cs : List Char} {ts : List Token} {errors : List LexError}
    (h : Lexes start cs ts errors) (before : List LexError) :
    (⟨start, cs, before, false⟩ : Lexer).readAll =
      (ts, ⟨start + byteLength cs, [], before ++ errors, true⟩) := by
  induction h generalizing before with
  | done hb =>
    rw [Lexer.readAll_of_next (Lexer.next_blanks hb), Lexer.readAll_of_finished rfl,
      List.append_nil]
  | @token start blanks c cs ts errors hb hc run ih =>
    have hlen : byteLength (c :: cs) =
        byteLength (scan c cs).text + byteLength (scan c cs).rest := by
      rw [← byteLength_append, scan_append]
    rw [Lexer.readAll_of_next (Lexer.next_token hb hc), ih, byteLength_append, hlen]
    simp only [List.append_assoc, Nat.add_assoc]

/-- A text is empty but for blanks, or a token begins behind its first blanks. -/
theorem blanks_or_token (cs : List Char) :
    (∀ c ∈ cs, isBlank c = true) ∨
      ∃ blanks c rest, cs = blanks ++ c :: rest ∧ (∀ b ∈ blanks, isBlank b = true) ∧
        isBlank c = false := by
  induction cs with
  | nil => exact .inl nofun
  | cons a as ih =>
    cases ha : isBlank a with
    | false => exact .inr ⟨[], a, as, rfl, nofun, ha⟩
    | true =>
      rcases ih with h | ⟨blanks, c, rest, rfl, hb, hc⟩
      · exact .inl (List.forall_mem_cons.mpr ⟨ha, h⟩)
      · exact .inr ⟨a :: blanks, c, rest, rfl, List.forall_mem_cons.mpr ⟨ha, hb⟩, hc⟩

/-- Every text has a run, from wherever it starts. -/
theorem exists_lexes (start : Nat) (cs : List Char) : ∃ ts errors, Lexes start cs ts errors := by
  rcases blanks_or_token cs with hb | ⟨blanks, c, rest, hcs, hb, hc⟩
  · exact ⟨_, _, .done hb⟩
  · obtain ⟨ts, errors, run⟩ := exists_lexes
      (start + byteLength blanks + byteLength (scan c rest).text) (scan c rest).rest
    rw [hcs]
    exact ⟨_, _, .token hb hc run⟩
termination_by cs.length
decreasing_by
  have := scan_rest_length_lt c rest
  rw [hcs, List.length_append]
  omega

theorem tokenize_eq_iff {source : String} {ts : List Token} {errors : List LexError} :
    tokenize source = (ts, errors) ↔ Lexes 0 source.toList ts errors := by
  have eq_of_lexes {ts errors} (h : Lexes 0 source.toList ts errors) :
      tokenize source = (ts, errors) := by
    simp only [tokenize, Lexer.ofSource, h.readAll_eq, List.nil_append]
  refine ⟨fun h => ?_, eq_of_lexes⟩
  obtain ⟨ts', errors', h'⟩ := exists_lexes 0 source.toList
  obtain ⟨rfl, rfl⟩ := Prod.mk.inj (h.symm.trans (eq_of_lexes h'))
  exact h'

/-- The tokens and the errors of a source are those of its run. -/
theorem tokenize_lexes (source : String) :
    Lexes 0 source.toList (tokenize source).1 (tokenize source).2 :=
  tokenize_eq_iff.mp rfl

/-- A source is read into tokens without error if its run has no error. -/
theorem lex_eq_ok_iff {source : String} {ts : List Token} :
    lex source = .ok ts ↔ Lexes 0 source.toList ts [] := by
  rw [← tokenize_eq_iff, lex]
  rcases tokenize source with ⟨ts', _ | ⟨error, errors⟩⟩
  · simp
  · simp

end PolyLet
