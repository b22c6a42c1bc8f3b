import PolyLet.Token
import PolyLet.Text.Alphabetic
import PolyLet.Text.Numeric

/-!
# From text to tokens

A lexer reads one token at a time from the front of the text that is left. Blanks between tokens
are skipped. Text that is no token becomes an invalid token, its fault is recorded, and reading
goes on behind it, so that every source has a token list. The bytes read are counted without a
limit; a counter of 32 bits does not overflow on a source of fewer than `2 ^ 32` bytes.

## Main definitions

* `scan`: the first token of a text that starts with no blank
* `Lexer`, `Lexer.next`: the state of reading and one step of it
* `tokenize`: all tokens of a source and all errors
* `lex`: all tokens of a source without errors, or its first error

## Main results

* `scan_append`: a token and the text behind it are the text it was read from
* `Lexer.pending_next`: every token read brings the end of the source nearer
-/

namespace PolyLet

/-! ## Classes of characters -/

/-- The blanks between tokens: space, tab, carriage return and line feed. -/
def isBlank (c : Char) : Bool :=
  c = ' ' || c = '\t' || c = '\r' || c = '\n'

/-- Whether a name may start with the character. -/
def isNameStart (c : Char) : Bool :=
  isAlphabetic c || c = '_'

/-- Whether a name may go on with the character. -/
def isNameRest (c : Char) : Bool :=
  isAlphabetic c || isNumeric c || c = '_'

/-! ## Integer literals -/

/-- The largest integer literal. -/
def maxInteger : Nat :=
  Nat.pow 2 63 - 1

/-- The number that a run of decimal digits stands for. -/
def decimalValue (digits : List Char) : Nat :=
  digits.foldl (fun n c => 10 * n + (c.toNat - '0'.toNat)) 0

/-! ## The first token of a text -/

/-- A token read from the front of a text: its kind, its text, its fault if it is invalid, and the
text behind it. -/
structure Scanned where
  kind : TokenKind
  text : List Char
  rest : List Char
  fault? : Option LexFault := none
  deriving DecidableEq, Repr

/-- A piece of text that is no token. -/
def Scanned.invalid (fault : LexFault) (text rest : List Char) : Scanned :=
  ⟨.invalid, text, rest, some fault⟩

/-- Splits a text behind the first end of a block comment. -/
def splitBlockComment : List Char → Option (List Char × List Char)
  | [] => none
  | '-' :: '\x7d' :: rest => some (['-', '\x7d'], rest)
  | c :: cs => (splitBlockComment cs).map fun p => (c :: p.1, p.2)

/-- The token that starts with a dash, where `cs` follows the dash. -/
def scanDash (cs : List Char) : Scanned :=
  match cs with
  | '>' :: rest => ⟨.arrow, ['-', '>'], rest, none⟩
  | '-' :: _ => ⟨.lineComment, '-' :: cs.takeWhile (· ≠ '\n'), cs.dropWhile (· ≠ '\n'), none⟩
  | '\x7d' :: rest => .invalid .unmatchedBlockCommentClose ['-', '\x7d'] rest
  | _ => .invalid (.unexpectedCharacter '-') ['-'] cs

/-- The token that starts with an opening brace, where `cs` follows the brace: a block comment, if
a dash comes next. -/
def scanBrace (cs : List Char) : Scanned :=
  match cs with
  | '-' :: body =>
    match splitBlockComment body with
    | some (inner, rest) => ⟨.blockComment, '\x7b' :: '-' :: inner, rest, none⟩
    | none => .invalid .unterminatedBlockComment ('\x7b' :: cs) []
  | _ => .invalid (.unexpectedCharacter '\x7b') ['\x7b'] cs

/-- The integer literal at the front of a text that starts with a digit. -/
def scanNumber (cs : List Char) : Scanned :=
  let digits := cs.takeWhile Char.isDigit
  let rest := cs.dropWhile Char.isDigit
  if decimalValue digits ≤ maxInteger then ⟨.integer, digits, rest, none⟩
  else .invalid (.invalidNumberLiteral (String.ofList digits)) digits rest

/-- The keyword or name that starts with the character `c`, where `cs` follows it. -/
def scanWord (c : Char) (cs : List Char) : Scanned :=
  let word := c :: cs.takeWhile isNameRest
  ⟨(TokenKind.ofKeyword? (String.ofList word)).getD .name, word, cs.dropWhile isNameRest, none⟩

/-- The first token of the text `c :: cs`, where `c` is no blank. -/
def scan (c : Char) (cs : List Char) : Scanned :=
  if c = '(' then ⟨.openParen, [c], cs, none⟩
  else if c = ')' then ⟨.closeParen, [c], cs, none⟩
  else if c = ',' then ⟨.comma, [c], cs, none⟩
  else if c = '=' then ⟨.equals, [c], cs, none⟩
  else if c = '-' then scanDash cs
  else if c = '\x7b' then scanBrace cs
  else if c.isDigit then scanNumber (c :: cs)
  else if isNameStart c then scanWord c cs
  else .invalid (.unexpectedCharacter c) [c] cs

theorem splitBlockComment_append {cs inner rest : List Char}
    (h : splitBlockComment cs = some (inner, rest)) : inner ++ rest = cs := by
  fun_induction splitBlockComment cs generalizing inner with
  | case1 => simp at h
  | case2 r =>
    simp only [Option.some.injEq, Prod.mk.injEq] at h
    obtain ⟨rfl, rfl⟩ := h
    rfl
  | case3 c cs _ ih =>
    simp only [Option.map_eq_some_iff] at h
    obtain ⟨⟨p, q⟩, hp, heq⟩ := h
    simp only [Prod.mk.injEq] at heq
    obtain ⟨rfl, rfl⟩ := heq
    simp [ih hp]

theorem scanDash_append (cs : List Char) :
    (scanDash cs).text ++ (scanDash cs).rest = '-' :: cs := by
  unfold scanDash
  split <;> simp [Scanned.invalid]

theorem scanBrace_append (cs : List Char) :
    (scanBrace cs).text ++ (scanBrace cs).rest = '\x7b' :: cs := by
  unfold scanBrace
  split
  next body =>
    split
    next inner rest h => simp [splitBlockComment_append h]
    next => simp [Scanned.invalid]
  next => simp [Scanned.invalid]

theorem scanNumber_append (cs : List Char) :
    (scanNumber cs).text ++ (scanNumber cs).rest = cs := by
  simp only [scanNumber]
  split <;> simp [Scanned.invalid]

theorem scanWord_append (c : Char) (cs : List Char) :
    (scanWord c cs).text ++ (scanWord c cs).rest = c :: cs := by
  simp [scanWord]

/-- A token and the text behind it are the text it was read from. -/
theorem scan_append (c : Char) (cs : List Char) :
    (scan c cs).text ++ (scan c cs).rest = c :: cs := by
  unfold scan
  repeat' split
  iterate 4 next => rfl
  next h => rw [h, scanDash_append]
  next h => rw [h, scanBrace_append]
  next => exact scanNumber_append _
  next => exact scanWord_append c cs
  next => rfl

theorem scanDash_text_ne_nil (cs : List Char) : (scanDash cs).text ≠ [] := by
  unfold scanDash
  split <;> simp [Scanned.invalid]

theorem scanBrace_text_ne_nil (cs : List Char) : (scanBrace cs).text ≠ [] := by
  unfold scanBrace
  repeat' split
  all_goals simp [Scanned.invalid]

theorem scanNumber_text_ne_nil {c : Char} (h : c.isDigit = true) (cs : List Char) :
    (scanNumber (c :: cs)).text ≠ [] := by
  simp only [scanNumber, List.takeWhile_cons_of_pos h]
  split <;> simp [Scanned.invalid]

theorem scan_text_ne_nil (c : Char) (cs : List Char) : (scan c cs).text ≠ [] := by
  unfold scan
  repeat' split
  iterate 4 next => simp
  next => exact scanDash_text_ne_nil cs
  next => exact scanBrace_text_ne_nil cs
  next h => exact scanNumber_text_ne_nil h cs
  next => simp [scanWord]
  next => simp [Scanned.invalid]

/-- Reading a token leaves less text than there was. -/
theorem scan_rest_length_lt (c : Char) (cs : List Char) :
    (scan c cs).rest.length < (c :: cs).length := by
  rw [← scan_append c cs, List.length_append]
  have := List.length_pos_iff.mpr (scan_text_ne_nil c cs)
  omega

/-! ## The state of reading -/

/-- The number of bytes of a text. -/
def byteLength (cs : List Char) : Nat :=
  cs.foldr (fun c n => c.utf8Size + n) 0

/-- A lexer part of the way through a source: the bytes already read, the text still to read, the
errors met so far in their order, and whether the end of the input was already handed out. -/
structure Lexer where
  offset : Nat
  rest : List Char
  errors : List LexError
  finished : Bool
  deriving DecidableEq, Repr

namespace Lexer

/-- A lexer at the start of a source. -/
def ofSource (source : String) : Lexer :=
  ⟨0, source.toList, [], false⟩

/-- Reads one token. The end of the input is handed out once, as the last token; after it there is
none. -/
def next (l : Lexer) : Option Token × Lexer :=
  if l.finished then (none, l)
  else
    let start := l.offset + byteLength (l.rest.takeWhile isBlank)
    match l.rest.dropWhile isBlank with
    | [] => (some ⟨.endOfInput, "", .point start⟩, ⟨start, [], l.errors, true⟩)
    | c :: cs =>
      let s := scan c cs
      let span := ⟨start, start + byteLength s.text⟩
      (some ⟨s.kind, String.ofList s.text, span⟩,
        ⟨span.stop, s.rest, l.errors ++ (s.fault?.map (⟨·, span⟩)).toList, false⟩)

/-- A bound on the number of tokens still to come. -/
def pending (l : Lexer) : Nat :=
  if l.finished then 0 else l.rest.length + 1

/-- Every token read brings the end of the source nearer. -/
theorem pending_next {l l' : Lexer} {t : Token} (h : l.next = (some t, l')) :
    l'.pending < l.pending := by
  unfold next at h
  split at h
  next => simp at h
  next hf =>
    have hp : l.pending = l.rest.length + 1 := by simp [pending, hf]
    have hd : (l.rest.dropWhile isBlank).length ≤ l.rest.length :=
      (List.dropWhile_sublist isBlank).length_le
    simp only at h
    split at h
    -- only blanks were left: the lexer has finished
    next =>
      obtain ⟨-, rfl⟩ := Prod.mk.inj h
      rw [hp]
      simp [pending]
    -- a token was read: the rest is shorter
    next c cs heq =>
      obtain ⟨-, rfl⟩ := Prod.mk.inj h
      have := scan_rest_length_lt c cs
      rw [heq] at hd
      rw [hp]
      simp only [pending, Bool.false_eq_true, if_false]
      omega

/-- Reads the tokens that are left, up to the end of the input. -/
def readAll (l : Lexer) : List Token × Lexer :=
  match h : l.next with
  | (none, l') => ([], l')
  | (some t, l') =>
    have := pending_next h
    let (ts, last) := readAll l'
    (t :: ts, last)
termination_by l.pending

end Lexer

/-! ## Whole sources -/

/-- All tokens of a source, comments and invalid tokens included, and all its errors. The last
token is the end of the input. -/
def tokenize (source : String) : List Token × List LexError :=
  let (tokens, last) := (Lexer.ofSource source).readAll
  (tokens, last.errors)

/-- All tokens of a source without errors, or its first error. -/
def lex (source : String) : Except LexError (List Token) :=
  match tokenize source with
  | (tokens, []) => .ok tokens
  | (_, error :: _) => .error error

end PolyLet
