import Mathlib.Data.Nat.Digits.Defs
import PolyLet.Proofs.Lexing.Separation
import PolyLet.Proofs.Parsing.Faithful

/-!
# Integer literals are exact

A run of digits at the start of a token is an integer literal if its decimal value is at most the
largest integer, with as many zeros in front as there are, and an error otherwise. So the text of an
integer token can always be converted: a conversion that goes from digit to digit and gives up when
a product or a sum leaves the range comes to the decimal value. Every integer of a program is the
value of the one token that its place comes down to when the parentheses around it are left out.

## Main definitions

* `placeValue digits`: the sum of the digits times their powers of ten
* `int64OfDigits? digits`: the conversion of digits to an integer, with overflow detected
* `IsDigitRun source start digits`: a run of digits that no digit follows, from the byte `start` on
* `IsLiteral ks v`: the tokens are an integer literal of the value `v` in parentheses

## Main results

* `decimalValue_eq_placeValue`: digits are read by their place values
* `int64OfDigits?_eq_some_iff`: the conversion is exact
* `IsDigitRun.token_cases`: the token and the error at a run of digits
* `ExprAt.isLiteral`: the tokens of an integer node
* `integer_literals_exact`: what is said above, for every source
-/

namespace PolyLet

/-! ## Decimal values -/

/-- The value of a digit. -/
def digitValue (c : Char) : Nat :=
  c.toNat - '0'.toNat

/-- The number that the digits stand for by their places: each times a power of ten. -/
def placeValue (digits : List Char) : Nat :=
  Nat.ofDigits 10 (digits.reverse.map digitValue)

theorem decimalValue_eq_placeValue (digits : List Char) :
    decimalValue digits = placeValue digits := by
  induction digits using List.reverseRecOn with
  | nil => rfl
  | append_singleton digits c ih =>
    rw [decimalValue, List.foldl_append, placeValue, List.reverse_concat, List.map_cons,
      Nat.ofDigits_cons, Nat.add_comm, ← placeValue, ← ih]
    rfl

/-! ## Conversion with overflow detection -/

/-- The integer of the given value, if there is one. -/
def int64? (n : Int) : Option Int64 :=
  if Int64.minValue.toInt ≤ n ∧ n ≤ Int64.maxValue.toInt then some (.ofInt n) else none

/-- The number with one more digit. There is none if the product or the sum leaves the range. -/
def appendDigit? (n : Int64) (c : Char) : Option Int64 :=
  if c.isDigit then (int64? (10 * n.toInt)).bind fun m => int64? (m.toInt + digitValue c) else none

/-- The integer that is written by the digits. -/
def int64OfDigits? (digits : List Char) : Option Int64 :=
  if digits = [] then none else digits.foldlM appendDigit? 0

theorem int64?_eq_some_iff {n : Int} {v : Int64} : int64? n = some v ↔ v.toInt = n := by
  have hmin : Int64.minValue.toInt = -9223372036854775808 := rfl
  have hmax : Int64.maxValue.toInt = 9223372036854775807 := rfl
  rw [int64?, hmin, hmax]
  constructor
  · intro h
    split at h
    next hn =>
      rw [← Option.some.inj h, Int64.toInt_ofInt_of_le (by omega) (by omega)]
    next => cases h
  · rintro rfl
    have hle := v.le_toInt
    have hlt := v.toInt_lt
    rw [if_pos ⟨by omega, by omega⟩, Int64.ofInt_toInt]

theorem appendDigit?_eq_some_iff {n m : Int64} {c : Char} (hn : 0 ≤ n.toInt) :
    appendDigit? n c = some m ↔ c.isDigit = true ∧ m.toInt = 10 * n.toInt + digitValue c := by
  rw [appendDigit?]
  split
  next hc =>
    simp only [Option.bind_eq_some_iff, int64?_eq_some_iff, hc, true_and]
    constructor
    · rintro ⟨k, hk, hm⟩
      rw [hm, hk]
    · intro hm
      -- the product is below the sum, so it is in range too
      have hlt := m.toInt_lt
      refine ⟨.ofInt (10 * n.toInt), ?_, ?_⟩
      · exact Int64.toInt_ofInt_of_le (by omega) (by omega)
      · rw [hm, Int64.toInt_ofInt_of_le (by omega) (by omega)]
  next hc => exact iff_of_false (fun h => by cases h) fun h => hc h.1

theorem le_foldl_digits (n : Nat) (digits : List Char) :
    n ≤ digits.foldl (fun n c => 10 * n + digitValue c) n := by
  induction digits generalizing n with
  | nil => exact Nat.le_refl n
  | cons c digits ih =>
    have h := ih (10 * n + digitValue c)
    rw [List.foldl_cons]
    omega

theorem foldlM_appendDigit?_eq_some_iff {n v : Int64} {k : Nat} (hn : n.toInt = k)
    (digits : List Char) :
    digits.foldlM appendDigit? n = some v ↔ (∀ c ∈ digits, c.isDigit = true) ∧
      v.toInt = digits.foldl (fun n c => 10 * n + digitValue c) k := by
  induction digits generalizing n k with
  | nil =>
    constructor
    · intro h
      rw [← Option.some.inj h]
      exact ⟨List.forall_mem_nil _, hn⟩
    · rintro ⟨-, hv⟩
      exact congrArg some (Int64.toInt_inj.mp (hn.trans hv.symm))
  | cons c digits ih =>
    have hnonneg : 0 ≤ n.toInt := by omega
    have hcast : ((10 * k + digitValue c : Nat) : Int) = 10 * n.toInt + digitValue c := by
      rw [hn, Int.natCast_add, Int.natCast_mul]
      rfl
    rw [List.foldlM_cons, List.foldl_cons, List.forall_mem_cons]
    constructor
    · intro h
      obtain ⟨m, hm, hrest⟩ := Option.bind_eq_some_iff.mp h
      obtain ⟨hc, hm⟩ := (appendDigit?_eq_some_iff hnonneg).mp hm
      obtain ⟨hdigits, hv⟩ := (ih (hm.trans hcast.symm)).mp hrest
      exact ⟨⟨hc, hdigits⟩, hv⟩
    · rintro ⟨⟨hc, hdigits⟩, hv⟩
      -- what the digits come to is in range, so no number before it leaves the range
      have hle := le_foldl_digits (10 * k + digitValue c) digits
      have hlt := v.toInt_lt
      have hm : (Int64.ofNat (10 * k + digitValue c)).toInt = (10 * k + digitValue c : Nat) :=
        Int64.toInt_ofNat_of_lt (by omega)
      exact Option.bind_eq_some_iff.mpr ⟨_, (appendDigit?_eq_some_iff hnonneg).mpr
        ⟨hc, hm.trans hcast⟩, (ih hm).mpr ⟨hdigits, hv⟩⟩

/-- **The conversion is exact.** It gives the integer of the decimal value, and none if there is no
such integer. -/
theorem int64OfDigits?_eq_some_iff {digits : List Char} {v : Int64} :
    int64OfDigits? digits = some v ↔ digits ≠ [] ∧ (∀ c ∈ digits, c.isDigit = true) ∧
      v.toInt = placeValue digits := by
  rw [int64OfDigits?, ← decimalValue_eq_placeValue]
  split
  next h => exact iff_of_false (fun h => by cases h) fun hne => hne.1 h
  next h => exact (foldlM_appendDigit?_eq_some_iff rfl digits).trans (and_iff_right h).symm

/-! ## Runs of digits -/

/-- From the byte `start` on, the source has the digits, and no digit follows them. -/
structure IsDigitRun (source : String) (start : Nat) (digits : List Char) : Prop where
  exists_append : ∃ before after, source.toList = before ++ (digits ++ after) ∧
    byteLength before = start ∧ after.head?.any Char.isDigit = false
  ne_nil : digits ≠ []
  isDigit : ∀ c ∈ digits, c.isDigit = true

/-- Texts that go on behind the same number of bytes go on in the same way. -/
theorem append_inj_of_byteLength {as bs cs ds : List Char} (h : as ++ bs = cs ++ ds)
    (hlen : byteLength as = byteLength cs) : bs = ds := by
  induction as generalizing cs with
  | nil =>
    cases cs with
    | nil => exact h
    | cons c cs => exact absurd hlen.symm (byteLength_pos (List.cons_ne_nil c cs)).ne'
  | cons a as ih =>
    cases cs with
    | nil => exact absurd hlen (byteLength_pos (List.cons_ne_nil a as)).ne'
    | cons c cs =>
      obtain ⟨rfl, htail⟩ := List.cons.inj h
      exact ih htail (Nat.add_left_cancel hlen)

/-- A run of digits is scanned as a whole. -/
theorem scanNumber_append_of_isDigit {digits after : List Char}
    (hdigits : ∀ c ∈ digits, c.isDigit = true) (hafter : after.head?.any Char.isDigit = false) :
    scanNumber (digits ++ after) =
      if decimalValue digits ≤ maxInteger then ⟨.integer, digits, after, none⟩
      else .invalid (.invalidNumberLiteral (String.ofList digits)) digits after := by
  obtain ⟨htake, hdrop⟩ := takeWhile_append_of_head hdigits hafter
  rw [scanNumber, htake, hdrop]

theorem scanNumber_text (cs : List Char) : (scanNumber cs).text = cs.takeWhile Char.isDigit := by
  simp only [scanNumber]
  split <;> rfl

variable {source : String} {start : Nat} {digits : List Char} {t : Token}

/-- **The token at a run of digits** is an integer literal without error, or one that is too
large. -/
theorem IsDigitRun.token_cases (hrun : IsDigitRun source start digits)
    (ht : t ∈ (tokenize source).1) (hstart : t.span.start = start) :
    (decimalValue digits ≤ maxInteger ∧
      t = ⟨.integer, String.ofList digits, ⟨start, start + byteLength digits⟩⟩ ∧
      (tokenize source).2.filter (·.span = ⟨start, start + byteLength digits⟩) = []) ∨
    (maxInteger < decimalValue digits ∧
      t = ⟨.invalid, String.ofList digits, ⟨start, start + byteLength digits⟩⟩ ∧
      (tokenize source).2.filter (·.span = ⟨start, start + byteLength digits⟩) =
        [⟨.invalidNumberLiteral (String.ofList digits), ⟨start, start + byteLength digits⟩⟩]) := by
  obtain ⟨before, after, hsource, hbefore, hafter⟩ := hrun.exists_append
  have hne : t.kind ≠ .endOfInput := by
    -- the end of the input is behind the digits
    intro hend
    obtain ⟨words, hwords, hkinds⟩ := (tokenize_lexes source).exists_words
    rw [hwords] at ht
    rcases List.mem_append.mp ht with ht | ht
    · exact (hkinds t ht).1 hend
    · have hpos := byteLength_pos hrun.ne_nil
      rw [List.mem_singleton.mp ht, hsource, byteLength_append, byteLength_append, hbefore]
        at hstart
      simp only [endToken, Span.point] at hstart
      omega
  obtain ⟨before', c, cs, hsource', hbefore', -, hscan, herrors⟩ :=
    (tokenize_lexes source).exists_scan_at ht hne
  have hrest : digits ++ after = c :: cs :=
    append_inj_of_byteLength (hsource.symm.trans hsource') (by omega)
  have hc : c.isDigit = true := by
    obtain ⟨d, ds, rfl⟩ := List.exists_cons_of_ne_nil hrun.ne_nil
    rw [← (List.cons.inj hrest).1]
    exact hrun.isDigit d List.mem_cons_self
  rw [scan_of_isDigit hc, ← hrest, scanNumber_append_of_isDigit hrun.isDigit hafter, hstart]
    at hscan herrors
  by_cases hle : decimalValue digits ≤ maxInteger
  · rw [if_pos hle] at hscan herrors
    rw [hscan] at herrors
    exact .inl ⟨hle, hscan, herrors⟩
  · rw [if_neg hle] at hscan herrors
    rw [hscan] at herrors
    exact .inr ⟨Nat.lt_of_not_le hle, hscan, herrors⟩

/-- An integer token is a run of digits that is not too large. -/
theorem isDigitRun_of_integer (ht : t ∈ (tokenize source).1) (hkind : t.kind = .integer) :
    IsDigitRun source t.span.start t.text.toList ∧ decimalValue t.text.toList ≤ maxInteger := by
  obtain ⟨before, c, cs, hsource, hbefore, -, hscan, -⟩ :=
    (tokenize_lexes source).exists_scan_at ht (by rw [hkind]; decide)
  have hkind' : (scan c cs).kind = .integer := (congrArg Token.kind hscan).symm.trans hkind
  have hc := isDigit_of_scan hkind'
  have htext : t.text.toList = (scan c cs).text := by
    rw [congrArg Token.text hscan]
    exact String.toList_ofList
  refine ⟨?_, htext ▸ decimalValue_le_of_scan hkind'⟩
  rw [htext, scan_of_isDigit hc, scanNumber_text]
  refine ⟨⟨before, (c :: cs).dropWhile Char.isDigit, ?_, by omega, ?_⟩, ?_, fun d hd => ?_⟩
  · rw [List.takeWhile_append_dropWhile, hsource]
  · have hhead := List.head?_dropWhile_not Char.isDigit (c :: cs)
    cases hrest : ((c :: cs).dropWhile Char.isDigit).head? with
    | none => rfl
    | some d =>
      rw [hrest] at hhead
      exact hhead
  · rw [List.takeWhile_cons_of_pos hc]
    exact List.cons_ne_nil _ _
  · exact List.mem_takeWhile_imp hd

/-! ## Integer nodes -/

/-- The tokens are an integer literal of the given value, in any number of parentheses. -/
def IsLiteral (ks : List Token) (v : Int64) : Prop :=
  ∃ opens t closes, ks = opens ++ t :: closes ∧ opens.length = closes.length ∧
    (∀ o ∈ opens, o.kind = .openParen) ∧ (∀ c ∈ closes, c.kind = .closeParen) ∧
    t.kind = .integer ∧ v = literalValue t.text

theorem IsLiteral.parens {ks : List Token} {v : Int64} {o c : Token} (h : IsLiteral ks v)
    (ho : o.kind = .openParen) (hc : c.kind = .closeParen) : IsLiteral (o :: (ks ++ [c])) v := by
  obtain ⟨opens, t, closes, rfl, hlen, hopens, hcloses, ht, hv⟩ := h
  refine ⟨o :: opens, t, closes ++ [c], by simp, by simp [hlen],
    List.forall_mem_cons.mpr ⟨ho, hopens⟩,
    List.forall_mem_append.mpr ⟨hcloses, List.forall_mem_singleton.mpr hc⟩, ht, hv⟩

theorem exists_eq_int_of_ofParens {s s' : Span} {e : Expr} {es : List Expr} {v : Int64}
    (h : ofParens s (e :: es) = .int s' v) : es = [] ∧ ∃ s'', e = .int s'' v := by
  cases es with
  | cons e' es => cases h
  | nil =>
    cases e with
    | int s'' v' =>
      obtain ⟨-, rfl⟩ := Expr.int.inj h
      exact ⟨rfl, s'', rfl⟩
    | _ => cases h

mutual

/-- **The tokens of an integer node** are a literal in parentheses. -/
theorem ExprAt.isLiteral {ks : List Token} {e : Expr} {s : Span} {v : Int64} :
    ExprAt ks e → e = .int s v → IsLiteral ks v
  | .block h, he => by
    subst he
    cases h
  | .atoms h, he => h.isLiteral he
  | .atomsBlock _ _ _, he => by cases he

theorem AtomsAt.isLiteral {ks : List Token} {e : Expr} {s : Span} {v : Int64} :
    AtomsAt ks e → e = .int s v → IsLiteral ks v
  | .one h, he => h.isLiteral he
  | .app _ _ _, he => by cases he

theorem AtomAt.isLiteral {ks : List Token} {e : Expr} {s : Span} {v : Int64} :
    AtomAt ks e → e = .int s v → IsLiteral ks v
  | @AtomAt.int t ht, he => by
    obtain ⟨-, rfl⟩ := Expr.int.inj he
    exact ⟨[], t, [], rfl, rfl, List.forall_mem_nil _, List.forall_mem_nil _, ht, rfl⟩
  | .boolTrue _, he | .boolFalse _, he | .name _, he | .unit _ _ _, he => by cases he
  | @AtomAt.parens o c ks ls _ e es ho hexpr hes hc _, he => by
    obtain ⟨rfl, s', he'⟩ := exists_eq_int_of_ofParens he
    cases hes
    exact (hexpr.isLiteral he').parens ho hc

end

theorem Placed.isLiteral {ks : List Token} {s : Span} {v : Int64} (h : Placed ks (.int s v)) :
    ∃ ls, ls <:+: ks ∧ Covers ls s ∧ IsLiteral ls v := by
  rcases h with ⟨ls, hls, h⟩ | ⟨_, _, _, _, _, _, -, -, -, h, -, -⟩
  · exact ⟨ls, hls, h.covers, h.isLiteral rfl⟩
  · -- a `let` makes functions only
    cases h

/-! ## The main result -/

/-- The text of an integer token is converted to its value. -/
theorem int64OfDigits?_of_integer (ht : t ∈ (tokenize source).1) (hkind : t.kind = .integer) :
    int64OfDigits? t.text.toList = some (literalValue t.text) := by
  obtain ⟨hrun, hmax⟩ := isDigitRun_of_integer ht hkind
  refine int64OfDigits?_eq_some_iff.mpr ⟨hrun.ne_nil, hrun.isDigit, ?_⟩
  rw [← decimalValue_eq_placeValue]
  exact Int64.toInt_ofNat_of_lt (Nat.lt_succ_of_le hmax)

/-- **Integer literals are exact up to the largest integer.** Where a token of a source starts with
digits, as many as there are, the source has an integer token of these digits if and only if their
decimal value, which zeros in front do not change, is at most the largest integer, and the error for
a wrong literal otherwise. Every integer token is such a run of digits, and the conversion of its
text succeeds. If the source is a program, then each of its integer nodes stands at one integer
token and as many parentheses before it as behind it, and holds the result of that conversion, which
is the decimal value of the token. -/
theorem integer_literals_exact (source : String) :
    (∀ start digits, IsDigitRun source start digits →
      (∃ t ∈ (tokenize source).1, t.span.start = start) →
      (⟨.integer, String.ofList digits, ⟨start, start + byteLength digits⟩⟩ ∈ (tokenize source).1 ↔
        placeValue digits ≤ 2 ^ 63 - 1) ∧
      (⟨.invalidNumberLiteral (String.ofList digits), ⟨start, start + byteLength digits⟩⟩ ∈
        (tokenize source).2 ↔ 2 ^ 63 - 1 < placeValue digits)) ∧
    (∀ t ∈ (tokenize source).1, t.kind = .integer →
      IsDigitRun source t.span.start t.text.toList ∧
      int64OfDigits? t.text.toList = some (literalValue t.text)) ∧
    ∀ e, parse source = .ok e → ∃ tokens, lex source = .ok tokens ∧
      ∀ s v, IsNode (.int s v) e → ∃ opens t closes,
        opens ++ t :: closes <:+: significant tokens ∧ Covers (opens ++ t :: closes) s ∧
        opens.length = closes.length ∧ (∀ o ∈ opens, o.kind = .openParen) ∧
        (∀ c ∈ closes, c.kind = .closeParen) ∧ t.kind = .integer ∧
        int64OfDigits? t.text.toList = some v ∧ v.toInt = placeValue t.text.toList := by
  refine ⟨fun start digits hrun ⟨t, ht, hstart⟩ => ?_, fun t ht hkind => ?_, fun e he => ?_⟩
  · have hmax : 2 ^ 63 - 1 = maxInteger := rfl
    rw [← decimalValue_eq_placeValue, hmax]
    rcases hrun.token_cases ht hstart with ⟨hle, rfl, herrors⟩ | ⟨hlt, -, herrors⟩
    · refine ⟨iff_of_true ht hle, iff_of_false (fun hmem => ?_) (Nat.not_lt.mpr hle)⟩
      exact List.filter_eq_nil_iff.mp herrors _ hmem (decide_eq_true rfl)
    · refine ⟨iff_of_false (fun hmem => ?_) (Nat.not_le.mpr hlt), iff_of_true ?_ hlt⟩
      · have hle := (isDigitRun_of_integer hmem rfl).2
        rw [String.toList_ofList] at hle
        exact Nat.not_lt.mpr hle hlt
      · exact (List.mem_filter.mp (herrors ▸ List.mem_singleton_self _)).1
  · exact ⟨(isDigitRun_of_integer ht hkind).1, int64OfDigits?_of_integer ht hkind⟩
  · obtain ⟨tokens, hlex, hexpr⟩ := exists_exprAt_of_parse he
    refine ⟨tokens, hlex, fun s v hnode => ?_⟩
    obtain ⟨_, hls, hcovers, opens, t, closes, rfl, hlen, hopens, hcloses, ht, rfl⟩ :=
      (Placed.node hnode (.inl ⟨_, List.infix_rfl, hexpr⟩)).isLiteral
    have hmem : t ∈ (tokenize source).1 := by
      rw [tokenize_eq_iff.mpr (lex_eq_ok_iff.mp hlex)]
      exact List.mem_of_mem_filter (hls.subset (List.mem_append_right opens List.mem_cons_self))
    have hvalue := int64OfDigits?_of_integer hmem ht
    exact ⟨opens, t, closes, hls, hcovers, hlen, hopens, hcloses, ht, hvalue,
      (int64OfDigits?_eq_some_iff.mp hvalue).2.2⟩

/-- The largest integer is read with zeros in front of it, and its successor is an error. -/
theorem integer_literals_exact_limit :
    (⟨.integer, "009223372036854775807", ⟨0, 21⟩⟩ : Token) ∈ (tokenize "009223372036854775807").1 ∧
    (∃ v, parse "009223372036854775807" = .ok (.int ⟨0, 21⟩ v) ∧ v.toInt = 9223372036854775807) ∧
    (⟨.invalidNumberLiteral "9223372036854775808", ⟨0, 19⟩⟩ : LexError) ∈
      (tokenize "9223372036854775808").2 := by
  have hlex : lex "009223372036854775807" =
      .ok [⟨.integer, "009223372036854775807", ⟨0, 21⟩⟩, endToken 21] := by
    rw [lex_eq_ok_iff]
    exact @Lexes.token 0 [] '0' _ _ _ (List.forall_mem_nil _) rfl <|
      Lexes.done (List.forall_mem_nil _)
  have htokenize : tokenize "009223372036854775807" =
      ([⟨.integer, "009223372036854775807", ⟨0, 21⟩⟩, endToken 21], []) :=
    tokenize_eq_iff.mpr (lex_eq_ok_iff.mp hlex)
  have hparse : parse "009223372036854775807" =
      .ok (.int ⟨0, 21⟩ (literalValue "009223372036854775807")) := by
    have hatom : atomReader (.point 21) [⟨.integer, "009223372036854775807", ⟨0, 21⟩⟩] =
        .ok (.int ⟨0, 21⟩ (literalValue "009223372036854775807"), []) := by
      rw [atomReader_eq]
      rfl
    rw [parse_of_lex hlex, parseTokens_eq]
    show (exprReader (.point 21) [_] >>= _) = _
    rw [exprReader_of_not_startsBlock (by decide), Reader.bind_of_ok hatom, argsReader_eq]
    rfl
  have hlarge : tokenize "9223372036854775808" =
      ([⟨.invalid, "9223372036854775808", ⟨0, 19⟩⟩, endToken 19],
        [⟨.invalidNumberLiteral "9223372036854775808", ⟨0, 19⟩⟩]) :=
    tokenize_eq_iff.mpr <| @Lexes.token 0 [] '9' _ _ _ (List.forall_mem_nil _) rfl <|
      Lexes.done (List.forall_mem_nil _)
  obtain ⟨hruns, -, hnodes⟩ := integer_literals_exact "009223372036854775807"
  obtain ⟨hruns', -, -⟩ := integer_literals_exact "9223372036854775808"
  refine ⟨?_, ⟨_, hparse, ?_⟩, ?_⟩
  · refine (hruns 0 "009223372036854775807".toList ⟨⟨[], [], rfl, rfl, rfl⟩,
      List.isEmpty_eq_false_iff.mp rfl, List.all_eq_true.mp rfl⟩
      ⟨_, by rw [htokenize]; exact List.mem_cons_self, rfl⟩).1.mpr ?_
    rw [← decimalValue_eq_placeValue]
    decide
  · obtain ⟨tokens, hlex', hliterals⟩ := hnodes _ hparse
    obtain rfl := Except.ok.inj (hlex.symm.trans hlex')
    obtain ⟨opens, t, closes, hls, -, -, -, -, -, -, hvalue⟩ := hliterals _ _ .root
    have ht := hls.subset (List.mem_append_right opens List.mem_cons_self)
    obtain rfl : t = _ := List.mem_singleton.mp ht
    rw [hvalue, ← decimalValue_eq_placeValue]
    rfl
  · refine (hruns' 0 "9223372036854775808".toList ⟨⟨[], [], rfl, rfl, rfl⟩,
      List.isEmpty_eq_false_iff.mp rfl, List.all_eq_true.mp rfl⟩
      ⟨_, by rw [hlarge]; exact List.mem_cons_self, rfl⟩).2.mpr ?_
    rw [← decimalValue_eq_placeValue]
    decide

end PolyLet
