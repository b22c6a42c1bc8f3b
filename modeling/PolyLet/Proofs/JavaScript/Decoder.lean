import Mathlib.Data.List.Forall2
import PolyLet.Proofs.JavaScript.Names
import PolyLet.Proofs.Printing.Spelling

/-!
# A decoder for compiled expressions

Reads the JavaScript of an expression back. Most forms show by their first characters which one they
are. A function and a conditional may both start with two parentheses, so a function is tried first;
its pattern is read like an expression, since it is written like the expression of the same shape.
Calls are read from left to right, behind the expression that is called.

What a decoder does with a text is proved of its parts in turn: a decoder inverts a text to a value
if it takes just that text, for every text that may follow.

## Main definitions

* `Pattern.toExpr p`, `Expr.toPattern? e`: patterns as expressions, and back
* `JavaScript.Decoder`: computations on the characters that are left
* `JavaScript.decode? js`: the expression that the text is the JavaScript of
* `JavaScript.Inverts d t follow v`: the decoder `d` takes the text `t` and gives `v`
* `JavaScript.NoFunctionHead d cs`: no function starts with two parentheses and the text `cs`

## Main results

* `JavaScript.Inverts.bind`: decoders one after the other
* `JavaScript.Inverts.array`: the elements of an array
* `JavaScript.Decoder.expr_eq_none`: texts that do not start like an expression are refused
-/

namespace PolyLet

/-! ## Patterns as expressions -/

mutual

/-- The expression that builds what the pattern takes apart. -/
def Pattern.toExpr : Pattern → Expr
  | var x => .var {} x
  | tuple ps => .tuple {} (toExprAll ps)

/-- The expressions that build what the patterns of a list take apart. -/
def Pattern.toExprAll : List Pattern → List Expr
  | [] => []
  | p :: ps => p.toExpr :: toExprAll ps

end

mutual

/-- The pattern that takes apart what the expression builds, if it does so of names and tuples. -/
def Expr.toPattern? : Expr → Option Pattern
  | var _ x => some (.var x)
  | tuple _ es => (toPatternAll? es).map .tuple
  | _ => none

/-- The patterns that take apart what the expressions of a list build. -/
def Expr.toPatternAll? : List Expr → Option (List Pattern)
  | [] => some []
  | e :: es => do
    let p ← e.toPattern?
    let ps ← toPatternAll? es
    return p :: ps

end

mutual

theorem Pattern.toPattern?_toExpr : (p : Pattern) → p.toExpr.toPattern? = some p
  | .var _ => rfl
  | .tuple ps => by rw [toExpr, Expr.toPattern?, toPatternAll?_toExprAll ps, Option.map_some]

theorem Pattern.toPatternAll?_toExprAll : (ps : List Pattern) →
    Expr.toPatternAll? (toExprAll ps) = some ps
  | [] => rfl
  | p :: ps => by
    rw [toExprAll, Expr.toPatternAll?, p.toPattern?_toExpr, toPatternAll?_toExprAll ps]
    rfl

end

mutual

/-- A pattern is written like the expression. -/
theorem Pattern.toJavaScript_toExpr : (p : Pattern) → p.toExpr.toJavaScript = p.toJavaScript
  | .var _ => rfl
  | .tuple ps => congrArg (fun ts => "[" ++ ", ".intercalate ts ++ "]") (toJavaScriptAll_toExprAll ps)

theorem Pattern.toJavaScriptAll_toExprAll : (ps : List Pattern) →
    Expr.toJavaScriptAll (toExprAll ps) = toJavaScriptAll ps
  | [] => rfl
  | p :: ps => congrArg₂ List.cons p.toJavaScript_toExpr (toJavaScriptAll_toExprAll ps)

end

mutual

theorem Pattern.unlocated_toExpr : (p : Pattern) → p.toExpr.unlocated = p.toExpr
  | .var _ => rfl
  | .tuple ps => by rw [toExpr, Expr.unlocated, unlocatedAll_toExprAll ps]

theorem Pattern.unlocatedAll_toExprAll : (ps : List Pattern) →
    Expr.unlocatedAll (toExprAll ps) = toExprAll ps
  | [] => rfl
  | p :: ps => by
    rw [toExprAll, Expr.unlocatedAll, p.unlocated_toExpr, unlocatedAll_toExprAll ps]

end

/-! ## Decoders -/

namespace JavaScript

/-- Computations that take characters from a text and may fail. -/
abbrev Decoder :=
  StateT (List Char) Option

variable {α β : Type} {n : Nat}

namespace Decoder

/-- The next character. -/
def peek : Decoder (Option Char) :=
  fun cs => some (cs.head?, cs)

/-- Takes the given text. -/
def text (s : String) : Decoder Unit :=
  fun cs => if s.toList <+: cs then some ((), cs.drop s.toList.length) else none

/-- Takes a word. -/
def word : Decoder String :=
  fun cs =>
    if cs.takeWhile isWordChar = [] then none
    else some (String.ofList (cs.takeWhile isWordChar), cs.dropWhile isWordChar)

/-- Takes the elements of an array after the first one, and the bracket behind them. -/
def tail (d : Decoder α) : Nat → Decoder (List α)
  | 0 => failure
  | n + 1 => do
    let c ← peek
    if c = some ',' then
      text ", "
      let a ← d
      let as ← tail d n
      return a :: as
    else
      text "]"
      return []

/-- Takes an array. -/
def array (d : Decoder α) (n : Nat) : Decoder (List α) := do
  text "["
  let c ← peek
  if c = some ']' then
    text "]"
    return []
  else
    let a ← d
    let as ← tail d n
    return a :: as

/-- The expression that is written as one word. -/
def ofWord (w : String) : Expr :=
  if w.toList.all Char.isDigit then .int {} (Int64.ofInt (decimalValue w.toList))
  else if w = "true" then .bool {} true
  else if w = "false" then .bool {} false
  else .var {} (originalName w)

/-- Takes a negative integer. -/
def negative : Decoder Expr := do
  text "(-"
  let w ← word
  text ")"
  return .int {} (Int64.ofInt (-(decimalValue w.toList)))

/-- Takes a binding pattern. -/
def pattern (d : Decoder Expr) : Decoder Pattern := do
  let e ← d
  match e.toPattern? with
  | some p => return p
  | none => failure

/-- Takes a function that is called at once. -/
def binding (d : Decoder Expr) : Decoder Expr := do
  text "(() => \x7bconst "
  let p ← pattern d
  text " = "
  let e ← d
  text ";return "
  let b ← d
  text "\x7d)()"
  return .letIn {} p e b

/-- Takes a function. -/
def function (d : Decoder Expr) : Decoder Expr := do
  text "(("
  let p ← pattern d
  text ") => "
  let b ← d
  text ")"
  return .lam {} p b

/-- Takes a conditional. -/
def conditional (d : Decoder Expr) : Decoder Expr := do
  text "("
  let c ← d
  text " ? "
  let t ← d
  text " : "
  let e ← d
  text ")"
  return .ite {} c t e

/-- Takes an expression that is no call. -/
def head (d : Decoder Expr) (n : Nat) : Decoder Expr := do
  let c ← peek
  if c = some '[' then
    let es ← array d n
    return .tuple {} es
  else if c = some '(' then
    negative <|> binding d <|> function d <|> conditional d
  else
    let w ← word
    return ofWord w

/-- Takes the arguments of the calls of `f`. -/
def args (d : Decoder Expr) : Nat → Expr → Decoder Expr
  | 0, _ => failure
  | n + 1, f => do
    let c ← peek
    if c = some '(' then
      text "("
      let a ← d
      text ")"
      args d n (.app {} f a)
    else
      return f

/-- Takes an expression that is nested less than `n` deep. -/
def expr : Nat → Decoder Expr
  | 0 => failure
  | n + 1 => do
    let h ← head (expr n) n
    args (expr n) n h

end Decoder

/-- The expression that the text is the JavaScript of. -/
def decode? (js : String) : Option Expr :=
  match Decoder.expr (js.toList.length + 1) js.toList with
  | some (e, []) => some e
  | _ => none

/-! ## What decoders do -/

namespace Decoder

variable {d : Decoder α} {f : α → Decoder β} {v : α}

theorem bind_of_eq {cs rest : List Char} (h : d cs = some (v, rest)) :
    (d >>= f) cs = f v rest := by
  show (d cs >>= fun q => f q.1 q.2) = _
  rw [h]
  rfl

theorem bind_of_none {cs : List Char} (h : d cs = none) : (d >>= f) cs = none := by
  show (d cs >>= fun q => f q.1 q.2) = _
  rw [h]
  rfl

theorem text_append (s : String) (rest : List Char) :
    text s (s.toList ++ rest) = some ((), rest) := by
  rw [text, if_pos (List.prefix_append _ _), List.drop_left]

end Decoder

/-! ## Taking a text -/

/-- No word goes on with the text. -/
def endsWord (rest : List Char) : Bool :=
  !rest.head?.any isWordChar

/-- Neither a word goes on with the text, nor does a call. -/
def endsExpr (rest : List Char) : Bool :=
  !rest.head?.any fun c => isWordChar c || c = '('

theorem endsWord_of_endsExpr {rest : List Char} (h : endsExpr rest = true) :
    endsWord rest = true := by
  cases rest with
  | nil => rfl
  | cons c rest =>
    simp only [endsExpr, List.head?_cons, Option.any_some, Bool.not_or, Bool.and_eq_true] at h
    exact h.1

/-- The decoder takes the text `t` and gives `v`, if what follows is such a text. -/
def Inverts (d : Decoder α) (t : String) (follow : List Char → Bool) (v : α) : Prop :=
  ∀ rest, follow rest = true → d (t.toList ++ rest) = some (v, rest)

namespace Inverts

variable {d d' : Decoder α} {f : α → Decoder β} {s t u : String} {v : α} {w : β}
  {follow follow' : List Char → Bool}

theorem text_pure (s : String) (v : α) :
    Inverts (Decoder.text s >>= fun _ => pure v) s follow v := by
  intro rest _
  rw [Decoder.bind_of_eq (Decoder.text_append s rest)]
  rfl

theorem text_bind {f : Unit → Decoder β} (hf : Inverts (f ()) u follow w) :
    Inverts (Decoder.text s >>= f) (s ++ u) follow w := by
  intro rest hrest
  rw [String.toList_append, List.append_assoc, Decoder.bind_of_eq (Decoder.text_append s _)]
  exact hf rest hrest

theorem bind (hd : Inverts d t follow' v) (hu : ∀ rest, follow' (u.toList ++ rest) = true)
    (hf : Inverts (f v) u follow w) : Inverts (d >>= f) (t ++ u) follow w := by
  intro rest hrest
  rw [String.toList_append, List.append_assoc, Decoder.bind_of_eq (hd _ (hu rest))]
  exact hf rest hrest

theorem peek {f : Option Char → Decoder α} {c : Char} (ht : t.toList.head? = some c)
    (hf : Inverts (f (some c)) t follow v) : Inverts (Decoder.peek >>= f) t follow v := by
  intro rest hrest
  obtain ⟨cs, hcs⟩ := List.head?_eq_some_iff.mp ht
  have hpeek : Decoder.peek (t.toList ++ rest) = some (some c, t.toList ++ rest) := by
    rw [Decoder.peek, hcs]
    rfl
  rw [Decoder.bind_of_eq hpeek]
  exact hf rest hrest

theorem orElse_left (h : Inverts d t follow v) : Inverts (d <|> d') t follow v := by
  intro rest hrest
  show (d (t.toList ++ rest) <|> d' (t.toList ++ rest)) = _
  rw [h rest hrest]
  rfl

theorem orElse_right (hd : ∀ rest, follow rest = true → d (t.toList ++ rest) = none)
    (h : Inverts d' t follow v) : Inverts (d <|> d') t follow v := by
  intro rest hrest
  show (d (t.toList ++ rest) <|> d' (t.toList ++ rest)) = _
  rw [hd rest hrest, h rest hrest]
  rfl

theorem map {g : α → β} (hd : Inverts d t follow v) :
    Inverts (d >>= fun a => pure (g a)) t follow (g v) := by
  intro rest hrest
  rw [Decoder.bind_of_eq (hd rest hrest)]
  rfl

/-- An expression and the text behind it. -/
theorem bind_text (hd : Inverts d t endsExpr v) (hs : ∀ rest, endsExpr (s.toList ++ rest) = true)
    (hf : Inverts (f v) u follow w) :
    Inverts (d >>= fun a => Decoder.text s >>= fun _ => f a) (t ++ (s ++ u)) follow w := by
  refine hd.bind (fun rest => ?_) (text_bind hf)
  rw [String.toList_append, List.append_assoc]
  exact hs _

theorem word {c : Char} {cs : List Char} (ht : t.toList = c :: cs)
    (hcs : (c :: cs).all isWordChar = true) : Inverts Decoder.word t endsWord t := by
  intro rest hrest
  rw [← ht, List.all_eq_true] at hcs
  obtain ⟨htake, hdrop⟩ := takeWhile_append_of_head hcs ((Bool.not_eq_true' _).mp hrest)
  rw [Decoder.word, htake, hdrop, String.ofList_toList, if_neg (by simp [ht])]

end Inverts

/-! ## Arrays -/

/-- A character that the text of an expression may start with. -/
def startsExpr (c : Char) : Bool :=
  isWordChar c || c = '(' || c = '['

/-- The elements of an array after the first one, and the bracket behind them. -/
def tailText : List String → String
  | [] => "]"
  | t :: ts => ", " ++ (t ++ tailText ts)

theorem intercalate_append (t : String) (ts : List String) :
    ", ".intercalate (t :: ts) ++ "]" = t ++ tailText ts := by
  induction ts generalizing t with
  | nil => rw [String.intercalate_singleton, tailText]
  | cons t' ts ih =>
    rw [String.intercalate_cons_cons, String.append_assoc, ih, tailText, String.append_assoc]

theorem endsExpr_tailText (ts : List String) (rest : List Char) :
    endsExpr ((tailText ts).toList ++ rest) = true := by
  cases ts with
  | nil => rfl
  | cons t ts =>
    rw [tailText, String.toList_append, List.append_assoc]
    rfl

theorem Inverts.tail {d : Decoder α} {ts : List String} {vs : List α}
    (h : List.Forall₂ (fun t v => Inverts d t endsExpr v) ts vs) {follow : List Char → Bool}
    (hn : ts.length < n) : Inverts (Decoder.tail d n) (tailText ts) follow vs := by
  induction h generalizing n with
  | nil =>
    obtain ⟨n, rfl⟩ := Nat.exists_eq_succ_of_ne_zero (Nat.ne_zero_of_lt hn)
    exact .peek rfl (.text_pure "]" [])
  | @cons t v ts vs ht hts ih =>
    -- a comma comes next, and the element ends where the rest of the array starts
    obtain ⟨n, rfl⟩ := Nat.exists_eq_succ_of_ne_zero (Nat.ne_zero_of_lt hn)
    refine .peek (c := ',') (by simp [tailText]) ?_
    refine .text_bind (ht.bind (endsExpr_tailText ts) ?_)
    exact (ih (Nat.lt_of_succ_lt_succ hn)).map

theorem Inverts.array {d : Decoder α} {ts : List String} {vs : List α}
    (h : List.Forall₂ (fun t v => Inverts d t endsExpr v) ts vs)
    (hstarts : ∀ t ∈ ts, ∃ c, t.toList.head? = some c ∧ startsExpr c = true)
    {follow : List Char → Bool} (hn : ts.length ≤ n) :
    Inverts (Decoder.array d n) ("[" ++ ", ".intercalate ts ++ "]") follow vs := by
  rw [String.append_assoc]
  refine .text_bind ?_
  cases h with
  | nil => exact .peek rfl (.text_pure "]" [])
  | @cons t v ts vs ht hts =>
    obtain ⟨c, hc, hstart⟩ := hstarts t List.mem_cons_self
    rw [intercalate_append]
    refine .peek (c := c) ?_ ?_
    · rw [String.toList_append, List.head?_append, hc, Option.some_or]
    · -- an element does not start like the end of the array
      have hne : some c ≠ some ']' := by
        rintro heq
        obtain rfl := Option.some.inj heq
        cases hstart
      rw [if_neg hne]
      exact ht.bind (endsExpr_tailText ts) (Inverts.tail hts hn).map

theorem length_lt_tailText (ts : List String) :
    ts.length < (tailText ts).toList.length ∧
      ∀ t ∈ ts, t.toList.length < (tailText ts).toList.length := by
  induction ts with
  | nil => exact ⟨Nat.succ_pos _, List.forall_mem_nil _⟩
  | cons t ts ih =>
    have hlen : (tailText (t :: ts)).toList.length =
        t.toList.length + (tailText ts).toList.length + 2 := by
      rw [tailText]
      simp
    refine ⟨?_, List.forall_mem_cons.mpr ⟨by omega, fun t' ht' => ?_⟩⟩
    · rw [List.length_cons]
      omega
    · have := ih.2 t' ht'
      omega

/-- An array is longer than each of its elements, and than their number. -/
theorem length_lt_arrayText (ts : List String) :
    ts.length < ("[" ++ ", ".intercalate ts ++ "]").toList.length ∧
      ∀ t ∈ ts, t.toList.length < ("[" ++ ", ".intercalate ts ++ "]").toList.length := by
  rw [String.append_assoc]
  cases ts with
  | nil => exact ⟨Nat.succ_pos _, List.forall_mem_nil _⟩
  | cons t ts =>
    obtain ⟨hts, hmem⟩ := length_lt_tailText ts
    have hlen : ("[" ++ (", ".intercalate (t :: ts) ++ "]")).toList.length =
        t.toList.length + (tailText ts).toList.length + 1 := by
      rw [intercalate_append]
      simp
    refine ⟨?_, List.forall_mem_cons.mpr ⟨by omega, fun t' ht' => ?_⟩⟩
    · rw [List.length_cons]
      omega
    · have := hmem t' ht'
      omega

/-! ## Texts that are refused -/

/-- What stands behind a parenthesis is not the head of a function: neither an empty list of parameters
nor an expression that an arrow follows. -/
def NoFunctionHead (d : Decoder Expr) (cs : List Char) : Prop :=
  cs.head? ≠ some ')' ∧ ∀ v rest, d cs = some (v, rest) → ¬") => ".toList <+: rest

namespace Decoder

theorem text_eq_none {s : String} {c d : Char} {ds cs : List Char} (hs : s.toList = c :: d :: ds)
    (h : cs.head? ≠ some d) : text s (c :: cs) = none := by
  rw [text, if_neg]
  rw [hs, List.cons_prefix_cons]
  rintro ⟨-, tail, rfl⟩
  exact h rfl

theorem negative_eq_none {cs : List Char} (h : cs.head? ≠ some '-') : negative ('(' :: cs) = none :=
  bind_of_none (text_eq_none rfl h)

theorem binding_eq_none {d : Decoder Expr} {cs : List Char}
    (h : ∀ cs', cs = '(' :: cs' → cs'.head? ≠ some ')') : binding d ('(' :: cs) = none := by
  have hs : "(() => \x7bconst ".toList = '(' :: '(' :: ')' :: " => \x7bconst ".toList := by simp
  refine bind_of_none ?_
  rw [text, if_neg]
  rw [hs, List.cons_prefix_cons]
  rintro ⟨-, tail, rfl⟩
  exact h _ rfl rfl

theorem function_eq_none {d : Decoder Expr} {cs : List Char} (h : cs.head? ≠ some '(') :
    function d ('(' :: cs) = none :=
  bind_of_none (text_eq_none rfl h)

theorem function_eq_none_of_noFunctionHead {d : Decoder Expr} {cs : List Char}
    (h : NoFunctionHead d cs) : function d ('(' :: '(' :: cs) = none := by
  have htext : text "((" ('(' :: '(' :: cs) = some ((), cs) := text_append "((" cs
  rw [function, bind_of_eq htext]
  cases hd : d cs with
  | none => exact bind_of_none (bind_of_none hd)
  | some q =>
    obtain ⟨v, rest⟩ := q
    -- what was taken may still be a pattern, but then no arrow follows it
    cases hp : v.toPattern? with
    | none =>
      refine bind_of_none ?_
      rw [pattern, bind_of_eq hd, hp]
      rfl
    | some p =>
      have hpattern : pattern d cs = some (p, rest) := by
        rw [pattern, bind_of_eq hd, hp]
        rfl
      rw [bind_of_eq hpattern]
      refine bind_of_none ?_
      rw [text, if_neg (h.2 v rest hd)]

/-- Nothing is taken from a text that does not start like an expression. -/
theorem expr_eq_none {c : Char} (hc : startsExpr c = false) (n : Nat) (cs : List Char) :
    expr n (c :: cs) = none := by
  simp only [startsExpr, Bool.or_eq_false_iff, decide_eq_false_iff_not] at hc
  obtain ⟨⟨hword, hparen⟩, hbracket⟩ := hc
  cases n with
  | zero => rfl
  | succ n =>
    have hnone : word (c :: cs) = none := by
      rw [word, List.takeWhile_cons_of_neg (by simp [hword]), if_pos rfl]
    refine bind_of_none ?_
    rw [head, bind_of_eq (v := some c) rfl, if_neg (by simpa using hbracket),
      if_neg (by simpa using hparen)]
    exact bind_of_none hnone

/-- Nothing is taken from a text that starts with a parenthesis but has none of the four forms. -/
theorem expr_paren_eq_none {cs : List Char} (hminus : cs.head? ≠ some '-')
    (hparen : cs.head? ≠ some '(')
    (hcond : ∀ m, n = m + 1 → conditional (expr m) ('(' :: cs) = none) :
    expr n ('(' :: cs) = none := by
  cases n with
  | zero => rfl
  | succ n =>
    have hbinding : ∀ cs', cs = '(' :: cs' → cs'.head? ≠ some ')' := by
      rintro cs' rfl
      exact absurd rfl hparen
    refine bind_of_none ?_
    rw [head, bind_of_eq (v := some '(') rfl, if_neg (by decide), if_pos rfl]
    show (_ <|> _ <|> _ <|> _) = none
    rw [negative_eq_none hminus, binding_eq_none hbinding, function_eq_none hparen]
    exact hcond n rfl

/-! ## Calls -/

theorem args_of_endsExpr {d : Decoder Expr} {rest : List Char} (h : endsExpr rest = true) (n : Nat)
    (f : Expr) : args d (n + 1) f rest = some (f, rest) := by
  have hne : rest.head? ≠ some '(' := by
    intro hhead
    rw [endsExpr, hhead] at h
    cases h
  rw [args, bind_of_eq (v := rest.head?) rfl, if_neg hne]
  rfl

theorem args_call {d : Decoder Expr} {t : String} {a : Expr} (ha : Inverts d t endsExpr a) (n : Nat)
    (f : Expr) (rest : List Char) :
    args d (n + 1) f (("(" ++ (t ++ ")")).toList ++ rest) = args d n (.app {} f a) rest := by
  rw [String.toList_append, String.toList_append, List.append_assoc, List.append_assoc, args,
    bind_of_eq (v := some '(') rfl, if_pos rfl, bind_of_eq (text_append _ _), bind_of_eq (ha _ rfl),
    bind_of_eq (text_append _ _)]

end Decoder

end JavaScript

end PolyLet
