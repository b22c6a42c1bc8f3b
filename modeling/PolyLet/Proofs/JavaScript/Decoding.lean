import PolyLet.Proofs.JavaScript.Decoder

/-!
# Decoding compiled expressions

The decoder finds every expression in its JavaScript again, so compilation loses nothing but the
places of the nodes. The proof has one case for each form of expressions.

Only the conditional is not told from the other forms by its first characters: its condition may start
with a parenthesis too, and the decoder then tries to read a function first. That it finds none is
part of what is proved of the condition.

## Main definitions

* `JavaScript.Decodes e`: the text of the expression is taken as a whole and gives the expression

## Main results

* `JavaScript.decode?_toJavaScript`: an expression is found in its JavaScript again
* `unlocated_eq_of_toJavaScript_eq`: two expressions with the same JavaScript are the same tree
-/

namespace PolyLet

namespace JavaScript

variable {n : Nat}

open Decoder (head args expr)

/-- The text of the expression is taken as a whole and gives the expression. -/
structure Decodes (e : Expr) : Prop where
  /-- It starts like an expression. -/
  starts : ∃ c, e.toJavaScript.toList.head? = some c ∧ startsExpr c = true
  /-- It is taken up to its last call, and then the calls behind it are taken. -/
  spine : ∃ k < e.toJavaScript.toList.length, ∀ n, e.toJavaScript.toList.length ≤ n →
    ∀ j rest, endsWord rest = true →
      (head (expr n) n >>= args (expr n) (k + j)) (e.toJavaScript.toList ++ rest) =
        args (expr n) j e.unlocated rest
  /-- If it starts with a parenthesis, then what is behind that is not the head of a function. -/
  inner : ∀ n rest cs, e.toJavaScript.toList.length ≤ n → endsWord rest = true →
    e.toJavaScript.toList ++ rest = '(' :: cs → NoFunctionHead (expr n) cs

namespace Decodes

/-- The text starts with no character that an expression may not start with. -/
theorem head?_ne {e : Expr} (h : Decodes e) {d : Char} (hd : startsExpr d = false) (cs : List Char) :
    (e.toJavaScript.toList ++ cs).head? ≠ some d := by
  obtain ⟨c, hc, hstart⟩ := h.starts
  rw [List.head?_append, hc, Option.some_or]
  rintro heq
  obtain rfl := Option.some.inj heq
  rw [hstart] at hd
  cases hd

theorem expr {e : Expr} (h : Decodes e) (hn : e.toJavaScript.toList.length < n) :
    Inverts (expr n) e.toJavaScript endsExpr e.unlocated := by
  intro rest hrest
  obtain ⟨k, hk, hspine⟩ := h.spine
  obtain ⟨n, rfl⟩ := Nat.exists_eq_succ_of_ne_zero (Nat.ne_zero_of_lt hn)
  obtain ⟨j, rfl⟩ : ∃ j, n = k + (j + 1) := ⟨n - k - 1, by omega⟩
  rw [Decoder.expr, hspine _ (by omega) (j + 1) rest (endsWord_of_endsExpr hrest)]
  exact Decoder.args_of_endsExpr hrest j _

theorem pattern {p : Pattern} (h : Decodes p.toExpr) (hn : p.toJavaScript.toList.length < n) :
    Inverts (Decoder.pattern (Decoder.expr n)) p.toJavaScript endsExpr p := by
  intro rest hrest
  have hexpr := h.expr (n := n) (by rwa [p.toJavaScript_toExpr])
  rw [p.toJavaScript_toExpr, p.unlocated_toExpr] at hexpr
  rw [Decoder.pattern, Decoder.bind_of_eq (hexpr rest hrest), p.toPattern?_toExpr]
  rfl

/-! ## Calls -/

/-- An expression that is no call. -/
theorem of_head {e : Expr} {c : Char} {cs : List Char} (htext : e.toJavaScript.toList = c :: cs)
    (hc : startsExpr c = true)
    (hhead : ∀ n, e.toJavaScript.toList.length ≤ n →
      Inverts (head (Decoder.expr n) n) e.toJavaScript endsWord e.unlocated)
    (hinner : c = '(' → ∀ n rest, e.toJavaScript.toList.length ≤ n →
      NoFunctionHead (Decoder.expr n) (cs ++ rest)) : Decodes e where
  starts := ⟨c, by rw [htext]; rfl, hc⟩
  spine := by
    refine ⟨0, by rw [htext]; exact Nat.succ_pos _, fun n hn j rest hrest => ?_⟩
    rw [Nat.zero_add]
    exact Decoder.bind_of_eq (hhead n hn rest hrest)
  inner n rest cs' hn _ heq := by
    rw [htext] at heq
    obtain ⟨rfl, rfl⟩ := List.cons.inj heq
    exact hinner rfl n rest hn

theorem app {s : Span} {f a : Expr} (hf : Decodes f) (ha : Decodes a) :
    Decodes (.app s f a) := by
  have hlen : (Expr.app s f a).toJavaScript.toList.length =
      f.toJavaScript.toList.length + (a.toJavaScript.toList.length + 2) := by
    rw [Expr.toJavaScript_app]
    simp
  have hends (rest : List Char) :
      endsWord (("(" ++ (a.toJavaScript ++ ")")).toList ++ rest) = true := by
    rw [String.toList_append, List.append_assoc]
    rfl
  refine ⟨?_, ?_, ?_⟩
  · obtain ⟨c, hc, hstart⟩ := hf.starts
    refine ⟨c, ?_, hstart⟩
    rw [Expr.toJavaScript_app, String.toList_append, List.head?_append, hc, Option.some_or]
  · -- the argument is taken after all calls that `f` ends with
    obtain ⟨k, hk, hspine⟩ := hf.spine
    refine ⟨k + 1, by omega, fun n hn j rest hrest => ?_⟩
    rw [Expr.toJavaScript_app, String.toList_append, List.append_assoc, Nat.add_assoc,
      Nat.add_comm 1 j, hspine n (by omega) (j + 1) _ (hends rest),
      Decoder.args_call (ha.expr (by omega))]
    rfl
  · intro n rest cs hn hrest heq
    rw [Expr.toJavaScript_app, String.toList_append, List.append_assoc] at heq
    exact hf.inner n _ cs (by omega) (hends rest) heq

/-! ## Words and arrays -/

theorem of_word {e : Expr} {c : Char} {cs : List Char} (htext : e.toJavaScript.toList = c :: cs)
    (hword : (c :: cs).all isWordChar = true) (he : Decoder.ofWord e.toJavaScript = e.unlocated) :
    Decodes e := by
  have hc : isWordChar c = true := List.all_eq_true.mp hword c List.mem_cons_self
  have hne {d : Char} (hd : isWordChar d = false) : c ≠ d := by
    rintro rfl
    rw [hc] at hd
    cases hd
  refine of_head htext (by simp [startsExpr, hc]) (fun n _ => ?_) fun hparen => absurd hparen (hne rfl)
  refine .peek (c := c) (by rw [htext]; rfl) ?_
  rw [if_neg (fun h => hne rfl (Option.some.inj h)), if_neg (fun h => hne rfl (Option.some.inj h)),
    ← he]
  exact (Inverts.word htext hword).map

theorem var {s : Span} {x : String} (hx : isIdentifier x = true) : Decodes (.var s x) := by
  have htext : (Expr.var s x).toJavaScript = nameOf x := rfl
  obtain ⟨c, cs, hname, hc, hword⟩ := nameOf_isWord hx
  refine of_word (htext ▸ hname) hword ?_
  have hdigit : ¬(nameOf x).toList.all Char.isDigit = true := by
    rw [hname, List.all_cons, isDigit_eq_false_of_isNameStart hc, Bool.false_and]
    exact Bool.false_ne_true
  -- the words for the truth values are reserved, so they are not read as names
  have hreserved {w : String} (hw : w ∈ reservedWords) : nameOf x ≠ w := by
    rintro rfl
    exact nameOf_not_mem_reservedWords x hw
  rw [htext, Decoder.ofWord, if_neg hdigit, if_neg (hreserved (by decide)),
    if_neg (hreserved (by decide)), originalName_nameOf hx]
  rfl

theorem bool {s : Span} (b : Bool) : Decodes (.bool s b) := by
  have htext : (Expr.bool s b).toJavaScript = if b then "true" else "false" := rfl
  cases b with
  | false =>
    refine @of_word _ 'f' ['a', 'l', 's', 'e'] (by rw [htext]; rfl) rfl ?_
    rw [htext]
    simp [Decoder.ofWord, Expr.unlocated]
  | true =>
    refine @of_word _ 't' ['r', 'u', 'e'] (by rw [htext]; rfl) rfl ?_
    rw [htext]
    simp [Decoder.ofWord, Expr.unlocated]

theorem tuple {s : Span} {es : List Expr} (h : ∀ e ∈ es, Decodes e) : Decodes (.tuple s es) := by
  have htext : (Expr.tuple s es).toJavaScript.toList =
      '[' :: (", ".intercalate (es.map Expr.toJavaScript) ++ "]").toList := by
    rw [Expr.toJavaScript_tuple, String.append_assoc, String.toList_append]
    rfl
  refine of_head htext rfl (fun n hn => ?_) fun hparen => absurd hparen (by decide)
  refine .peek (c := '[') (by rw [htext]; rfl) ?_
  rw [if_pos rfl]
  show Inverts _ _ _ (Expr.tuple {} (Expr.unlocatedAll es))
  have hlength := length_lt_arrayText (es.map Expr.toJavaScript)
  rw [Expr.toJavaScript_tuple] at hn ⊢
  rw [Expr.unlocatedAll_eq_map]
  refine Inverts.map (Inverts.array ?_ ?_ (by omega))
  · rw [List.forall₂_map_left_iff, List.forall₂_map_right_iff, List.forall₂_same]
    intro e he
    have := hlength.2 _ (List.mem_map_of_mem he)
    exact (h e he).expr (by omega)
  · rw [List.forall_mem_map]
    exact fun e he => (h e he).starts

/-! ## Parentheses -/

/-- An expression in parentheses. -/
theorem of_paren {e : Expr} {cs : List Char} (htext : e.toJavaScript.toList = '(' :: cs)
    (hhead : ∀ n, e.toJavaScript.toList.length ≤ n →
      Inverts (Decoder.negative <|> Decoder.binding (Decoder.expr n) <|>
        Decoder.function (Decoder.expr n) <|> Decoder.conditional (Decoder.expr n))
        e.toJavaScript endsWord e.unlocated)
    (hinner : ∀ n rest, e.toJavaScript.toList.length ≤ n →
      NoFunctionHead (Decoder.expr n) (cs ++ rest)) : Decodes e :=
  of_head htext rfl (fun n hn => .peek (c := '(') (by rw [htext]; rfl) (hhead n hn)) fun _ => hinner

theorem exists_word_toString (n : Nat) : ∃ c cs, (toString n).toList = c :: cs ∧
    (c :: cs).all Char.isDigit = true ∧ (c :: cs).all isWordChar = true := by
  obtain ⟨c, cs, hn, hdigits⟩ := exists_digits_toString n
  refine ⟨c, cs, hn, List.all_eq_true.mpr hdigits, List.all_eq_true.mpr fun d hd => ?_⟩
  rw [isWordChar, isNameRest_of_isDigit (hdigits d hd), Bool.true_or]

theorem int {s : Span} (m : Int64) : Decodes (.int s m) := by
  have htext : (Expr.int s m).toJavaScript =
      if m < 0 then "(" ++ toString m.toInt ++ ")" else toString m.toInt := rfl
  have hofInt := Int64.ofInt_toInt m
  have hsign : m < 0 ↔ m.toInt < 0 := Int64.lt_iff_toInt_lt
  cases hm : m.toInt with
  | ofNat k =>
    obtain ⟨c, cs, hcs, hdigits, hword⟩ := exists_word_toString k
    rw [hm] at htext hofInt hsign
    rw [if_neg (fun h => absurd (hsign.mp h) (Int.not_lt.mpr (Int.natCast_nonneg k)))] at htext
    have hk : (Expr.int s m).toJavaScript = toString k := htext
    refine of_word (hk ▸ hcs) hword ?_
    rw [hk, Decoder.ofWord, hcs, if_pos hdigits, ← hcs, decimalValue_toString]
    exact congrArg (Expr.int {}) hofInt
  | negSucc k =>
    obtain ⟨c, cs, hcs, -, hword⟩ := exists_word_toString (k + 1)
    rw [hm] at htext hofInt hsign
    rw [if_pos (hsign.mpr (Int.negSucc_lt_zero k))] at htext
    have hk : (Expr.int s m).toJavaScript = "(-" ++ (toString (k + 1) ++ ")") := by
      rw [htext]
      show "(" ++ ("-" ++ toString (k + 1)) ++ ")" = _
      rw [← String.append_assoc, String.append_assoc]
      rfl
    have hlist : (Expr.int s m).toJavaScript.toList =
        '(' :: '-' :: (toString (k + 1) ++ ")").toList := by
      rw [hk, String.toList_append]
      rfl
    have hvalue : (Expr.int s m).unlocated =
        .int {} (Int64.ofInt (-(decimalValue (toString (k + 1)).toList))) := by
      rw [decimalValue_toString]
      exact congrArg (Expr.int {}) hofInt.symm
    refine of_paren hlist (fun n _ => .orElse_left ?_) fun n rest _ => ⟨by simp, fun v rest' hv => ?_⟩
    · rw [hk, hvalue]
      exact .text_bind ((Inverts.word hcs hword).bind (fun _ => rfl) (.text_pure ")" _))
    · -- no expression starts with a minus sign
      rw [List.cons_append, Decoder.expr_eq_none rfl] at hv
      cases hv

/-- A parenthesis in front of a pattern and a function arrow starts no expression. -/
theorem expr_pattern_eq_none {p : Pattern} (hp : Decodes p.toExpr)
    (hparen : p.toJavaScript.toList.head? ≠ some '(') (hn : p.toJavaScript.toList.length + 1 < n)
    (cs : List Char) :
    Decoder.expr n ('(' :: (p.toJavaScript.toList ++ (") => ".toList ++ cs))) = none := by
  have hne {d : Char} (hd : startsExpr d = false) (cs : List Char) :
      (p.toJavaScript.toList ++ cs).head? ≠ some d := by
    rw [← p.toJavaScript_toExpr]
    exact hp.head?_ne hd cs
  refine Decoder.expr_paren_eq_none (hne rfl _) ?_ fun m hm => ?_
  · obtain ⟨c, hc, -⟩ := hp.starts
    rw [p.toJavaScript_toExpr] at hc
    rwa [List.head?_append, hc, Option.some_or, ← hc]
  · -- a conditional would take the pattern as its condition, but a question mark does not follow
    have htext : Decoder.text "(" ('(' :: (p.toJavaScript.toList ++ (") => ".toList ++ cs))) =
        some ((), p.toJavaScript.toList ++ (") => ".toList ++ cs)) := Decoder.text_append "(" _
    have hexpr := hp.expr (n := m) (by rw [p.toJavaScript_toExpr]; omega)
    rw [p.toJavaScript_toExpr] at hexpr
    rw [Decoder.conditional, Decoder.bind_of_eq htext, Decoder.bind_of_eq (hexpr _ rfl)]
    refine Decoder.bind_of_none ?_
    rw [Decoder.text, if_neg]
    simp

theorem lam {s : Span} {p : Pattern} {b : Expr} (hp : Decodes p.toExpr)
    (hparen : p.toJavaScript.toList.head? ≠ some '(') (hb : Decodes b) : Decodes (.lam s p b) := by
  have htext : (Expr.lam s p b).toJavaScript.toList =
      '(' :: '(' :: (p.toJavaScript.toList ++ (") => ".toList ++ (b.toJavaScript ++ ")").toList)) := by
    rw [Expr.toJavaScript_lam]
    simp
  have hlen : (Expr.lam s p b).toJavaScript.toList.length =
      p.toJavaScript.toList.length + (b.toJavaScript.toList.length + 8) := by
    rw [htext]
    simp
    omega
  refine of_paren htext (fun n hn => ?_) fun n rest hn => ⟨by simp, fun v rest' hv => ?_⟩
  · refine .orElse_right ?_ (.orElse_right ?_ (.orElse_left ?_))
    · intro rest _
      rw [htext]
      exact Decoder.negative_eq_none (by simp)
    · intro rest _
      rw [htext, List.cons_append, List.cons_append, List.append_assoc]
      refine Decoder.binding_eq_none fun cs hcs => ?_
      obtain rfl := (List.cons.inj hcs).2
      rw [← p.toJavaScript_toExpr]
      exact hp.head?_ne rfl _
    · rw [Expr.toJavaScript_lam]
      refine .text_bind ((hp.pattern (by omega)).bind_text (fun _ => rfl) ?_)
      exact (hb.expr (by omega)).bind (fun _ => rfl) (.text_pure ")" _)
  · rw [List.cons_append, List.append_assoc, List.append_assoc,
      expr_pattern_eq_none hp hparen (by omega)] at hv
    cases hv

theorem letIn {s : Span} {p : Pattern} {e b : Expr} (hp : Decodes p.toExpr) (he : Decodes e)
    (hb : Decodes b) : Decodes (.letIn s p e b) := by
  obtain ⟨cs, htext⟩ : ∃ cs, (Expr.letIn s p e b).toJavaScript.toList = '(' :: '(' :: ')' :: cs := by
    rw [Expr.toJavaScript_letIn]
    simp
  have hlen : p.toJavaScript.toList.length + e.toJavaScript.toList.length +
      b.toJavaScript.toList.length < (Expr.letIn s p e b).toJavaScript.toList.length := by
    rw [Expr.toJavaScript_letIn]
    simp
    omega
  refine of_paren htext (fun n hn => .orElse_right ?_ (.orElse_left ?_))
    fun n rest hn => ⟨by simp, fun v rest' hv => ?_⟩
  · intro rest _
    rw [htext]
    exact Decoder.negative_eq_none (by simp)
  · rw [Expr.toJavaScript_letIn]
    refine .text_bind ((hp.pattern (by omega)).bind_text (fun _ => rfl) ?_)
    refine (he.expr (by omega)).bind_text (fun _ => rfl) ?_
    exact (hb.expr (by omega)).bind (fun _ => rfl) (.text_pure "\x7d)()" _)
  · -- an empty pair of parentheses is no expression
    have hnone : ∀ m, Decoder.conditional (Decoder.expr m) ('(' :: ')' :: (cs ++ rest)) = none := by
      intro m
      have hparen : Decoder.text "(" ('(' :: ')' :: (cs ++ rest)) = some ((), ')' :: (cs ++ rest)) :=
        Decoder.text_append "(" _
      rw [Decoder.conditional, Decoder.bind_of_eq hparen]
      exact Decoder.bind_of_none (Decoder.expr_eq_none rfl m _)
    rw [List.cons_append, List.cons_append,
      Decoder.expr_paren_eq_none (by simp) (by simp) fun m _ => hnone m] at hv
    cases hv

theorem ite {s : Span} {c t e : Expr} (hc : Decodes c) (ht : Decodes t) (he : Decodes e) :
    Decodes (.ite s c t e) := by
  have htext : (Expr.ite s c t e).toJavaScript.toList = '(' :: (c.toJavaScript.toList ++
      (" ? ".toList ++ (t.toJavaScript ++ (" : " ++ (e.toJavaScript ++ ")"))).toList)) := by
    rw [Expr.toJavaScript_ite]
    simp
  have hlen : c.toJavaScript.toList.length + t.toJavaScript.toList.length +
      e.toJavaScript.toList.length < (Expr.ite s c t e).toJavaScript.toList.length := by
    rw [Expr.toJavaScript_ite]
    simp
    omega
  refine of_paren htext (fun n hn => ?_) fun n rest hn => ?_
  · refine .orElse_right ?_ (.orElse_right ?_ (.orElse_right ?_ ?_))
    · intro rest _
      rw [htext, List.cons_append, List.append_assoc]
      exact Decoder.negative_eq_none (hc.head?_ne rfl _)
    · intro rest _
      rw [htext, List.cons_append, List.append_assoc]
      exact Decoder.binding_eq_none fun cs hcs => (hc.inner n _ cs (by omega) rfl hcs).1
    · intro rest _
      rw [htext, List.cons_append, List.append_assoc]
      -- a function would start with another parenthesis, which is then the first of the condition
      by_cases hparen : ∃ cs, c.toJavaScript.toList ++ (" ? ".toList ++
          (t.toJavaScript ++ (" : " ++ (e.toJavaScript ++ ")"))).toList ++ rest) = '(' :: cs
      · obtain ⟨cs, hcs⟩ := hparen
        rw [hcs]
        exact Decoder.function_eq_none_of_noFunctionHead (hc.inner n _ cs (by omega) rfl hcs)
      · refine Decoder.function_eq_none fun hhead => hparen ?_
        exact List.head?_eq_some_iff.mp hhead
    · rw [Expr.toJavaScript_ite]
      refine .text_bind ((hc.expr (by omega)).bind_text (fun _ => rfl) ?_)
      refine (ht.expr (by omega)).bind_text (fun _ => rfl) ?_
      exact (he.expr (by omega)).bind (fun _ => rfl) (.text_pure ")" _)
  · -- behind the parenthesis the condition is taken, and a question mark follows
    rw [List.append_assoc]
    refine ⟨hc.head?_ne rfl _, fun v rest' hv => ?_⟩
    rw [hc.expr (by omega) _ rfl] at hv
    obtain ⟨-, rfl⟩ := Prod.mk.inj (Option.some.inj hv)
    simp

end Decodes

end JavaScript

/-! ## Decoding what was written -/

open JavaScript (Decodes)

theorem Pattern.head?_toJavaScript_ne {p : Pattern} (h : ∀ x ∈ p.names, isIdentifier x = true) :
    p.toJavaScript.toList.head? ≠ some '(' := by
  cases p with
  | var x =>
    obtain ⟨c, cs, hname, hc, -⟩ := JavaScript.nameOf_isWord (h x (List.mem_singleton_self x))
    have htext : (Pattern.var x).toJavaScript.toList = c :: cs := hname
    rw [htext, List.head?_cons]
    rintro heq
    obtain rfl := Option.some.inj heq
    cases hc
  | tuple ps =>
    rw [toJavaScript_tuple]
    simp

mutual

theorem Pattern.decodes : (p : Pattern) → (∀ x ∈ p.names, isIdentifier x = true) →
    Decodes p.toExpr
  | .var x, h => .var (h x (List.mem_singleton_self x))
  | .tuple ps, h => .tuple (decodesAll ps h)

theorem Pattern.decodesAll : (ps : List Pattern) →
    (∀ x ∈ Pattern.namesAll ps, isIdentifier x = true) → ∀ e ∈ Pattern.toExprAll ps, Decodes e
  | [], _ => List.forall_mem_nil _
  | p :: ps, h => by
    obtain ⟨hp, hps⟩ := List.forall_mem_append.mp h
    exact List.forall_mem_cons.mpr ⟨p.decodes hp, decodesAll ps hps⟩

end

mutual

theorem Expr.decodes : (e : Expr) → (∀ x ∈ e.names, isIdentifier x = true) → Decodes e
  | .int _ n, _ => .int n
  | .bool _ b, _ => .bool b
  | .var _ x, h => .var (h x (List.mem_singleton_self x))
  | .app _ f a, h => by
    obtain ⟨hf, ha⟩ := List.forall_mem_append.mp h
    exact .app (f.decodes hf) (a.decodes ha)
  | .lam _ p b, h => by
    obtain ⟨hp, hb⟩ := List.forall_mem_append.mp h
    exact .lam (p.decodes hp) (Pattern.head?_toJavaScript_ne hp) (b.decodes hb)
  | .letIn _ p e b, h => by
    obtain ⟨hp, h⟩ := List.forall_mem_append.mp h
    obtain ⟨he, hb⟩ := List.forall_mem_append.mp h
    exact .letIn (p.decodes hp) (e.decodes he) (b.decodes hb)
  | .ite _ c t e, h => by
    obtain ⟨hc, h⟩ := List.forall_mem_append.mp h
    obtain ⟨ht, he⟩ := List.forall_mem_append.mp h
    exact .ite (c.decodes hc) (t.decodes ht) (e.decodes he)
  | .tuple _ es, h => .tuple (decodesAll es h)

theorem Expr.decodesAll : (es : List Expr) → (∀ x ∈ Expr.namesAll es, isIdentifier x = true) →
    ∀ e ∈ es, Decodes e
  | [], _ => List.forall_mem_nil _
  | e :: es, h => by
    obtain ⟨he, hes⟩ := List.forall_mem_append.mp h
    exact List.forall_mem_cons.mpr ⟨e.decodes he, decodesAll es hes⟩

end

/-- **An expression is found in its JavaScript again,** apart from the places of its nodes. -/
theorem JavaScript.decode?_toJavaScript {e : Expr} (h : ∀ x ∈ e.names, isIdentifier x = true) :
    decode? e.toJavaScript = some e.unlocated := by
  have hexpr := (e.decodes h).expr (Nat.lt_succ_self _) [] rfl
  rw [List.append_nil] at hexpr
  rw [decode?, hexpr]

/-- **Compilation loses nothing.** Two expressions whose names are identifiers and that become the same
JavaScript are the same tree. -/
theorem unlocated_eq_of_toJavaScript_eq {e₁ e₂ : Expr}
    (h₁ : ∀ x ∈ e₁.names, isIdentifier x = true) (h₂ : ∀ x ∈ e₂.names, isIdentifier x = true)
    (h : e₁.toJavaScript = e₂.toJavaScript) : e₁.unlocated = e₂.unlocated := by
  have hdecode := JavaScript.decode?_toJavaScript h₁
  rw [h, JavaScript.decode?_toJavaScript h₂] at hdecode
  exact (Option.some.inj hdecode).symm

/-- A function of a parameter with a reserved name that gives a negative number, at two places. -/
theorem unlocated_eq_of_toJavaScript_eq_new :
    (Expr.lam ⟨0, 14⟩ (.var "new") (.int ⟨10, 14⟩ (-1))).toJavaScript =
        (Expr.lam {} (.var "new") (.int {} (-1))).toJavaScript ∧
      (Expr.lam ⟨0, 14⟩ (.var "new") (.int ⟨10, 14⟩ (-1))).unlocated =
        (Expr.lam {} (.var "new") (.int {} (-1))).unlocated :=
  ⟨rfl, unlocated_eq_of_toJavaScript_eq (List.forall_mem_singleton.mpr rfl)
    (List.forall_mem_singleton.mpr rfl) rfl⟩

end PolyLet
