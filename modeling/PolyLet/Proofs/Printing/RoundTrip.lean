import PolyLet.Expr.Printer
import PolyLet.Proofs.Printing.Normal
import PolyLet.Proofs.Printing.Spelling

/-!
# Parsing undoes printing

The text of an expression is parsed back into the normal form of the expression. Its parentheses are
enough at every place: at the top an expression is written, in front of an argument a sequence of
atoms, and as an argument a single atom. An expression that was parsed is in normal form already, so
its text is parsed back into the expression itself.

## Main definitions

* `Expr.Place.Phrase place`: what is written at a place

## Main results

* `Pattern.written`, `Expr.written`: the text of an expression at a place
* `parse_print`: parsing undoes printing
-/

namespace PolyLet

/-! ## The text of patterns -/

mutual

theorem Pattern.written : (p : Pattern) → p.wellNamed = true → Written IsPattern p.print p.normal
  | .var _, h => ⟨_, writes_name h, .name rfl⟩
  | .tuple ps, h => .tuple Pattern.ofElems IsPatternTail.nil .cons (IsPattern.unit rfl rfl)
    (fun hp hps => .parens rfl hp hps rfl) (Pattern.writtenAll ps h)

theorem Pattern.writtenAll : (ps : List Pattern) → Pattern.wellNamedAll ps = true →
    List.Forall₂ (Written IsPattern) (Pattern.printAll ps) (Pattern.normalAll ps)
  | [], _ => .nil
  | p :: ps, h => by
    rw [wellNamedAll, Bool.and_eq_true] at h
    exact .cons (p.written h.1) (Pattern.writtenAll ps h.2)

end

/-! ## The text of expressions -/

/-- What is written at a place: an expression, atoms, or one atom. -/
def Expr.Place.Phrase : Place → List Word → Expr → Prop
  | .top => IsExpr
  | .head => IsAtoms
  | .argument => IsAtom

namespace Written

variable {s t u : String} {e : Expr} {a b c : Expr} {p : Pattern}

/-- An atom needs no parentheses anywhere. -/
theorem atom (h : Written IsAtom s e) (place : Expr.Place) : Written place.Phrase s e := by
  refine h.imp fun ws hws => ?_
  cases place with
  | top => exact .atoms (.one hws)
  | head => exact .one hws
  | argument => exact hws

theorem parens (h : Written IsExpr s e) : Written IsAtom ("(" ++ s ++ ")") e := by
  obtain ⟨ws, hs, he⟩ := h
  exact ⟨_, hs.parens, .parens rfl he .nil rfl⟩

/-- Atoms need parentheses as an argument. -/
theorem atoms (h : Written IsAtoms s e) (place : Expr.Place) :
    Written place.Phrase (parenthesizeIf (place = .argument) s) e := by
  cases place with
  | top => exact h.imp fun _ => .atoms
  | head => exact h
  | argument => exact (h.imp fun _ => .atoms).parens

/-- Functions, bindings and conditions need parentheses everywhere but at the top. -/
theorem block (h : Written IsBlock s e) (place : Expr.Place) :
    Written place.Phrase (parenthesizeIf (place ≠ .top) s) e := by
  have hexpr : Written IsExpr s e := h.imp fun _ => .block
  cases place with
  | top => exact hexpr
  | head => exact hexpr.parens.atom .head
  | argument => exact hexpr.parens.atom .argument

theorem app (hf : Written IsAtoms s a) (ha : Written IsAtom t b) :
    Written IsAtoms (s ++ " " ++ t) (.app {} a b) := by
  obtain ⟨ws, hs, hws⟩ := hf
  obtain ⟨us, ht, hus⟩ := ha
  have hst := hs.separated writes_blank ht rfl rfl
  rw [List.append_nil] at hst
  exact ⟨ws ++ us, hst, .app hws hus⟩

theorem lam (hp : Written IsPattern s p) (hb : Written IsExpr t b) :
    Written IsBlock ("fn " ++ s ++ " -> " ++ t) (.lam {} p b) := by
  obtain ⟨ps, hs, hps⟩ := hp
  obtain ⟨bs, ht, hbs⟩ := hb
  have hfn := (writes_before .kwFn rfl).append hs (.inl rfl)
  have hall := hfn.separated (writes_between .arrow rfl) ht rfl rfl
  rw [List.append_assoc, List.append_assoc] at hall
  exact ⟨_, hall, .fn rfl hps rfl hbs⟩

theorem letIn (hp : Written IsPattern s p) (ha : Written IsExpr t a) (hb : Written IsExpr u b) :
    Written IsBlock ("let " ++ s ++ " = " ++ t ++ " in " ++ u) (.letIn {} p a b) := by
  obtain ⟨ps, hs, hps⟩ := hp
  obtain ⟨as, ht, has⟩ := ha
  obtain ⟨bs, hu, hbs⟩ := hb
  have hlet := (writes_before .kwLet rfl).append hs (.inl rfl)
  have heq := hlet.separated (writes_between .equals rfl) ht rfl rfl
  have hall := heq.separated (writes_between .kwIn rfl) hu rfl rfl
  simp only [List.append_assoc] at hall
  exact ⟨_, hall, .letIn rfl (.plain hps) rfl has rfl hbs⟩

theorem ite (hc : Written IsExpr s c) (ha : Written IsExpr t a) (hb : Written IsExpr u b) :
    Written IsBlock ("if " ++ s ++ " then " ++ t ++ " else " ++ u) (.ite {} c a b) := by
  obtain ⟨cs, hs, hcs⟩ := hc
  obtain ⟨as, ht, has⟩ := ha
  obtain ⟨bs, hu, hbs⟩ := hb
  have hif := (writes_before .kwIf rfl).append hs (.inl rfl)
  have hthen := hif.separated (writes_between .kwThen rfl) ht rfl rfl
  have hall := hthen.separated (writes_between .kwElse rfl) hu rfl rfl
  simp only [List.append_assoc] at hall
  exact ⟨_, hall, .ite rfl hcs rfl has rfl hbs⟩

end Written

/-! ### Integers -/

theorem ofNat_natAbs {n : Int64} (h : ¬n < 0) :
    Int64.ofNat n.toInt.natAbs = n ∧ n.toInt.natAbs ≤ maxInteger := by
  have hlt := n.toInt_lt
  have hpos : 0 ≤ n.toInt := by
    rw [Int64.lt_iff_toInt_lt] at h
    exact Int.not_lt.mp h
  constructor
  · rw [← Int64.toInt_inj, Int64.toInt_ofNat_of_lt (by omega)]
    exact Int.natAbs_of_nonneg hpos
  · show _ ≤ 9223372036854775807
    omega

theorem ofNat_natAbs_neg {n : Int64} (h : n < 0) (hmin : n ≠ Int64.minValue) :
    Int64.ofNat n.toInt.natAbs = -n ∧ n.toInt.natAbs ≤ maxInteger := by
  have hle := n.le_toInt
  have hneg : n.toInt < 0 := by rwa [Int64.lt_iff_toInt_lt] at h
  have hne : n.toInt ≠ -9223372036854775808 := fun heq => hmin (Int64.toInt_inj.mp heq)
  constructor
  · rw [← Int64.toInt_inj, Int64.toInt_ofNat_of_lt (by omega), Int64.toInt_neg,
      Int.bmod_eq_of_le (by omega) (by omega)]
    omega
  · show _ ≤ 9223372036854775807
    omega

theorem written_literal {n : Nat} (h : n ≤ maxInteger) :
    Written IsAtom (toString n) (.int {} (Int64.ofNat n)) := by
  have hint := IsAtom.int (w := ⟨.integer, toString n⟩) rfl
  rw [literalValue, decimalValue_toString] at hint
  exact ⟨_, writes_number h, hint⟩

theorem Written.sub {s t : String} {a b : Expr} (ha : Written IsAtom s a) (hb : Written IsAtom t b) :
    Written IsAtoms ("sub" ++ " " ++ s ++ " " ++ t) (.sub a b) := by
  have hsub : Written IsAtom "sub" (.var {} "sub") := ⟨_, writes_name rfl, .name rfl⟩
  exact ((hsub.atom .head).app ha).app hb

theorem written_integer (n : Int64) (place : Expr.Place) :
    Written place.Phrase (parenthesizeIf (n < 0 && place = .argument) (integerExpr n))
      (.ofInteger n) := by
  have hzero : Written IsAtom "0" (.int {} 0) := written_literal (Nat.zero_le maxInteger)
  unfold integerExpr Expr.ofInteger
  split
  next hmin =>
    -- the inner subtraction is an argument and stands in parentheses
    have hmax : Written IsAtom (toString Int64.maxValue.toInt) (.int {} Int64.maxValue) :=
      written_literal (n := maxInteger) (Nat.le_refl _)
    have hone : Written IsAtom "1" (.int {} 1) := written_literal (n := 1) (by decide)
    have hinner := ((hzero.sub hmax).imp fun _ => IsExpr.atoms).parens
    rw [hmin]
    exact (hinner.sub hone).atoms place
  next hmin =>
    split
    next hneg =>
      obtain ⟨hval, hle⟩ := ofNat_natAbs_neg hneg hmin
      have hlit := written_literal hle
      rw [hval] at hlit
      rw [decide_eq_true hneg, Bool.true_and]
      exact (hzero.sub hlit).atoms place
    next hpos =>
      obtain ⟨hval, hle⟩ := ofNat_natAbs hpos
      have hlit := written_literal hle
      rw [hval] at hlit
      rw [decide_eq_false hpos, Bool.false_and]
      exact hlit.atom place

theorem written_bool (b : Bool) : Written IsAtom (boolLiteral b) (.bool {} b) := by
  cases b with
  | false => exact ⟨_, writes_spelling .kwFalse rfl, .boolFalse rfl⟩
  | true => exact ⟨_, writes_spelling .kwTrue rfl, .boolTrue rfl⟩

/-! ### Expressions -/

mutual

/-- **The text of an expression at a place** is the text of its normal form. -/
theorem Expr.written : (e : Expr) → e.wellNamed = true → ∀ place : Expr.Place,
    Written place.Phrase (e.printAt place) e.normal
  | .int _ n, _, place => written_integer n place
  | .bool _ b, _, place => (written_bool b).atom place
  | .var _ x, h, place => Written.atom ⟨_, writes_name h, .name rfl⟩ place
  | .app _ f a, h, place => by
    rw [wellNamed, Bool.and_eq_true] at h
    exact ((f.written h.1 .head).app (a.written h.2 .argument)).atoms place
  | .lam _ p b, h, place => by
    rw [wellNamed, Bool.and_eq_true] at h
    exact ((p.written h.1).lam (b.written h.2 .top)).block place
  | .letIn _ p e b, h, place => by
    rw [wellNamed, Bool.and_eq_true, Bool.and_eq_true] at h
    exact ((p.written h.1).letIn (e.written h.2.1 .top) (b.written h.2.2 .top)).block place
  | .ite _ c t e, h, place => by
    rw [wellNamed, Bool.and_eq_true, Bool.and_eq_true] at h
    exact (Written.ite (c.written h.1 .top) (t.written h.2.1 .top) (e.written h.2.2 .top)).block
      place
  | .tuple _ es, h, place => Written.atom (.tuple Expr.ofElems IsTail.nil .cons
      (IsAtom.unit rfl rfl) (fun he hes => .parens rfl he hes rfl) (Expr.writtenAll es h)) place

theorem Expr.writtenAll : (es : List Expr) → Expr.wellNamedAll es = true →
    List.Forall₂ (Written IsExpr) (Expr.printAll es) (Expr.normalAll es)
  | [], _ => .nil
  | e :: es, h => by
    rw [wellNamedAll, Bool.and_eq_true] at h
    exact .cons (e.written h.1 .top) (Expr.writtenAll es h.2)

end

/-! ## Parsing the text -/

theorem parse_print_of_wellNamed {e : Expr} (h : e.wellNamed = true) :
    ∃ e', parse e.print = .ok e' ∧ e'.unlocated = e.normal := by
  obtain ⟨ws, hs, he⟩ := e.written h .top
  obtain ⟨ts, run, rfl⟩ := hs.toSpells 0
  have hlex : lex e.print = .ok ts := lex_eq_ok_iff.mpr run
  rw [parse_of_lex hlex]
  exact exists_parseTokens_iff.mpr he

/-- **Parsing undoes printing**, up to places. If all names in an expression are names of the
language, then its text is parsed into its normal form; and the text of an expression that was itself
parsed is parsed into the same expression. -/
theorem parse_print :
    (∀ e : Expr, e.wellNamed = true → ∃ e', parse e.print = .ok e' ∧ e'.unlocated = e.normal) ∧
    ∀ source e, parse source = .ok e →
      ∃ e', parse e.print = .ok e' ∧ e'.unlocated = e.unlocated := by
  refine ⟨fun e h => parse_print_of_wellNamed h, fun source e h => ?_⟩
  obtain ⟨hnamed, hnormal⟩ := isNormal_of_parse h
  rw [e.unlocated_normal.1] at hnamed
  rw [e.unlocated_normal.2] at hnormal
  rw [← hnormal]
  exact parse_print_of_wellNamed hnamed

/-- Tuples of one component and negative integers do not come back; what was parsed does. -/
theorem parse_print_function_of_least :
    (Expr.app {} (.lam {} (.tuple [.var "x"]) (.tuple {} [.int {} (-3)]))
      (.int {} Int64.minValue)).wellNamed = true ∧
    (∃ e', parse "(fn (x) -> (sub 0 3)) (sub (sub 0 9223372036854775807) 1)" = .ok e' ∧
      e'.unlocated = .app {} (.lam {} (.var "x") (.sub (.int {} 0) (.int {} 3)))
        (.sub (.sub (.int {} 0) (.int {} Int64.maxValue)) (.int {} 1))) ∧
    ∃ e, parse "(x)" = .ok e ∧ ∃ e', parse e.print = .ok e' ∧ e'.unlocated = .var {} "x" := by
  have hlex : lex "(x)" = .ok [⟨.openParen, "(", ⟨0, 1⟩⟩, ⟨.name, "x", ⟨1, 2⟩⟩,
      ⟨.closeParen, ")", ⟨2, 3⟩⟩, endToken 3] := by
    rw [lex_eq_ok_iff]
    exact @Lexes.token 0 [] '(' _ _ _ nofun rfl <| @Lexes.token 1 [] 'x' _ _ _ nofun rfl <|
      @Lexes.token 2 [] ')' _ _ _ nofun rfl <| Lexes.done nofun
  have hx : ∃ e, parse "(x)" = .ok e ∧ e.unlocated = .var {} "x" := by
    rw [parse_of_lex hlex]
    exact exists_parseTokens_iff.mpr
      (.atoms (.one (.parens rfl (.atoms (.one (.name rfl))) .nil rfl)))
  obtain ⟨e, he, hex⟩ := hx
  obtain ⟨e', he', heq⟩ := parse_print.2 "(x)" e he
  exact ⟨rfl, parse_print.1 (.app {} (.lam {} (.tuple [.var "x"]) (.tuple {} [.int {} (-3)]))
    (.int {} Int64.minValue)) rfl, e, he, e', he', heq.trans hex⟩

end PolyLet
