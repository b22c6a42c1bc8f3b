import PolyLet.Proofs.Lexing.Words
import PolyLet.Proofs.Parsing.Acceptance

/-!
# Normal forms of expressions

The normal form of an expression is the expression itself, but for what no source can say: a tuple of
one component is written like its component, and a negative integer is written as a subtraction. The
parser makes neither of them, and its names come from the lexer. So what is read from a source is in
normal form, and its names are names of the language.

## Main definitions

* `Expr.wellNamed e`: all names in the expression are names of the language
* `Expr.normal e`: the normal form of an expression
* `Expr.IsNormal e`: the expression is well named and its own normal form

## Main results

* `IsPattern.isNormal`, `IsExpr.isNormal`: what the grammar derives is in normal form
* `isNormal_of_parse`: what is read from a source is in normal form
-/

namespace PolyLet

/-! ## Names and normal forms -/

mutual

/-- All names in the pattern are names of the language. -/
def Pattern.wellNamed : Pattern → Bool
  | var x => isName x
  | tuple ps => wellNamedAll ps

/-- All names in the patterns of a list are names of the language. -/
def Pattern.wellNamedAll : List Pattern → Bool
  | [] => true
  | p :: ps => p.wellNamed && wellNamedAll ps

end

mutual

/-- The pattern with each tuple of one component replaced by the component. -/
def Pattern.normal : Pattern → Pattern
  | var x => var x
  | tuple ps => ofElems (normalAll ps)

/-- The normal forms of the patterns of a list. -/
def Pattern.normalAll : List Pattern → List Pattern
  | [] => []
  | p :: ps => p.normal :: normalAll ps

end

/-- The tree of a subtraction. -/
def Expr.sub (a b : Expr) : Expr :=
  .app {} (.app {} (.var {} "sub") a) b

/-- The tree of an integer, where a negative one is a subtraction from zero. The least integer has no
counterpart above zero, and takes two of them. -/
def Expr.ofInteger (n : Int64) : Expr :=
  if n = Int64.minValue then sub (sub (.int {} 0) (.int {} Int64.maxValue)) (.int {} 1)
  else if n < 0 then sub (.int {} 0) (.int {} (-n))
  else .int {} n

mutual

/-- All names in the expression are names of the language. -/
def Expr.wellNamed : Expr → Bool
  | int _ _ => true
  | bool _ _ => true
  | var _ x => isName x
  | app _ f a => f.wellNamed && a.wellNamed
  | lam _ p b => p.wellNamed && b.wellNamed
  | letIn _ p e b => p.wellNamed && (e.wellNamed && b.wellNamed)
  | ite _ c t e => c.wellNamed && (t.wellNamed && e.wellNamed)
  | tuple _ es => wellNamedAll es

/-- All names in the expressions of a list are names of the language. -/
def Expr.wellNamedAll : List Expr → Bool
  | [] => true
  | e :: es => e.wellNamed && wellNamedAll es

end

mutual

/-- The normal form of an expression, without places: integers are trees of literals, and each tuple
of one component is replaced by the component. -/
def Expr.normal : Expr → Expr
  | int _ n => ofInteger n
  | bool _ b => bool {} b
  | var _ x => var {} x
  | app _ f a => app {} f.normal a.normal
  | lam _ p b => lam {} p.normal b.normal
  | letIn _ p e b => letIn {} p.normal e.normal b.normal
  | ite _ c t e => ite {} c.normal t.normal e.normal
  | tuple _ es => ofElems (normalAll es)

/-- The normal forms of the expressions of a list. -/
def Expr.normalAll : List Expr → List Expr
  | [] => []
  | e :: es => e.normal :: normalAll es

end

/-! ## What is read from a source -/

/-- The word is one that a lexer may make: a name is a name of the language, and an integer is not
too large. -/
def Word.Proper (w : Word) : Prop :=
  (w.kind = .name → isName w.text = true) ∧
    (w.kind = .integer → decimalValue w.text.toList ≤ maxInteger)

theorem Lexes.proper {start : Nat} {cs : List Char} {ts : List Token} {errors : List LexError}
    (h : Lexes start cs ts errors) : ∀ t ∈ ts, t.word.Proper := by
  induction h with
  | done hb =>
    simp only [List.mem_singleton, forall_eq]
    exact ⟨nofun, nofun⟩
  | token hb hc run ih =>
    refine List.forall_mem_cons.mpr ⟨⟨isName_of_scan, fun hk => ?_⟩, ih⟩
    show decimalValue (String.ofList _).toList ≤ maxInteger
    rw [String.toList_ofList]
    exact decimalValue_le_of_scan hk

/-- The pattern is in normal form, and its names are names of the language. -/
def Pattern.IsNormal (p : Pattern) : Prop :=
  p.wellNamed = true ∧ p.normal = p

/-- So are all patterns of a list. -/
def Pattern.AllNormal (ps : List Pattern) : Prop :=
  wellNamedAll ps = true ∧ normalAll ps = ps

/-- The expression is in normal form, and its names are names of the language. -/
def Expr.IsNormal (e : Expr) : Prop :=
  e.wellNamed = true ∧ e.normal = e

/-- So are all expressions of a list. -/
def Expr.AllNormal (es : List Expr) : Prop :=
  wellNamedAll es = true ∧ normalAll es = es

theorem Pattern.AllNormal.cons {p : Pattern} {ps : List Pattern} (hp : p.IsNormal)
    (hps : AllNormal ps) : AllNormal (p :: ps) :=
  ⟨Bool.and_eq_true_iff.mpr ⟨hp.1, hps.1⟩, congrArg₂ _ hp.2 hps.2⟩

theorem Pattern.IsNormal.ofElems {p : Pattern} {ps : List Pattern} (hp : p.IsNormal)
    (hps : AllNormal ps) : (Pattern.ofElems (p :: ps)).IsNormal := by
  cases ps with
  | nil => exact hp
  | cons q qs => exact ⟨(hps.cons hp).1, congrArg Pattern.ofElems (hps.cons hp).2⟩

theorem Expr.AllNormal.cons {e : Expr} {es : List Expr} (he : e.IsNormal) (hes : AllNormal es) :
    AllNormal (e :: es) :=
  ⟨Bool.and_eq_true_iff.mpr ⟨he.1, hes.1⟩, congrArg₂ _ he.2 hes.2⟩

theorem Expr.IsNormal.ofElems {e : Expr} {es : List Expr} (he : e.IsNormal) (hes : AllNormal es) :
    (Expr.ofElems (e :: es)).IsNormal := by
  cases es with
  | nil => exact he
  | cons e' es => exact ⟨(hes.cons he).1, congrArg Expr.ofElems (hes.cons he).2⟩

theorem Expr.IsNormal.app {f a : Expr} (hf : f.IsNormal) (ha : a.IsNormal) :
    (Expr.app {} f a).IsNormal :=
  ⟨Bool.and_eq_true_iff.mpr ⟨hf.1, ha.1⟩, congrArg₂ _ hf.2 ha.2⟩

theorem Expr.IsNormal.lam {p : Pattern} {b : Expr} (hp : p.IsNormal) (hb : b.IsNormal) :
    (Expr.lam {} p b).IsNormal :=
  ⟨Bool.and_eq_true_iff.mpr ⟨hp.1, hb.1⟩, congrArg₂ _ hp.2 hb.2⟩

theorem Expr.IsNormal.ofParams {params : List Pattern} {b : Expr}
    (hps : Pattern.AllNormal params) (hb : b.IsNormal) : (Expr.ofParams params b).IsNormal := by
  induction params with
  | nil => exact hb
  | cons p ps ih =>
    obtain ⟨hnamed, hnormal⟩ := hps
    rw [Pattern.wellNamedAll, Bool.and_eq_true] at hnamed
    obtain ⟨hp, hps⟩ := List.cons.inj hnormal
    exact .lam ⟨hnamed.1, hp⟩ (ih ⟨hnamed.2, hps⟩)

/-- A literal is no negative integer. -/
theorem isNormal_literal {text : String} (h : decimalValue text.toList ≤ maxInteger) :
    (Expr.int {} (literalValue text)).IsNormal := by
  have hlt : decimalValue text.toList < 9223372036854775808 := Nat.lt_succ_of_le h
  have hval : (literalValue text).toInt = decimalValue text.toList := Int64.toInt_ofNat_of_lt hlt
  have hmin : literalValue text ≠ Int64.minValue := by
    intro heq
    rw [heq] at hval
    have : (-9223372036854775808 : Int) = decimalValue text.toList := hval
    omega
  have hneg : ¬literalValue text < 0 := by
    rw [Int64.lt_iff_toInt_lt, hval]
    exact Int.not_lt.mpr (Int.natCast_nonneg _)
  refine ⟨rfl, ?_⟩
  rw [Expr.normal, Expr.ofInteger, if_neg hmin, if_neg hneg]

mutual

theorem IsPattern.isNormal {ws : List Word} {p : Pattern} :
    IsPattern ws p → (∀ w ∈ ws, w.Proper) → p.IsNormal
  | .name hx, h => ⟨(h _ (List.mem_singleton_self _)).1 hx, rfl⟩
  | .unit _ _, _ => ⟨rfl, rfl⟩
  | .parens _ hp hps _, h => .ofElems (hp.isNormal fun w hw => h w (by simp [hw]))
      (hps.allNormal fun w hw => h w (by simp [hw]))

theorem IsPatternTail.allNormal {us : List Word} {ps : List Pattern} :
    IsPatternTail us ps → (∀ w ∈ us, w.Proper) → Pattern.AllNormal ps
  | .nil, _ => ⟨rfl, rfl⟩
  | .cons _ hp hps, h => .cons (hp.isNormal fun w hw => h w (by simp [hw]))
      (hps.allNormal fun w hw => h w (by simp [hw]))

end

theorem IsPatterns.allNormal {ws : List Word} {ps : List Pattern} (hps : IsPatterns ws ps)
    (h : ∀ w ∈ ws, w.Proper) : Pattern.AllNormal ps := by
  induction hps with
  | nil => exact ⟨rfl, rfl⟩
  | cons hp _ ih =>
    rw [List.forall_mem_append] at h
    exact .cons (hp.isNormal h.1) (ih h.2)

theorem IsBinder.isNormal {ws : List Word} {p : Pattern} {params : List Pattern}
    (hp : IsBinder ws p params) (h : ∀ w ∈ ws, w.Proper) :
    p.IsNormal ∧ Pattern.AllNormal params := by
  cases hp with
  | function hx hps _ =>
    rw [List.forall_mem_cons] at h
    exact ⟨⟨h.1.1 hx, rfl⟩, hps.allNormal h.2⟩
  | plain hp => exact ⟨hp.isNormal h, rfl, rfl⟩

mutual

theorem IsExpr.isNormal {ws : List Word} {e : Expr} :
    IsExpr ws e → (∀ w ∈ ws, w.Proper) → e.IsNormal
  | .block hb, h => hb.isNormal h
  | .atoms ha, h => ha.isNormal h
  | .atomsBlock hf ha, h => by
    rw [List.forall_mem_append] at h
    exact .app (hf.isNormal h.1) (ha.isNormal h.2)

theorem IsBlock.isNormal {ws : List Word} {e : Expr} :
    IsBlock ws e → (∀ w ∈ ws, w.Proper) → e.IsNormal
  | .fn _ hp _ hb, h => .lam (hp.isNormal fun w hw => h w (by simp [hw]))
      (hb.isNormal fun w hw => h w (by simp [hw]))
  | .letIn _ hp _ he _ hb, h => by
    obtain ⟨hp, hparams⟩ := hp.isNormal fun w hw => h w (by simp [hw])
    have he := Expr.IsNormal.ofParams hparams (he.isNormal fun w hw => h w (by simp [hw]))
    have hb := hb.isNormal fun w hw => h w (by simp [hw])
    refine ⟨?_, ?_⟩
    · rw [Expr.wellNamed, hp.1, he.1, hb.1]
      rfl
    · rw [Expr.normal, hp.2, he.2, hb.2]
  | .ite _ hc _ ha _ hb, h => by
    have hc := hc.isNormal fun w hw => h w (by simp [hw])
    have ha := ha.isNormal fun w hw => h w (by simp [hw])
    have hb := hb.isNormal fun w hw => h w (by simp [hw])
    refine ⟨?_, ?_⟩
    · rw [Expr.wellNamed, hc.1, ha.1, hb.1]
      rfl
    · rw [Expr.normal, hc.2, ha.2, hb.2]

theorem IsAtoms.isNormal {ws : List Word} {e : Expr} :
    IsAtoms ws e → (∀ w ∈ ws, w.Proper) → e.IsNormal
  | .one ha, h => ha.isNormal h
  | .app hf ha, h => by
    rw [List.forall_mem_append] at h
    exact .app (hf.isNormal h.1) (ha.isNormal h.2)

theorem IsAtom.isNormal {ws : List Word} {e : Expr} :
    IsAtom ws e → (∀ w ∈ ws, w.Proper) → e.IsNormal
  | .int hw, h => isNormal_literal ((h _ (List.mem_singleton_self _)).2 hw)
  | .boolTrue _, _ => ⟨rfl, rfl⟩
  | .boolFalse _, _ => ⟨rfl, rfl⟩
  | .name hw, h => ⟨(h _ (List.mem_singleton_self _)).1 hw, rfl⟩
  | .unit _ _, _ => ⟨rfl, rfl⟩
  | .parens _ he hes _, h => .ofElems (he.isNormal fun w hw => h w (by simp [hw]))
      (hes.allNormal fun w hw => h w (by simp [hw]))

theorem IsTail.allNormal {us : List Word} {es : List Expr} :
    IsTail us es → (∀ w ∈ us, w.Proper) → Expr.AllNormal es
  | .nil, _ => ⟨rfl, rfl⟩
  | .cons _ he hes, h => .cons (he.isNormal fun w hw => h w (by simp [hw]))
      (hes.allNormal fun w hw => h w (by simp [hw]))

end

/-- **What is read from a source is in normal form.** -/
theorem isNormal_of_parse {source : String} {e : Expr} (h : parse source = .ok e) :
    e.unlocated.IsNormal := by
  obtain ⟨tokens, hlex⟩ := exists_lex_of_parse h
  rw [parse_of_lex hlex] at h
  have hexpr := exists_parseTokens_iff.mp ⟨e, h, rfl⟩
  refine hexpr.isNormal fun w hw => ?_
  obtain ⟨t, ht, rfl⟩ := List.mem_map.mp hw
  exact (lex_eq_ok_iff.mp hlex).proper t (List.mem_filter.mp ht).1

mutual

/-- Places matter neither to names nor to normal forms. -/
theorem Expr.unlocated_normal : (e : Expr) →
    e.unlocated.wellNamed = e.wellNamed ∧ e.unlocated.normal = e.normal
  | .int _ _ | .bool _ _ | .var _ _ => ⟨rfl, rfl⟩
  | .app _ f a => by
    simp only [unlocated, wellNamed, normal, f.unlocated_normal, a.unlocated_normal, and_self]
  | .lam _ p b => by
    simp only [unlocated, wellNamed, normal, b.unlocated_normal, and_self]
  | .letIn _ p e b => by
    simp only [unlocated, wellNamed, normal, e.unlocated_normal, b.unlocated_normal, and_self]
  | .ite _ c t e => by
    simp only [unlocated, wellNamed, normal, c.unlocated_normal, t.unlocated_normal,
      e.unlocated_normal, and_self]
  | .tuple _ es => by
    simp only [unlocated, wellNamed, normal, Expr.unlocatedAll_normal es, and_self]

theorem Expr.unlocatedAll_normal : (es : List Expr) →
    wellNamedAll (unlocatedAll es) = wellNamedAll es ∧ normalAll (unlocatedAll es) = normalAll es
  | [] => ⟨rfl, rfl⟩
  | e :: es => by
    simp only [unlocatedAll, wellNamedAll, normalAll, e.unlocated_normal,
      Expr.unlocatedAll_normal es, and_self]

end

end PolyLet
