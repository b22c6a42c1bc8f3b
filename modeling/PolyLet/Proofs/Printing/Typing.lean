import PolyLet.Proofs.AlphaEquivalence
import PolyLet.Proofs.Binding.Leaves
import PolyLet.Proofs.JavaScript.Names
import PolyLet.Proofs.Printing.RoundTrip

/-!
# The type of the printed text

The text of an expression has the same types as the expression, since its normal form has. The only
difference is in the negative integers, which are written as subtractions: these have the type of an
integer as long as `sub` is the operation that every program can use. Inside a function or a `let`
that binds `sub` the text means something else.

## Main definitions

* `Pattern.noSingles p`, `Expr.noSingles e`: no tuple has exactly one component
* `Expr.subVisible e bound`: no negative integer is in the scope of a pattern that binds `sub`

## Main results

* `hasType_normal_iff`: an expression has the types of its normal form
* `check_print`: the text of an expression is checked like the expression
* `check_print_rebound_sub`: where `sub` is bound, a text that is not
-/

namespace PolyLet

/-! ## Expressions that are printed faithfully -/

mutual

/-- No tuple in the pattern has exactly one component. -/
def Pattern.noSingles : Pattern → Bool
  | var _ => true
  | tuple ps => ps.length != 1 && noSinglesAll ps

/-- No tuple in the patterns of a list has exactly one component. -/
def Pattern.noSinglesAll : List Pattern → Bool
  | [] => true
  | p :: ps => p.noSingles && noSinglesAll ps

end

mutual

/-- No tuple in the expression has exactly one component, in its patterns neither. -/
def Expr.noSingles : Expr → Bool
  | int _ _ | bool _ _ | var _ _ => true
  | app _ f a => f.noSingles && a.noSingles
  | lam _ p b => p.noSingles && b.noSingles
  | letIn _ p e b => p.noSingles && (e.noSingles && b.noSingles)
  | ite _ c t e => c.noSingles && (t.noSingles && e.noSingles)
  | tuple _ es => es.length != 1 && noSinglesAll es

/-- No tuple in the expressions of a list has exactly one component. -/
def Expr.noSinglesAll : List Expr → Bool
  | [] => true
  | e :: es => e.noSingles && noSinglesAll es

end

mutual

/-- No negative integer is in the scope of a pattern that binds `sub`. If `bound` holds, a pattern
around the whole expression does. The scope of a `let` includes the bound expression. -/
def Expr.subVisible : Expr → (bound : Bool) → Bool
  | int _ n, bound => !bound || 0 ≤ n
  | bool _ _, _ | var _ _, _ => true
  | app _ f a, bound => f.subVisible bound && a.subVisible bound
  | lam _ p b, bound => b.subVisible (bound || p.names.contains "sub")
  | letIn _ p e b, bound =>
    e.subVisible (bound || p.names.contains "sub") && b.subVisible (bound || p.names.contains "sub")
  | ite _ c t e, bound => c.subVisible bound && (t.subVisible bound && e.subVisible bound)
  | tuple _ es, bound => subVisibleAll es bound

/-- No negative integer in the expressions of a list is in the scope of such a pattern. -/
def Expr.subVisibleAll : List Expr → (bound : Bool) → Bool
  | [], _ => true
  | e :: es, bound => e.subVisible bound && subVisibleAll es bound

end

theorem Pattern.noSinglesAll_iff {ps : List Pattern} :
    noSinglesAll ps = true ↔ ∀ p ∈ ps, p.noSingles = true := by
  induction ps with
  | nil => simp [noSinglesAll]
  | cons p ps ih => rw [noSinglesAll, Bool.and_eq_true, ih, List.forall_mem_cons]

theorem Expr.noSinglesAll_iff {es : List Expr} :
    noSinglesAll es = true ↔ ∀ e ∈ es, e.noSingles = true := by
  induction es with
  | nil => simp [noSinglesAll]
  | cons e es ih => rw [noSinglesAll, Bool.and_eq_true, ih, List.forall_mem_cons]

theorem Expr.subVisibleAll_iff {es : List Expr} {bound : Bool} :
    subVisibleAll es bound = true ↔ ∀ e ∈ es, e.subVisible bound = true := by
  induction es with
  | nil => simp [subVisibleAll]
  | cons e es ih => rw [subVisibleAll, Bool.and_eq_true, ih, List.forall_mem_cons]

/-! ## Normal forms of tuples -/

theorem Pattern.normalAll_eq_map (ps : List Pattern) : normalAll ps = ps.map normal := by
  induction ps with
  | nil => rfl
  | cons p ps ih => exact congrArg (p.normal :: ·) ih

theorem Expr.normalAll_eq_map (es : List Expr) : normalAll es = es.map normal := by
  induction es with
  | nil => rfl
  | cons e es ih => exact congrArg (e.normal :: ·) ih

theorem Pattern.ofElems_of_length_ne {ps : List Pattern} (h : ps.length ≠ 1) :
    ofElems ps = tuple ps := by
  rcases ps with _ | ⟨p, _ | ⟨q, ps⟩⟩
  · rfl
  · exact absurd rfl h
  · rfl

theorem Expr.ofElems_of_length_ne {es : List Expr} (h : es.length ≠ 1) :
    ofElems es = tuple {} es := by
  rcases es with _ | ⟨e, _ | ⟨e', es⟩⟩
  · rfl
  · exact absurd rfl h
  · rfl

/-- A pattern without tuples of one component is its own normal form. -/
theorem Pattern.normal_of_noSingles {p : Pattern} (h : p.noSingles = true) : p.normal = p := by
  induction p using Pattern.ind with
  | var x => rfl
  | tuple ps ih =>
    rw [noSingles, Bool.and_eq_true, bne_iff_ne, noSinglesAll_iff] at h
    have hps : ps.map normal = ps :=
      (List.map_congr_left fun p hp => ih p hp (h.2 p hp)).trans ps.map_id'
    rw [normal, normalAll_eq_map, hps, ofElems_of_length_ne h.1]

/-! ## Types of normal forms -/

section Normal

variable {env : Env} {t : Ty}

/-- A subtraction has the type of an integer and needs two integers, if `sub` has its usual type. -/
theorem hasType_sub_iff (henv : env.get? "sub" = some (.mono integerOperation)) {a b : Expr} :
    HasType env (.sub a b) t ↔ t = .int ∧ HasType env a .int ∧ HasType env b .int := by
  have hsub : ∀ u, HasType env (.var {} "sub") u ↔ integerOperation = u := by
    intro u
    have hinst := Scheme.instanceUnder_mono_iff (f := Ty.var) (t := integerOperation) (u := u)
    rw [hasType_var_iff, henv]
    simp only [Option.some.injEq, exists_eq_left', Scheme.isInstance_iff]
    rw [hinst, Ty.replace_var]
  simp only [Expr.sub, hasType_app_iff, hsub, integerOperation, Ty.fn.injEq]
  constructor
  · rintro ⟨_, ⟨_, ⟨rfl, rfl, rfl⟩, ha⟩, hb⟩
    exact ⟨rfl, ha, hb⟩
  · rintro ⟨rfl, ha, hb⟩
    exact ⟨.int, ⟨.int, ⟨rfl, rfl, rfl⟩, ha⟩, hb⟩

/-- The tree of an integer has the type of an integer: one that is not negative in every
environment, the others where `sub` has its usual type. -/
theorem hasType_ofInteger_iff {n : Int64}
    (h : n < 0 → env.get? "sub" = some (.mono integerOperation)) :
    HasType env (.ofInteger n) t ↔ t = .int := by
  rw [Expr.ofInteger]
  by_cases hn : n < 0
  · -- the least integer takes two subtractions
    have henv := h hn
    by_cases hmin : n = Int64.minValue
    · simp only [if_pos hmin, hasType_sub_iff henv, hasType_int_iff, and_self, and_true]
    · simp only [if_neg hmin, if_pos hn, hasType_sub_iff henv, hasType_int_iff, and_self, and_true]
  · have hmin : n ≠ Int64.minValue := by
      rintro rfl
      exact hn (by decide)
    rw [if_neg hmin, if_neg hn, hasType_int_iff]

/-- Where no pattern of the scope binds `sub`, a pattern that does not bind it changes nothing
about it. -/
theorem get?_sub_of_bind {env' : Env} {p : Pattern} {σ : Scheme} {bound : Bool}
    (henv : bound = false → env.get? "sub" = some (.mono integerOperation))
    (h : env.bind p σ = .ok env') (hb : (bound || p.names.contains "sub") = false) :
    env'.get? "sub" = some (.mono integerOperation) := by
  rw [Bool.or_eq_false_iff] at hb
  have hp : "sub" ∉ p.names := fun hmem => by
    rw [List.contains_iff_mem.mpr hmem] at hb
    cases hb.2
  rw [Env.get?_bind_of_not_mem h hp, henv hb.1]

/-- **An expression has the types of its normal form,** if no tuple has exactly one component and
`sub` has its usual type at every negative integer. -/
theorem hasType_normal_iff {e : Expr} {bound : Bool} (hs : e.noSingles = true)
    (hv : e.subVisible bound = true)
    (henv : bound = false → env.get? "sub" = some (.mono integerOperation)) :
    HasType env e.normal t ↔ HasType env e t := by
  -- the environment changes with every pattern, and with it whether `sub` is bound
  induction e using Expr.ind generalizing env t bound with
  | int _ n =>
    rw [hasType_int_iff]
    refine hasType_ofInteger_iff fun hn => henv ?_
    rw [Expr.subVisible, Bool.or_eq_true, Bool.not_eq_true', decide_eq_true_iff] at hv
    exact hv.resolve_right (Int64.not_le.mpr hn)
  | bool => exact hasType_bool_iff.trans hasType_bool_iff.symm
  | var => exact hasType_var_iff.trans hasType_var_iff.symm
  | app _ f a ihf iha =>
    rw [Expr.noSingles, Bool.and_eq_true] at hs
    rw [Expr.subVisible, Bool.and_eq_true] at hv
    simp only [Expr.normal, hasType_app_iff, ihf hs.1 hv.1 henv, iha hs.2 hv.2 henv]
  | lam _ p b ihb =>
    rw [Expr.noSingles, Bool.and_eq_true] at hs
    rw [Expr.subVisible] at hv
    rw [Expr.normal, Pattern.normal_of_noSingles hs.1, hasType_lam_iff, hasType_lam_iff]
    refine exists_congr fun u => exists_congr fun w => exists_congr fun env' => ?_
    refine and_congr_right' (and_congr_right fun hb => ?_)
    exact ihb hs.2 hv fun h => get?_sub_of_bind henv hb h
  | letIn _ p e b ihe ihb =>
    rw [Expr.noSingles, Bool.and_eq_true, Bool.and_eq_true] at hs
    rw [Expr.subVisible, Bool.and_eq_true] at hv
    rw [Expr.normal, Pattern.normal_of_noSingles hs.1, hasType_letIn_iff, hasType_letIn_iff]
    refine exists_congr fun u => exists_congr fun recEnv => exists_congr fun bodyEnv => ?_
    refine and_congr_right fun hrec => ?_
    refine and_congr (ihe hs.2.1 hv.1 fun h => get?_sub_of_bind henv hrec h) ?_
    exact and_congr_right fun hbody => ihb hs.2.2 hv.2 fun h => get?_sub_of_bind henv hbody h
  | ite _ c a b ihc iha ihb =>
    rw [Expr.noSingles, Bool.and_eq_true, Bool.and_eq_true] at hs
    rw [Expr.subVisible, Bool.and_eq_true, Bool.and_eq_true] at hv
    simp only [Expr.normal, hasType_ite_iff, ihc hs.1 hv.1 henv, iha hs.2.1 hv.2.1 henv,
      ihb hs.2.2 hv.2.2 henv]
  | tuple _ es ih =>
    rw [Expr.noSingles, Bool.and_eq_true, bne_iff_ne, Expr.noSinglesAll_iff] at hs
    rw [Expr.subVisible, Expr.subVisibleAll_iff] at hv
    rw [Expr.normal, Expr.normalAll_eq_map, Expr.ofElems_of_length_ne (by simpa using hs.1)]
    exact hasType_tuple_map_iff fun e he t => ih e he (hs.2 e he) (hv e he) henv

end Normal

/-! ## Programs -/

theorem get?_sub_builtinEnv : builtinEnv.get? "sub" = some (.mono integerOperation) := by
  decide

/-- **The text of an expression is checked like the expression.** If all names are names of the
language, no tuple has exactly one component and no negative integer is in the scope of a pattern
that binds `sub`, then the text is parsed, and either both checks fail or both find one scheme up to
the names of its quantified variables. -/
theorem check_print (e : Expr) (hn : e.wellNamed = true) (hs : e.noSingles = true)
    (hv : e.subVisible false = true) : ∃ e', parse e.print = .ok e' ∧ ChecksAlike e e' := by
  obtain ⟨e', he', htree⟩ := parse_print_of_wellNamed hn
  refine ⟨e', he', checksAlike_of_hasType_iff fun t => ?_⟩
  calc HasType builtinEnv e t
    _ ↔ HasType builtinEnv e.normal t :=
      (hasType_normal_iff hs hv fun _ => get?_sub_builtinEnv).symm
    _ ↔ HasType builtinEnv e'.unlocated t := by rw [htree]
    _ ↔ HasType builtinEnv e' t := hasType_unlocated_iff

/-- The least integer next to a function whose parameter is called `sub`: both checks succeed, and
with one scheme. -/
theorem check_print_least :
    (Expr.app {} (.lam {} (.var "sub") (.var {} "sub")) (.int {} Int64.minValue)).wellNamed = true ∧
    (Expr.app {} (.lam {} (.var "sub") (.var {} "sub")) (.int {} Int64.minValue)).noSingles = true ∧
    (Expr.app {} (.lam {} (.var "sub") (.var {} "sub"))
      (.int {} Int64.minValue)).subVisible false = true ∧
    ∃ e', parse "(fn sub -> sub) (sub (sub 0 9223372036854775807) 1)" = .ok e' ∧ ∃ σ τ,
      check (.app {} (.lam {} (.var "sub") (.var {} "sub")) (.int {} Int64.minValue)) = .ok σ ∧
      check e' = .ok τ ∧ σ.AlphaEq τ := by
  obtain ⟨e', he', halike⟩ := check_print
    (.app {} (.lam {} (.var "sub") (.var {} "sub")) (.int {} Int64.minValue)) rfl rfl rfl
  refine ⟨rfl, rfl, rfl, e', he', halike.resolve_left ?_⟩
  -- the expression has the type of an integer
  rintro ⟨err, -, herr, -⟩
  have hsub : HasType (builtinEnv.insert "sub" (.mono .int)) (.var {} "sub") .int :=
    .var (σ := .mono .int) (by decide) (Scheme.mono .int).isInstance_body
  have hlam : HasType builtinEnv (.lam {} (.var "sub") (.var {} "sub")) (.fn .int .int) :=
    .lam rfl hsub
  obtain ⟨σ, hσ⟩ := exists_check_of_hasType (.app hlam .int)
  rw [herr] at hσ
  cases hσ

/-- **A text that is not checked like its expression.** The text of a negative integer uses `sub`,
also where `sub` is bound to something else. -/
theorem check_print_rebound_sub :
    (Expr.letIn {} (.var "sub") (.bool {} true) (.int {} (-3))).wellNamed = true ∧
    (Expr.letIn {} (.var "sub") (.bool {} true) (.int {} (-3))).noSingles = true ∧
    (Expr.letIn {} (.var "sub") (.bool {} true) (.int {} (-3))).print =
      "let sub = True in sub 0 3" ∧
    (∃ σ, check (.letIn {} (.var "sub") (.bool {} true) (.int {} (-3))) = .ok σ) ∧
    ∃ e', parse "let sub = True in sub 0 3" = .ok e' ∧ ∃ err, check e' = .error err := by
  have hlet : HasType builtinEnv (.letIn {} (.var "sub") (.bool {} true) (.int {} (-3))) .int :=
    .letIn rfl .bool rfl .int
  obtain ⟨e', he', htree⟩ := parse_print_of_wellNamed
    (e := .letIn {} (.var "sub") (.bool {} true) (.int {} (-3))) rfl
  refine ⟨rfl, rfl, rfl, exists_check_of_hasType hlet, e', he', ?_⟩
  cases hτ : check e' with
  | error err => exact ⟨err, rfl⟩
  | ok τ =>
    -- a type of the text would be one of a subtraction, where `sub` is a truth value
    have ht := (hasType_iff_of_check hτ).mpr τ.isInstance_body
    rw [← hasType_unlocated_iff, htree] at ht
    obtain ⟨u, _, bodyEnv, -, hu, hbody, ht⟩ := hasType_letIn_iff.mp ht
    obtain rfl := hasType_bool_iff.mp hu
    obtain rfl := Except.ok.inj hbody
    obtain ⟨v, hv, -⟩ := hasType_app_iff.mp ht
    obtain ⟨w, hw, -⟩ := hasType_app_iff.mp hv
    obtain ⟨σ, hσ, hinst⟩ := hasType_var_iff.mp hw
    rw [NameMap.get?_insert, if_pos rfl] at hσ
    obtain rfl := Option.some.inj hσ
    obtain ⟨g, -, hg⟩ := Scheme.isInstance_iff.mp hinst
    cases hg

end PolyLet
