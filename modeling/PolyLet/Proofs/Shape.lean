import PolyLet.Proofs.Supply
import PolyLet.Proofs.Unification

/-!
# The check of shapes

Before the type of a bound expression is unified with the type for its pattern, it is checked that
the type leaves room for the pattern. The check, binding and unification each go through patterns
and types in their own way, but they agree. What the check rejects could be neither bound nor
unified, whatever its variables stand for; and binding reports what the check reports, unless it
comes to a variable where the pattern has a tuple.

## Main results

* `Env.exists_bind_freshFor`, `Env.exists_bind_of_unify`: a pattern binds to the type drawn for it,
  and to what that was unified with
* `not_fits_of_checkShape`: what the check rejects fits the pattern under no replacement
* `checkShape_error_cases`: the errors of the check, which never rejects a variable
* `checkShape_of_bind`, `checkShape_eq_of_bind_error`: the check follows binding
* `checkShape_agrees`: the check, binding and unification agree
-/

namespace PolyLet

variable {p : Pattern} {t u : Ty} {e : TypeError} {env env' : Env} {σ : Scheme}

/-! ## Types that are made to fit -/

/-- What is unified with a type that fits the pattern comes to fit it. -/
theorem Pattern.Fits.of_unify {s : Subst} (h : p.Fits t) (hu : unify t u = .ok s) :
    p.Fits (s.apply u) := by
  rw [← unify_unifies hu]
  exact h.replace s.image

/-- A pattern binds to the type that is drawn for it. -/
theorem Env.exists_bind_freshFor (env : Env) (n : Supply) (p : Pattern) :
    ∃ env', env.bind p (.mono (n.freshFor p).1) = .ok env' :=
  exists_bind_iff.mpr (n.freshFor_spec p).2.2

/-- A pattern binds to what the type drawn for it was unified with. -/
theorem Env.exists_bind_of_unify {n : Supply} {s s' : Subst} (env : Env)
    (h : unify (s.apply (n.freshFor p).1) t = .ok s') :
    ∃ env', env.bind p (generalize env (s'.apply t)) = .ok env' :=
  exists_bind_iff.mpr (((n.freshFor_spec p).2.2.replace s.image).of_unify h)

/-! ## What the check rejects -/

theorem not_fits_of_checkShape (h : checkShape p t = .error e) (f : String → Ty) :
    ¬p.Fits (t.replace f) := by
  intro hfits
  exact except_exists_error_iff.mp ⟨e, h⟩ (checkShape_of_fits hfits)

theorem exists_checkShape_of_checkShapeAll {ps : List Pattern} {ts : List Ty}
    (h : checkShapeAll ps ts = .error e) :
    ∃ p t, (p, t) ∈ ps.zip ts ∧ checkShape p t = .error e := by
  induction ps generalizing ts with
  | nil =>
    rw [checkShapeAll] at h
    · cases h
    · simp
  | cons p ps ih =>
    cases ts with
    | nil =>
      rw [checkShapeAll] at h
      · cases h
      · simp
    | cons t ts =>
      rw [checkShapeAll] at h
      rcases except_bind_eq_error_iff.mp h with h | ⟨_, -, h⟩
      · exact ⟨p, t, List.mem_cons_self, h⟩
      · obtain ⟨q, u, hqu, he⟩ := ih h
        exact ⟨q, u, List.mem_cons_of_mem _ hqu, he⟩

/-- The check rejects tuples of another length and types that are no tuples. A variable, which may
still become a tuple, it never rejects. -/
theorem checkShape_error_cases (h : checkShape p t = .error e) :
    (∃ ps ts, e = .patternArity (.tuple ps) (.tuple ts)) ∨
      ∃ ps u, (∀ v, u ≠ .var v) ∧ e = .patternType (.tuple ps) u := by
  induction p using Pattern.ind generalizing t with
  | var x =>
    rw [checkShape] at h
    cases h
  | tuple ps ih =>
    rw [checkShape.eq_def] at h
    cases t with
    | var w => cases h
    | tuple ts =>
      simp only at h
      split at h
      · obtain ⟨p, t, hpt, h⟩ := exists_checkShape_of_checkShapeAll h
        exact ih p (List.of_mem_zip hpt).1 h
      · cases h
        exact .inl ⟨ps, ts, rfl⟩
    | _ =>
      cases h
      exact .inr ⟨ps, _, by simp, rfl⟩

theorem checkShape_error_ne_var (h : checkShape p t = .error e) (q : Pattern) (v : String) :
    e ≠ .patternType q (.var v) := by
  rintro rfl
  rcases checkShape_error_cases h with ⟨ps, ts, heq⟩ | ⟨ps, u, hu, heq⟩
  · cases heq
  · cases heq
    exact hu v rfl

/-! ## What binding reports -/

theorem exists_bind_error (h : ¬p.Fits σ.body) : ∃ e, env.bind p σ = .error e := by
  rw [except_exists_error_iff, Env.exists_bind_iff]
  exact h

theorem checkShape_of_bind (h : env.bind p σ = .ok env') : checkShape p σ.body = .ok () := by
  have hfits : p.Fits (σ.body.replace .var) := by
    rw [Ty.replace_var]
    exact Env.exists_bind_iff.mp ⟨env', h⟩
  obtain ⟨_, hok⟩ := checkShape_of_fits hfits
  exact hok

/-- The components before the first that does not fit pass the check, since they were bound. -/
theorem checkShapeAll_eq_of_bindAll_error {ps : List Pattern} {ts : List Ty}
    (ih : ∀ p ∈ ps, ∀ (env : Env) (σ : Scheme), env.bind p σ = .error e →
      checkShape p σ.body = .error e)
    (h : env.bindAll σ ps ts = .error e) : checkShapeAll ps ts = .error e := by
  induction ps generalizing ts env with
  | nil =>
    rw [Env.bindAll_nil_left] at h
    cases h
  | cons p ps ihs =>
    cases ts with
    | nil =>
      rw [Env.bindAll_nil_right] at h
      cases h
    | cons t ts =>
      rw [Env.bindAll] at h
      rw [checkShapeAll, except_bind_eq_error_iff]
      rcases except_bind_eq_error_iff.mp h with h | ⟨env₁, h₁, h⟩
      · exact .inl (ih p List.mem_cons_self env _ h)
      · refine .inr ⟨(), checkShape_of_bind h₁, ?_⟩
        exact ihs (fun q hq => ih q (List.mem_cons_of_mem p hq)) h

/-- **The check finds the error that binding finds,** unless binding comes to a variable. -/
theorem checkShape_eq_of_bind_error (h : env.bind p σ = .error e)
    (he : ∀ q v, e ≠ .patternType q (.var v)) : checkShape p σ.body = .error e := by
  induction p using Pattern.ind generalizing env σ with
  | var x =>
    rw [Env.bind] at h
    cases h
  | tuple ps ih =>
    rw [Env.bind] at h
    rw [checkShape.eq_def]
    cases hb : σ.body with
    | var v =>
      rw [hb] at h
      exact absurd (Except.error.inj h).symm (he _ v)
    | tuple ts =>
      rw [hb] at h
      simp only at h ⊢
      by_cases hl : ts.length = ps.length
      · rw [if_pos hl] at h
        rw [if_pos hl.symm]
        exact checkShapeAll_eq_of_bindAll_error (fun p hp env σ => ih p hp) h
      · rw [if_neg hl] at h
        rw [if_neg (Ne.symm hl)]
        obtain rfl := Except.error.inj h
        rfl
    | _ =>
      rw [hb] at h
      obtain rfl := Except.error.inj h
      rfl

/-! ## The agreement -/

/-- What the check rejects cannot be unified with a type that fits the pattern: what makes the two
equal would make it fit. -/
theorem exists_unify_error (h : checkShape p t = .error e) (hu : p.Fits u) :
    ∃ e', unify u t = .error e' := by
  rw [except_exists_error_iff]
  rintro ⟨s, hs⟩
  exact not_fits_of_checkShape h s.image (hu.of_unify hs)

/-- **The check, binding and unification agree.** If a type does not pass the check, then the
pattern binds to no instance of it, and it unifies with no type that the pattern binds to. If a type
cannot be bound, for another reason than a variable where a tuple is needed, then the check finds
the same error. If it can be bound, then it passes the check. -/
theorem checkShape_agrees (p : Pattern) (t : Ty) :
    (∀ e, checkShape p t = .error e →
      (∀ (r : Subst) (env : Env) (vs : NameSet), ∃ e', env.bind p ⟨vs, r.apply t⟩ = .error e') ∧
      ∀ u, (∃ (env : Env) (vs : NameSet) (env' : Env), env.bind p ⟨vs, u⟩ = .ok env') →
        ∃ e', unify u t = .error e') ∧
    (∀ (env : Env) (vs : NameSet) e, env.bind p ⟨vs, t⟩ = .error e →
      (∀ q v, e ≠ .patternType q (.var v)) → checkShape p t = .error e) ∧
    ∀ (env : Env) (vs : NameSet) env', env.bind p ⟨vs, t⟩ = .ok env' → checkShape p t = .ok () := by
  refine ⟨fun e h => ⟨fun r env vs => ?_, ?_⟩, fun env vs e h he => ?_, fun env vs env' h => ?_⟩
  · exact exists_bind_error (not_fits_of_checkShape h r.image)
  · rintro u ⟨env, vs, env', hu⟩
    exact exists_unify_error h (Env.exists_bind_iff.mp ⟨env', hu⟩)
  · exact checkShape_eq_of_bind_error h he
  · exact checkShape_of_bind h

/-- The pattern `((x, y), z)` does not fit `(Int -> a, Bool)`, whatever `a` stands for: the check
and binding both name the function, and unification with `((b, c), b)` fails as well. -/
theorem checkShape_agrees_nested :
    Env.bind ∅ (.tuple [.tuple [.var "x", .var "y"], .var "z"])
      ⟨∅, .tuple [.fn .int (.var "a"), .bool]⟩ =
      .error (.patternType (.tuple [.var "x", .var "y"]) (.fn .int (.var "a"))) ∧
    checkShape (.tuple [.tuple [.var "x", .var "y"], .var "z"])
      (.tuple [.fn .int (.var "a"), .bool]) =
      .error (.patternType (.tuple [.var "x", .var "y"]) (.fn .int (.var "a"))) ∧
    (∃ e', Env.bind ∅ (.tuple [.tuple [.var "x", .var "y"], .var "z"])
      ⟨∅, Subst.apply (.singleton "a" .bool) (.tuple [.fn .int (.var "a"), .bool])⟩ = .error e') ∧
    (∃ e', unify (.tuple [.tuple [.var "b", .var "c"], .var "b"])
      (.tuple [.fn .int (.var "a"), .bool]) = .error e') ∧
    checkShape (.tuple [.tuple [.var "x", .var "y"], .var "z"])
      (.tuple [.tuple [.var "b", .var "c"], .var "b"]) = .ok () := by
  obtain ⟨hreject, hreport, -⟩ := checkShape_agrees (.tuple [.tuple [.var "x", .var "y"], .var "z"])
    (.tuple [.fn .int (.var "a"), .bool])
  have hbind : Env.bind ∅ (.tuple [.tuple [.var "x", .var "y"], .var "z"])
      ⟨∅, .tuple [.fn .int (.var "a"), .bool]⟩ =
      .error (.patternType (.tuple [.var "x", .var "y"]) (.fn .int (.var "a"))) := rfl
  have hcheck := hreport ∅ ∅ _ hbind (by simp)
  obtain ⟨hinstance, hunify⟩ := hreject _ hcheck
  exact ⟨hbind, hcheck, hinstance _ ∅ ∅, hunify _ ⟨∅, ∅, _, rfl⟩,
    (checkShape_agrees _ _).2.2 ∅ ∅ _ rfl⟩

end PolyLet
