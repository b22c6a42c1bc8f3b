import PolyLet.Builtin
import PolyLet.Proofs.Inference.Completeness
import PolyLet.Proofs.Inference.Soundness

/-!
# Principal type schemes

In an environment without free type variables, the types of an expression are the instances of one
scheme: the generalization of the type that inference returns. A program has a type if and only if
the check of it succeeds, and its types are then the instances of the scheme that is found.

## Main results

* `hasType_iff_of_infer`: the types of an expression are the instances of what inference returns
* `check_eq_ok_iff`: the check of a program in terms of inference
* `hasType_iff_of_check`, `exists_check_of_hasType`: the check of a program and its types
* `check_principal`: the types of a program are the instances of its scheme
-/

namespace PolyLet

open Env

variable {env : Env} {n n' : Supply} {s : Subst} {e : Expr} {t u : Ty}

/-! ## Environments without free variables -/

/-- **Inference finds principal types.** Without free type variables in the environment, the types
of an expression are the instances of the generalization of what inference returns. -/
theorem hasType_iff_of_infer (hc : env.Clean n) (hfree : ∀ v, v ∉ env.freeVars)
    (hr : (infer env e).run n = .ok (s, t) n') :
    HasType env e u ↔ (generalize env t).IsInstance u := by
  rw [Scheme.isInstance_iff, instanceUnder_generalize_iff]
  constructor
  · intro h
    obtain ⟨s', t', n'', g, hr', -, hu⟩ := e.inferComplete hc (.refl env Ty.var) h
    rw [hr, EStateM.Result.ok.injEq, Prod.mk.injEq] at hr'
    obtain ⟨⟨-, rfl⟩, -⟩ := hr'
    exact ⟨g, fun v hv => absurd hv (hfree v), hu⟩
  · rintro ⟨g, -, rfl⟩
    -- the substitution does nothing in the environment, and `g` can be anything
    obtain ⟨hs, -⟩ := infer_settles hc hr
    refine (e.inferSound hc hr).replace ((specializes_of_applyEnv (hs.avoidsEnv hc)).trans ?_)
    exact .of_agree fun v hv => absurd hv (hfree v)

/-! ## Programs -/

theorem builtinEnv_clean (n : Supply) : builtinEnv.Clean n :=
  .of_entries (by decide) (by decide)

theorem not_mem_freeVars_builtinEnv (v : String) : v ∉ builtinEnv.freeVars := by
  have h : builtinEnv.freeVars = ∅ := by decide
  rw [h]
  exact NameSet.not_mem_empty v

theorem check_eq_ok_iff {σ : Scheme} :
    check e = .ok σ ↔
      ∃ s t n', (infer builtinEnv e).run {} = .ok (s, t) n' ∧ generalize builtinEnv t = σ := by
  rw [check, inferType_eq_map (builtinEnv_clean {}), except_bind_eq_ok_iff]
  constructor
  · rintro ⟨t, ht, hσ⟩
    obtain ⟨⟨s, t⟩, hres, rfl⟩ := except_map_eq_ok_iff.mp ht
    obtain ⟨n', hr⟩ := Inference.result_eq_ok_iff.mp hres
    exact ⟨s, t, n', hr, Except.ok.inj hσ⟩
  · rintro ⟨s, t, n', hr, rfl⟩
    have hres := Inference.result_eq_ok_iff.mpr ⟨n', hr⟩
    exact ⟨t, except_map_eq_ok_iff.mpr ⟨(s, t), hres, rfl⟩, rfl⟩

/-- The types of a program whose check succeeds are the instances of the scheme that is found. -/
theorem hasType_iff_of_check {σ : Scheme} (h : check e = .ok σ) :
    HasType builtinEnv e t ↔ σ.IsInstance t := by
  obtain ⟨s, t₀, n', hr, rfl⟩ := check_eq_ok_iff.mp h
  exact hasType_iff_of_infer (builtinEnv_clean {}) not_mem_freeVars_builtinEnv hr

/-- The check of a program that has a type succeeds. -/
theorem exists_check_of_hasType (h : HasType builtinEnv e t) : ∃ σ, check e = .ok σ := by
  obtain ⟨s, t₀, n', -, hr, -, -⟩ :=
    e.inferComplete (builtinEnv_clean {}) (.refl builtinEnv Ty.var) h
  exact ⟨_, check_eq_ok_iff.mpr ⟨s, t₀, n', hr, rfl⟩⟩

/-- The check of a program quantifies nothing in vain. -/
theorem mem_vars_of_check {σ : Scheme} (h : check e = .ok σ) {v : String} (hv : v ∈ σ.vars) :
    v ∈ σ.body.vars := by
  obtain ⟨s, t₀, n', -, rfl⟩ := check_eq_ok_iff.mp h
  exact Ty.mem_freeVars.mp (NameSet.mem_filter.mp hv).1

/-- **The check of a program finds its principal type scheme.** A program has a type if and only if
its check succeeds with a scheme that has the type as an instance; a program whose check fails has
no type at all. -/
theorem check_principal (e : Expr) :
    (∀ t, HasType builtinEnv e t ↔ ∃ σ, check e = .ok σ ∧ σ.IsInstance t) ∧
    ∀ err, check e = .error err → ∀ t, ¬HasType builtinEnv e t := by
  have hiff : ∀ t, HasType builtinEnv e t ↔ ∃ σ, check e = .ok σ ∧ σ.IsInstance t := by
    intro t
    constructor
    · intro h
      obtain ⟨s, t₀, n', -, hr, -, -⟩ :=
        e.inferComplete (builtinEnv_clean {}) (.refl builtinEnv Ty.var) h
      exact ⟨_, check_eq_ok_iff.mpr ⟨s, t₀, n', hr, rfl⟩,
        (hasType_iff_of_infer (builtinEnv_clean {}) not_mem_freeVars_builtinEnv hr).mp h⟩
    · rintro ⟨σ, hσ, ht⟩
      obtain ⟨s, t₀, n', hr, rfl⟩ := check_eq_ok_iff.mp hσ
      exact (hasType_iff_of_infer (builtinEnv_clean {}) not_mem_freeVars_builtinEnv hr).mpr ht
  refine ⟨hiff, fun err herr t ht => ?_⟩
  obtain ⟨σ, hσ, -⟩ := (hiff t).mp ht
  simp [herr] at hσ

/-- The program `fn x -> eq x x` has the type `Int -> Bool`, which its scheme covers; a name that is
not bound has none. -/
theorem check_principal_eq :
    HasType builtinEnv (.lam {} (.var "x") (.app {} (.app {} (.var {} "eq") (.var {} "x"))
      (.var {} "x"))) (.fn .int .bool) ∧
    (∃ σ, check (.lam {} (.var "x") (.app {} (.app {} (.var {} "eq") (.var {} "x"))
      (.var {} "x"))) = .ok σ ∧ σ.IsInstance (.fn .int .bool)) ∧
    ∀ t, ¬HasType builtinEnv (.var {} "x") t := by
  have hx : HasType (builtinEnv.insert "x" (.mono .int)) (.var {} "x") .int :=
    .var (σ := .mono .int) (by decide) (Scheme.isInstance_iff.mpr ⟨Ty.var, by simp, rfl⟩)
  have heq : HasType (builtinEnv.insert "x" (.mono .int)) (.var {} "eq")
      (.fn .int (.fn .int .bool)) := by
    refine .var (σ := ⟨.ofList ["a"], .fn (.var "a") (.fn (.var "a") .bool)⟩) (by decide) ?_
    refine Scheme.isInstance_iff.mpr
      ⟨fun v => if v = "a" then .int else .var v, fun v hv => if_neg ?_, rfl⟩
    simpa using hv
  have h : HasType builtinEnv (.lam {} (.var "x") (.app {} (.app {} (.var {} "eq") (.var {} "x"))
      (.var {} "x"))) (.fn .int .bool) := .lam rfl (.app (.app heq hx) hx)
  exact ⟨h, ((check_principal _).1 _).mp h, (check_principal _).2 ⟨.unboundVariable "x", {}⟩ rfl⟩

end PolyLet
