import Mathlib.Logic.Relation
import PolyLet.Proofs.Shape
import PolyLet.Proofs.Unification.Errors

/-!
# Failing runs of inference

A run of inference fails because the rule of one node raised an error: the calls that this rule had
made until then all succeeded, and the rules above pass the error on as it is. Binding a pattern is
no such reason. The types that the rules bind patterns to were made for the pattern, or were unified
with one that was, whatever the environment and the supply have to do with each other.

## Main definitions

* `Call`: a call of inference, with `Call.run`
* `Call.Makes c c'`: the rule of the node of `c` makes the call `c'`
* `Call.Raises c cause n`: the rule of the node of `c` itself raises an error, and leaves `n`

## Main results

* `infer_app_eq_error_iff`, `infer_letIn_eq_error_iff` and the lemmas beside them: failure of
  inference at each form of expression
* `Call.raises_or_makes_of_run`: an error is raised at the node or comes from a call
* `Call.run_eq_error_iff`: an error is raised at some node that is reached by successive calls
* `infer_pattern_errors`: patterns are rejected by the check of shapes at a `let`, and nowhere else
-/

namespace PolyLet

/-! ## Steps that fail -/

namespace Inference

variable {α β : Type} {n n' : Supply} {e : InferError}

theorem run_bind_eq_error_iff {x : Inference α} {f : α → Inference β} :
    (x >>= f).run n = .error e n' ↔
      x.run n = .error e n' ∨ ∃ a n₁, x.run n = .ok a n₁ ∧ (f a).run n₁ = .error e n' := by
  cases hx : x.run n with
  | error e' m => simp [run_bind_of_error hx]
  | ok a m =>
    rw [run_bind_of_ok hx]
    constructor
    · intro h
      exact .inr ⟨a, m, rfl, h⟩
    · rintro (h | ⟨_, _, h, h'⟩)
      · cases h
      · cases h
        exact h'

theorem run_pure_ne_error {a : α} : (pure a : Inference α).run n ≠ .error e n' :=
  nofun

theorem run_modifyGet_ne_error {f : Supply → α × Supply} :
    (modifyGet f : Inference α).run n ≠ .error e n' :=
  nofun

theorem run_raiseAt_eq_error_iff {span : Span} {x : Except TypeError α} :
    (raiseAt span x).run n = .error e n' ↔ x = .error e.cause ∧ e.span = span ∧ n' = n := by
  cases x with
  | ok a => exact iff_of_false run_pure_ne_error (by simp)
  | error cause =>
    constructor
    · rintro ⟨⟩
      exact ⟨rfl, rfl, rfl⟩
    · rintro ⟨⟨⟩, rfl, rfl⟩
      rfl

end Inference

/-! ## The rules -/

section Rules

open Inference

variable {env : Env} {n n' : Supply} {span : Span} {e : InferError}

theorem infer_var_eq_error_iff {x : String} :
    (infer env (.var span x)).run n = .error e n' ↔
      env.get? x = none ∧ e = ⟨.unboundVariable x, span⟩ ∧ n' = n := by
  rw [infer]
  cases env.get? x with
  | none =>
    constructor
    · rintro ⟨⟩
      exact ⟨rfl, rfl, rfl⟩
    · rintro ⟨-, rfl, rfl⟩
      rfl
  | some σ =>
    constructor
    · intro h
      cases h
    · rintro ⟨h, -⟩
      cases h

theorem infer_app_eq_error_iff {func arg : Expr} :
    (infer env (.app span func arg)).run n = .error e n' ↔
      (infer env func).run n = .error e n' ∨
      ∃ s₁ funcTy n₁, (infer env func).run n = .ok (s₁, funcTy) n₁ ∧
      ((infer (s₁.applyEnv env) arg).run n₁ = .error e n' ∨
      ∃ s₂ argTy n₂, (infer (s₁.applyEnv env) arg).run n₁ = .ok (s₂, argTy) n₂ ∧
        (if (s₂.apply funcTy).mayBeFn then unify (s₂.apply funcTy) (.fn argTy n₂.fresh.1)
          else .error (.mismatch (.fn argTy n₂.fresh.1) (s₂.apply funcTy))) = .error e.cause ∧
        e.span = span ∧ n' = n₂.fresh.2) := by
  simp only [infer, run_bind_eq_error_iff, run_modifyGet_eq_ok_iff, run_raiseAt_eq_error_iff,
    run_modifyGet_ne_error, run_pure_ne_error, Prod.exists]
  simp only [and_assoc, exists_and_left, exists_eq_left, and_false, exists_false, or_false,
    false_or]

theorem infer_lam_eq_error_iff {param : Pattern} {body : Expr} :
    (infer env (.lam span param body)).run n = .error e n' ↔
      env.bind param (.mono (n.freshFor param).1) = .error e.cause ∧ e.span = span ∧
        n' = (n.freshFor param).2 ∨
      ∃ env', env.bind param (.mono (n.freshFor param).1) = .ok env' ∧
        (infer env' body).run (n.freshFor param).2 = .error e n' := by
  simp only [infer, run_bind_eq_error_iff, run_modifyGet_eq_ok_iff, run_raiseAt_eq_error_iff,
    run_raiseAt_eq_ok_iff, run_modifyGet_ne_error, run_pure_ne_error]
  simp only [and_assoc, exists_and_left, exists_eq_left, and_false, exists_false, or_false,
    false_or]

theorem infer_letIn_eq_error_iff {pattern : Pattern} {bound body : Expr} :
    (infer env (.letIn span pattern bound body)).run n = .error e n' ↔
      env.bind pattern (.mono (n.freshFor pattern).1) = .error e.cause ∧ e.span = span ∧
        n' = (n.freshFor pattern).2 ∨
      ∃ recEnv, env.bind pattern (.mono (n.freshFor pattern).1) = .ok recEnv ∧
      ((infer recEnv bound).run (n.freshFor pattern).2 = .error e n' ∨
      ∃ s₁ boundTy n₁, (infer recEnv bound).run (n.freshFor pattern).2 = .ok (s₁, boundTy) n₁ ∧
      (checkShape pattern boundTy = .error e.cause ∧ e.span = span ∧ n' = n₁ ∨
      ∃ u, checkShape pattern boundTy = .ok u ∧
      (unify (s₁.apply (n.freshFor pattern).1) boundTy = .error e.cause ∧ e.span = span ∧ n' = n₁ ∨
      ∃ s₂, unify (s₁.apply (n.freshFor pattern).1) boundTy = .ok s₂ ∧
      (((s₁.compose s₂).applyEnv env).bind pattern
        (generalize ((s₁.compose s₂).applyEnv env) (s₂.apply boundTy)) = .error e.cause ∧
        e.span = span ∧ n' = n₁ ∨
      ∃ bodyEnv, ((s₁.compose s₂).applyEnv env).bind pattern
        (generalize ((s₁.compose s₂).applyEnv env) (s₂.apply boundTy)) = .ok bodyEnv ∧
        (infer bodyEnv body).run n₁ = .error e n')))) := by
  simp only [infer, run_bind_eq_error_iff, run_modifyGet_eq_ok_iff, run_raiseAt_eq_error_iff,
    run_raiseAt_eq_ok_iff, run_modifyGet_ne_error, run_pure_ne_error, Prod.exists]
  simp only [and_assoc, exists_and_left, exists_eq_left, and_false, exists_false, or_false,
    false_or]

theorem infer_ite_eq_error_iff {cond thenBranch elseBranch : Expr} :
    (infer env (.ite span cond thenBranch elseBranch)).run n = .error e n' ↔
      (infer env cond).run n = .error e n' ∨
      ∃ s₁ condTy n₁, (infer env cond).run n = .ok (s₁, condTy) n₁ ∧
      (unify .bool condTy = .error e.cause ∧ e.span = span ∧ n' = n₁ ∨
      ∃ s₂, unify .bool condTy = .ok s₂ ∧
      ((infer ((s₁.compose s₂).applyEnv env) thenBranch).run n₁ = .error e n' ∨
      ∃ s₃ thenTy n₂,
        (infer ((s₁.compose s₂).applyEnv env) thenBranch).run n₁ = .ok (s₃, thenTy) n₂ ∧
      ((infer (((s₁.compose s₂).compose s₃).applyEnv env) elseBranch).run n₂ = .error e n' ∨
      ∃ s₄ elseTy n₃, (infer (((s₁.compose s₂).compose s₃).applyEnv env) elseBranch).run n₂ =
        .ok (s₄, elseTy) n₃ ∧
      unify (s₄.apply thenTy) elseTy = .error e.cause ∧ e.span = span ∧ n' = n₃))) := by
  simp only [infer, run_bind_eq_error_iff, run_raiseAt_eq_error_iff, run_raiseAt_eq_ok_iff,
    run_pure_ne_error, Prod.exists]
  simp only [and_assoc, exists_and_left, exists_eq_left, and_false, exists_false, or_false]

/-- The components of a tuple fail at the first that does. -/
theorem inferAll_eq_error_iff {es : List Expr} {s : Subst} :
    (inferAll env s es).run n = .error e n' ↔
      ∃ before x after, es = before ++ x :: after ∧
      ∃ s₁ ts n₁, (inferAll env s before).run n = .ok (s₁, ts) n₁ ∧
        (infer (s₁.applyEnv env) x).run n₁ = .error e n' := by
  induction es generalizing s n with
  | nil =>
    rw [inferAll]
    exact iff_of_false run_pure_ne_error (by simp)
  | cons y es ih =>
    simp only [inferAll, run_bind_eq_error_iff, run_pure_ne_error, and_false, exists_false,
      or_false, Prod.exists, ih, List.cons_eq_append_iff]
    constructor
    -- the first component fails, or else it is one of those that come before
    · rintro (h | ⟨s₁, t, n₁, hy, before, x, after, rfl, s₂, ts, n₂, hb, h⟩)
      · exact ⟨[], y, es, .inl ⟨rfl, rfl⟩, s, [], n, inferAll_nil_eq_ok_iff.mpr ⟨rfl, rfl, rfl⟩, h⟩
      · exact ⟨y :: before, x, after, .inr ⟨before, rfl, rfl⟩, s₂, t :: ts, n₂,
          inferAll_cons_eq_ok_iff.mpr ⟨s₁, t, n₁, hy, s₂, ts, n₂, hb, rfl, rfl, rfl⟩, h⟩
    · rintro ⟨before, x, after, ⟨rfl, hx⟩ | ⟨before', rfl, rfl⟩, s₂, ts, n₂, hb, h⟩
      · obtain ⟨rfl, rfl⟩ := List.cons.inj hx
        obtain ⟨rfl, -, rfl⟩ := inferAll_nil_eq_ok_iff.mp hb
        exact .inl h
      · obtain ⟨s₁, t, n₁, hy, _, us, _, hb, rfl, -, rfl⟩ := inferAll_cons_eq_ok_iff.mp hb
        exact .inr ⟨s₁, t, n₁, hy, before', x, after, rfl, s₂, us, n₂, hb, h⟩

theorem infer_tuple_eq_error_iff {elems : List Expr} :
    (infer env (.tuple span elems)).run n = .error e n' ↔
      ∃ before x after, elems = before ++ x :: after ∧
      ∃ s₁ ts n₁, (inferAll env ∅ before).run n = .ok (s₁, ts) n₁ ∧
        (infer (s₁.applyEnv env) x).run n₁ = .error e n' := by
  rw [← inferAll_eq_error_iff, infer, run_bind_eq_error_iff]
  simp only [run_pure_ne_error, and_false, exists_false, or_false]

end Rules

/-! ## The calls and the errors of a rule -/

/-- A call of inference, with the supply that it begins with. -/
structure Call where
  env : Env
  expr : Expr
  supply : Supply

namespace Call

/-- The outcome of a call. -/
def run (c : Call) : EStateM.Result InferError Supply (Subst × Ty) :=
  (infer c.env c.expr).run c.supply

/-- The rule of the node makes the call. It comes to it if all that it does before succeeds. -/
inductive Makes : Call → Call → Prop
  | func {env : Env} {n : Supply} {span : Span} {func arg : Expr} :
      Makes ⟨env, .app span func arg, n⟩ ⟨env, func, n⟩
  | arg {env : Env} {n : Supply} {span : Span} {func arg : Expr} {s₁ : Subst} {funcTy : Ty}
      {n₁ : Supply} (hf : (infer env func).run n = .ok (s₁, funcTy) n₁) :
      Makes ⟨env, .app span func arg, n⟩ ⟨s₁.applyEnv env, arg, n₁⟩
  | lamBody {env env' : Env} {n : Supply} {span : Span} {param : Pattern} {body : Expr}
      (hp : env.bind param (.mono (n.freshFor param).1) = .ok env') :
      Makes ⟨env, .lam span param body, n⟩ ⟨env', body, (n.freshFor param).2⟩
  | bound {env recEnv : Env} {n : Supply} {span : Span} {pattern : Pattern} {bound body : Expr}
      (hp : env.bind pattern (.mono (n.freshFor pattern).1) = .ok recEnv) :
      Makes ⟨env, .letIn span pattern bound body, n⟩ ⟨recEnv, bound, (n.freshFor pattern).2⟩
  | letBody {env recEnv bodyEnv : Env} {n : Supply} {span : Span} {pattern : Pattern}
      {bound body : Expr} {s₁ s₂ : Subst} {boundTy : Ty} {n₁ : Supply}
      (hp : env.bind pattern (.mono (n.freshFor pattern).1) = .ok recEnv)
      (hb : (infer recEnv bound).run (n.freshFor pattern).2 = .ok (s₁, boundTy) n₁)
      (hc : checkShape pattern boundTy = .ok ())
      (hu : unify (s₁.apply (n.freshFor pattern).1) boundTy = .ok s₂)
      (hg : ((s₁.compose s₂).applyEnv env).bind pattern
        (generalize ((s₁.compose s₂).applyEnv env) (s₂.apply boundTy)) = .ok bodyEnv) :
      Makes ⟨env, .letIn span pattern bound body, n⟩ ⟨bodyEnv, body, n₁⟩
  | cond {env : Env} {n : Supply} {span : Span} {cond thenBranch elseBranch : Expr} :
      Makes ⟨env, .ite span cond thenBranch elseBranch, n⟩ ⟨env, cond, n⟩
  | thenBranch {env : Env} {n : Supply} {span : Span} {cond thenBranch elseBranch : Expr}
      {s₁ s₂ : Subst} {condTy : Ty} {n₁ : Supply}
      (hc : (infer env cond).run n = .ok (s₁, condTy) n₁) (hu : unify .bool condTy = .ok s₂) :
      Makes ⟨env, .ite span cond thenBranch elseBranch, n⟩
        ⟨(s₁.compose s₂).applyEnv env, thenBranch, n₁⟩
  | elseBranch {env : Env} {n : Supply} {span : Span} {cond thenBranch elseBranch : Expr}
      {s₁ s₂ s₃ : Subst} {condTy thenTy : Ty} {n₁ n₂ : Supply}
      (hc : (infer env cond).run n = .ok (s₁, condTy) n₁) (hu : unify .bool condTy = .ok s₂)
      (ht : (infer ((s₁.compose s₂).applyEnv env) thenBranch).run n₁ = .ok (s₃, thenTy) n₂) :
      Makes ⟨env, .ite span cond thenBranch elseBranch, n⟩
        ⟨((s₁.compose s₂).compose s₃).applyEnv env, elseBranch, n₂⟩
  | elem {env : Env} {n : Supply} {span : Span} {before after : List Expr} {e : Expr} {s : Subst}
      {ts : List Ty} {n₁ : Supply} (hb : (inferAll env ∅ before).run n = .ok (s, ts) n₁) :
      Makes ⟨env, .tuple span (before ++ e :: after), n⟩ ⟨s.applyEnv env, e, n₁⟩

/-- The rule of the node itself raises the error, after all the calls that it makes before have
succeeded. -/
inductive Raises : Call → TypeError → Supply → Prop
  | unbound {env : Env} {n : Supply} {span : Span} {x : String} (hx : env.get? x = none) :
      Raises ⟨env, .var span x, n⟩ (.unboundVariable x) n
  | app {env : Env} {n : Supply} {span : Span} {func arg : Expr} {s₁ s₂ : Subst}
      {funcTy argTy : Ty} {n₁ n₂ : Supply} {cause : TypeError}
      (hf : (infer env func).run n = .ok (s₁, funcTy) n₁)
      (ha : (infer (s₁.applyEnv env) arg).run n₁ = .ok (s₂, argTy) n₂)
      (hu : (if (s₂.apply funcTy).mayBeFn then unify (s₂.apply funcTy) (.fn argTy n₂.fresh.1)
        else .error (.mismatch (.fn argTy n₂.fresh.1) (s₂.apply funcTy))) = .error cause) :
      Raises ⟨env, .app span func arg, n⟩ cause n₂.fresh.2
  | shape {env recEnv : Env} {n : Supply} {span : Span} {pattern : Pattern} {bound body : Expr}
      {s₁ : Subst} {boundTy : Ty} {n₁ : Supply} {cause : TypeError}
      (hp : env.bind pattern (.mono (n.freshFor pattern).1) = .ok recEnv)
      (hb : (infer recEnv bound).run (n.freshFor pattern).2 = .ok (s₁, boundTy) n₁)
      (hc : checkShape pattern boundTy = .error cause) :
      Raises ⟨env, .letIn span pattern bound body, n⟩ cause n₁
  | bound {env recEnv : Env} {n : Supply} {span : Span} {pattern : Pattern} {bound body : Expr}
      {s₁ : Subst} {boundTy : Ty} {n₁ : Supply} {cause : TypeError}
      (hp : env.bind pattern (.mono (n.freshFor pattern).1) = .ok recEnv)
      (hb : (infer recEnv bound).run (n.freshFor pattern).2 = .ok (s₁, boundTy) n₁)
      (hc : checkShape pattern boundTy = .ok ())
      (hu : unify (s₁.apply (n.freshFor pattern).1) boundTy = .error cause) :
      Raises ⟨env, .letIn span pattern bound body, n⟩ cause n₁
  | cond {env : Env} {n : Supply} {span : Span} {cond thenBranch elseBranch : Expr}
      {s₁ : Subst} {condTy : Ty} {n₁ : Supply} {cause : TypeError}
      (hc : (infer env cond).run n = .ok (s₁, condTy) n₁) (hu : unify .bool condTy = .error cause) :
      Raises ⟨env, .ite span cond thenBranch elseBranch, n⟩ cause n₁
  | branches {env : Env} {n : Supply} {span : Span} {cond thenBranch elseBranch : Expr}
      {s₁ s₂ s₃ s₄ : Subst} {condTy thenTy elseTy : Ty} {n₁ n₂ n₃ : Supply} {cause : TypeError}
      (hc : (infer env cond).run n = .ok (s₁, condTy) n₁) (hu : unify .bool condTy = .ok s₂)
      (ht : (infer ((s₁.compose s₂).applyEnv env) thenBranch).run n₁ = .ok (s₃, thenTy) n₂)
      (he : (infer (((s₁.compose s₂).compose s₃).applyEnv env) elseBranch).run n₂ =
        .ok (s₄, elseTy) n₃)
      (hu' : unify (s₄.apply thenTy) elseTy = .error cause) :
      Raises ⟨env, .ite span cond thenBranch elseBranch, n⟩ cause n₃

variable {c c' : Call} {e : InferError} {n' : Supply}

theorem Makes.sizeOf_lt (h : c.Makes c') : sizeOf c'.expr < sizeOf c.expr := by
  cases h with
  | func | arg =>
    simp only [Expr.app.sizeOf_spec]
    omega
  | lamBody =>
    simp only [Expr.lam.sizeOf_spec]
    omega
  | bound | letBody =>
    simp only [Expr.letIn.sizeOf_spec]
    omega
  | cond | thenBranch | elseBranch =>
    simp only [Expr.ite.sizeOf_spec]
    omega
  | @elem _ _ span before after e =>
    have he : sizeOf e < sizeOf (before ++ e :: after) := List.sizeOf_lt_of_mem (by simp)
    simp only [Expr.tuple.sizeOf_spec]
    omega

/-- The rule passes the error of a call on as it is. -/
theorem Makes.run_eq_error (h : c.Makes c') (hr : c'.run = .error e n') : c.run = .error e n' := by
  cases h with
  | func => exact infer_app_eq_error_iff.mpr (.inl hr)
  | arg hf => exact infer_app_eq_error_iff.mpr (.inr ⟨_, _, _, hf, .inl hr⟩)
  | lamBody hp => exact infer_lam_eq_error_iff.mpr (.inr ⟨_, hp, hr⟩)
  | bound hp => exact infer_letIn_eq_error_iff.mpr (.inr ⟨_, hp, .inl hr⟩)
  | letBody hp hb hc hu hg =>
    exact infer_letIn_eq_error_iff.mpr (.inr ⟨_, hp, .inr ⟨_, _, _, hb, .inr ⟨_, hc,
      .inr ⟨_, hu, .inr ⟨_, hg, hr⟩⟩⟩⟩⟩)
  | cond => exact infer_ite_eq_error_iff.mpr (.inl hr)
  | thenBranch hc hu => exact infer_ite_eq_error_iff.mpr (.inr ⟨_, _, _, hc, .inr ⟨_, hu, .inl hr⟩⟩)
  | elseBranch hc hu ht =>
    exact infer_ite_eq_error_iff.mpr (.inr ⟨_, _, _, hc, .inr ⟨_, hu, .inr ⟨_, _, _, ht,
      .inl hr⟩⟩⟩)
  | elem hb => exact infer_tuple_eq_error_iff.mpr ⟨_, _, _, rfl, _, _, _, hb, hr⟩

theorem Raises.run_eq_error {cause : TypeError} (h : c.Raises cause n') :
    c.run = .error ⟨cause, c.expr.span⟩ n' := by
  cases h with
  | unbound hx => exact infer_var_eq_error_iff.mpr ⟨hx, rfl, rfl⟩
  | app hf ha hu =>
    exact infer_app_eq_error_iff.mpr (.inr ⟨_, _, _, hf, .inr ⟨_, _, _, ha, hu, rfl, rfl⟩⟩)
  | shape hp hb hc =>
    exact infer_letIn_eq_error_iff.mpr (.inr ⟨_, hp, .inr ⟨_, _, _, hb, .inl ⟨hc, rfl, rfl⟩⟩⟩)
  | bound hp hb hc hu =>
    exact infer_letIn_eq_error_iff.mpr (.inr ⟨_, hp, .inr ⟨_, _, _, hb, .inr ⟨_, hc,
      .inl ⟨hu, rfl, rfl⟩⟩⟩⟩)
  | cond hc hu => exact infer_ite_eq_error_iff.mpr (.inr ⟨_, _, _, hc, .inl ⟨hu, rfl, rfl⟩⟩)
  | branches hc hu ht he hu' =>
    exact infer_ite_eq_error_iff.mpr (.inr ⟨_, _, _, hc, .inr ⟨_, hu, .inr ⟨_, _, _, ht,
      .inr ⟨_, _, _, he, hu', rfl, rfl⟩⟩⟩⟩)

/-- **An error is raised at the node or comes from one of its calls.** Binding is not among the
steps that raise errors, since it succeeds wherever a rule comes to it. -/
theorem raises_or_makes_of_run (h : c.run = .error e n') :
    c.Raises e.cause n' ∧ e.span = c.expr.span ∨ ∃ c', c.Makes c' ∧ c'.run = .error e n' := by
  obtain ⟨env, expr, n⟩ := c
  cases expr with
  | int span value =>
    rw [run, infer] at h
    cases h
  | bool span value =>
    rw [run, infer] at h
    cases h
  | var span x =>
    obtain ⟨hx, rfl, rfl⟩ := infer_var_eq_error_iff.mp h
    exact .inl ⟨.unbound hx, rfl⟩
  | app span func arg =>
    rcases infer_app_eq_error_iff.mp h with h | ⟨s₁, funcTy, n₁, hf, h⟩
    · exact .inr ⟨_, .func, h⟩
    · rcases h with h | ⟨s₂, argTy, n₂, ha, hu, rfl, rfl⟩
      · exact .inr ⟨_, .arg hf, h⟩
      · exact .inl ⟨.app hf ha hu, rfl⟩
  | lam span param body =>
    rcases infer_lam_eq_error_iff.mp h with ⟨hp, -⟩ | ⟨env', hp, h⟩
    · exact absurd (env.exists_bind_freshFor n param) (except_exists_error_iff.mp ⟨_, hp⟩)
    · exact .inr ⟨_, .lamBody hp, h⟩
  | letIn span pattern bound body =>
    rcases infer_letIn_eq_error_iff.mp h with ⟨hp, -⟩ | ⟨recEnv, hp, h⟩
    · exact absurd (env.exists_bind_freshFor n pattern) (except_exists_error_iff.mp ⟨_, hp⟩)
    -- the bound expression, and what the rule does with its type
    rcases h with h | ⟨s₁, boundTy, n₁, hb, ⟨hc, rfl, rfl⟩ | ⟨_, hc, h⟩⟩
    · exact .inr ⟨_, .bound hp, h⟩
    · exact .inl ⟨.shape hp hb hc, rfl⟩
    rcases h with ⟨hu, rfl, rfl⟩ | ⟨s₂, hu, ⟨hg, -⟩ | ⟨bodyEnv, hg, h⟩⟩
    · exact .inl ⟨.bound hp hb hc hu, rfl⟩
    · exact absurd (Env.exists_bind_of_unify _ hu) (except_exists_error_iff.mp ⟨_, hg⟩)
    · exact .inr ⟨_, .letBody hp hb hc hu hg, h⟩
  | ite span cond thenBranch elseBranch =>
    rcases infer_ite_eq_error_iff.mp h with h | ⟨s₁, condTy, n₁, hc, ⟨hu, rfl, rfl⟩ | ⟨s₂, hu, h⟩⟩
    · exact .inr ⟨_, .cond, h⟩
    · exact .inl ⟨.cond hc hu, rfl⟩
    rcases h with h | ⟨s₃, thenTy, n₂, ht, h | ⟨s₄, elseTy, n₃, he, hu', rfl, rfl⟩⟩
    · exact .inr ⟨_, .thenBranch hc hu, h⟩
    · exact .inr ⟨_, .elseBranch hc hu ht, h⟩
    · exact .inl ⟨.branches hc hu ht he hu', rfl⟩
  | tuple span elems =>
    obtain ⟨before, x, after, rfl, s₁, ts, n₁, hb, h⟩ := infer_tuple_eq_error_iff.mp h
    exact .inr ⟨_, .elem hb, h⟩

/-- **An error is raised by the rule of one node,** which is reached by successive calls, and
carries the place of that node. -/
theorem run_eq_error_iff :
    c.run = .error e n' ↔
      ∃ c', Relation.ReflTransGen Makes c c' ∧ c'.Raises e.cause n' ∧ e.span = c'.expr.span := by
  constructor
  · intro h
    -- down the calls, which are made for smaller and smaller expressions
    induction hk : sizeOf c.expr using Nat.strong_induction_on generalizing c with
    | _ k ih =>
      rcases raises_or_makes_of_run h with hraise | ⟨c₁, hc₁, h₁⟩
      · exact ⟨c, .refl, hraise⟩
      · obtain ⟨c', hreach, hraise⟩ := ih _ (hk ▸ hc₁.sizeOf_lt) h₁ rfl
        exact ⟨c', .head hc₁ hreach, hraise⟩
  · rintro ⟨c', hreach, hraise, hspan⟩
    -- and back up, through the rules that pass the error on
    induction hreach using Relation.ReflTransGen.head_induction_on with
    | refl => rw [hraise.run_eq_error, ← hspan]
    | head hmakes _ ih => exact hmakes.run_eq_error ih

end Call

/-! ## Errors about patterns -/

/-- Whether the error says that a pattern and a type do not fit together. -/
def TypeError.isPattern : TypeError → Bool
  | patternArity .. | patternType .. => true
  | _ => false

theorem not_isPattern_of_unify {t u : Ty} {cause : TypeError} (h : unify t u = .error cause) :
    cause.isPattern = false := by
  obtain ⟨p, r, a, b, -, -, -, hd⟩ := exists_locatedAt_of_unify h
  cases hd <;> rfl

/-- Of all the rules, only that of a `let` raises errors about patterns, and only in the check of
shapes. -/
theorem Call.Raises.checkShape_eq {c : Call} {cause : TypeError} {n' : Supply}
    (h : c.Raises cause n') (hcause : cause.isPattern = true) :
    ∃ span pattern bound body, c.expr = .letIn span pattern bound body ∧
    ∃ recEnv, c.env.bind pattern (.mono (c.supply.freshFor pattern).1) = .ok recEnv ∧
    ∃ s₁ boundTy, (infer recEnv bound).run (c.supply.freshFor pattern).2 = .ok (s₁, boundTy) n' ∧
      checkShape pattern boundTy = .error cause := by
  have hunify : ∀ {t u}, unify t u ≠ .error cause := by
    intro t u hu
    rw [not_isPattern_of_unify hu] at hcause
    cases hcause
  cases h with
  | unbound hx => cases hcause
  | app hf ha hu =>
    split at hu
    · exact absurd hu hunify
    · cases hu
      cases hcause
  | shape hp hb hc => exact ⟨_, _, _, _, rfl, _, hp, _, _, hb, hc⟩
  | bound hp hb hc hu => exact absurd hu hunify
  | cond hc hu => exact absurd hu hunify
  | branches hc hu ht he hu' => exact absurd hu' hunify

/-- **Patterns are rejected by the check of shapes at a `let`, and nowhere else.** Whatever the
environment and the supply are, and whether they share variables or not, a pattern binds to the type
that is drawn for it, and to what this type was unified with. If inference ends with an error about
a pattern, then it has come to a `let` at the place of the error, where the bound expression has a
type that does not pass the check. A variable is never such a type. -/
theorem infer_pattern_errors (env : Env) (n : Supply) (e : Expr) :
    (∀ p, ∃ env', env.bind p (.mono (n.freshFor p).1) = .ok env') ∧
    (∀ p (s₁ s₂ : Subst) boundTy, unify (s₁.apply (n.freshFor p).1) boundTy = .ok s₂ →
      ∃ env', ((s₁.compose s₂).applyEnv env).bind p
        (generalize ((s₁.compose s₂).applyEnv env) (s₂.apply boundTy)) = .ok env') ∧
    ∀ cause span n', (infer env e).run n = .error ⟨cause, span⟩ n' →
      (cause.isPattern = true →
        ∃ (env₁ : Env) (n₁ : Supply) (pattern : Pattern) (bound body : Expr),
          Relation.ReflTransGen Call.Makes ⟨env, e, n⟩ ⟨env₁, .letIn span pattern bound body, n₁⟩ ∧
          ∃ recEnv, env₁.bind pattern (.mono (n₁.freshFor pattern).1) = .ok recEnv ∧
          ∃ s₁ boundTy, (infer recEnv bound).run (n₁.freshFor pattern).2 = .ok (s₁, boundTy) n' ∧
            checkShape pattern boundTy = .error cause) ∧
      ∀ p v, cause ≠ .patternType p (.var v) := by
  refine ⟨env.exists_bind_freshFor n, fun p s₁ s₂ t h => Env.exists_bind_of_unify _ h, ?_⟩
  intro cause span n' h
  have hrun : Call.run ⟨env, e, n⟩ = .error ⟨cause, span⟩ n' := h
  obtain ⟨⟨env₁, e₁, n₁⟩, hreach, hraise, rfl⟩ := Call.run_eq_error_iff.mp hrun
  constructor
  · intro hcause
    obtain ⟨span, pattern, bound, body, rfl, hcheck⟩ := hraise.checkShape_eq hcause
    exact ⟨env₁, n₁, pattern, bound, body, hreach, hcheck⟩
  · rintro p v rfl
    obtain ⟨_, _, _, _, -, _, -, _, _, -, hc⟩ := hraise.checkShape_eq rfl
    exact checkShape_error_ne_var hc p v rfl

/-- In `fn y -> let ((a, b), c) = (1, z) in a`, the type `t0` of `z` is also the first one to be
drawn, and the `let` is rejected because `1` is no pair. The pattern `(a, b)` still binds to what
becomes of a type `u`, in an environment that knows both `t0` and `u`. -/
theorem infer_pattern_errors_nested :
    (infer (.ofList [("z", .mono (.var "t0"))]) (.lam ⟨0, 37⟩ (.var "y")
      (.letIn ⟨8, 37⟩ (.tuple [.tuple [.var "a", .var "b"], .var "c"])
        (.tuple ⟨26, 32⟩ [.int ⟨27, 28⟩ 1, .var ⟨30, 31⟩ "z"]) (.var ⟨36, 37⟩ "a")))).run {} =
      .error ⟨.patternType (.tuple [.var "a", .var "b"]) .int, ⟨8, 37⟩⟩ ⟨4⟩ ∧
    (∃ (env₁ : Env) (n₁ : Supply) (pattern : Pattern) (bound body : Expr),
      Relation.ReflTransGen Call.Makes
        ⟨.ofList [("z", .mono (.var "t0"))], .lam ⟨0, 37⟩ (.var "y")
          (.letIn ⟨8, 37⟩ (.tuple [.tuple [.var "a", .var "b"], .var "c"])
            (.tuple ⟨26, 32⟩ [.int ⟨27, 28⟩ 1, .var ⟨30, 31⟩ "z"]) (.var ⟨36, 37⟩ "a")), {}⟩
        ⟨env₁, .letIn ⟨8, 37⟩ pattern bound body, n₁⟩ ∧
      ∃ recEnv, env₁.bind pattern (.mono (n₁.freshFor pattern).1) = .ok recEnv ∧
      ∃ s₁ boundTy, (infer recEnv bound).run (n₁.freshFor pattern).2 = .ok (s₁, boundTy) ⟨4⟩ ∧
        checkShape pattern boundTy = .error (.patternType (.tuple [.var "a", .var "b"]) .int)) ∧
    unify (Subst.apply ∅ (Supply.freshFor {} (.tuple [.var "a", .var "b"])).1) (.var "u") =
      .ok (.singleton "u" (.tuple [.var "t0", .var "t1"])) ∧
    ∃ env', (Subst.applyEnv (Subst.compose ∅ (.singleton "u" (.tuple [.var "t0", .var "t1"])))
        (.ofList [("z", .mono (.fn (.var "t0") (.var "u")))])).bind (.tuple [.var "a", .var "b"])
      (generalize (Subst.applyEnv (Subst.compose ∅
        (.singleton "u" (.tuple [.var "t0", .var "t1"])))
        (.ofList [("z", .mono (.fn (.var "t0") (.var "u")))]))
        (Subst.apply (.singleton "u" (.tuple [.var "t0", .var "t1"])) (.var "u"))) = .ok env' := by
  have hrun : (infer (.ofList [("z", .mono (.var "t0"))]) (.lam ⟨0, 37⟩ (.var "y")
      (.letIn ⟨8, 37⟩ (.tuple [.tuple [.var "a", .var "b"], .var "c"])
        (.tuple ⟨26, 32⟩ [.int ⟨27, 28⟩ 1, .var ⟨30, 31⟩ "z"]) (.var ⟨36, 37⟩ "a")))).run {} =
      .error ⟨.patternType (.tuple [.var "a", .var "b"]) .int, ⟨8, 37⟩⟩ ⟨4⟩ := rfl
  have hu : unify (Subst.apply ∅ (Supply.freshFor {} (.tuple [.var "a", .var "b"])).1) (.var "u") =
      .ok (.singleton "u" (.tuple [.var "t0", .var "t1"])) := unify_var_right nofun nofun
  exact ⟨hrun, ((infer_pattern_errors _ _ _).2.2 _ _ _ hrun).1 rfl, hu,
    (infer_pattern_errors _ _ (.bool {} true)).2.1 _ _ _ _ hu⟩

end PolyLet
