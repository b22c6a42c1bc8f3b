import PolyLet.Infer

/-!
# Successful runs of inference

What a run of inference that succeeds went through, rule by rule. Each statement is an equivalence:
read from left to right it takes a run apart, from right to left it puts one together.

## Main results

* `Inference.run_bind_eq_ok_iff` and the lemmas beside it: success of the steps of a computation
* `infer_app_eq_ok_iff`, `infer_letIn_eq_ok_iff` and the lemmas beside them: success of inference at
  each form of expression
* `Expr.ind`: induction on expressions, where the hypothesis is given for every component of a tuple
-/

namespace PolyLet

variable {α β ε : Type}

/-! ## Steps that may fail -/

theorem except_bind_eq_ok_iff {x : Except ε α} {f : α → Except ε β} {b : β} :
    x >>= f = .ok b ↔ ∃ a, x = .ok a ∧ f a = .ok b := by
  cases x with
  | error e => simp [bind, Except.bind]
  | ok a => simp [bind, Except.bind]

theorem except_bind_eq_error_iff {x : Except ε α} {f : α → Except ε β} {e : ε} :
    x >>= f = .error e ↔ x = .error e ∨ ∃ a, x = .ok a ∧ f a = .error e := by
  cases x with
  | error e' => simp [bind, Except.bind]
  | ok a => simp [bind, Except.bind]

theorem except_exists_error_iff {x : Except ε α} : (∃ e, x = .error e) ↔ ¬∃ a, x = .ok a := by
  cases x with
  | error e => simp
  | ok a => simp

/-- Two computations that begin alike come to the same if they go on alike. -/
theorem except_bind_congr {x y : Except ε α} {f g : α → Except ε β} (hxy : x = y)
    (h : ∀ a, y = .ok a → f a = g a) : x >>= f = y >>= g := by
  subst hxy
  cases x with
  | error e => rfl
  | ok a => exact h a rfl

theorem except_map_eq_ok_iff {x : Except ε α} {f : α → β} {b : β} :
    x.map f = .ok b ↔ ∃ a, x = .ok a ∧ f a = b := by
  cases x with
  | error e => simp [Except.map]
  | ok a => simp [Except.map]

theorem ite_error_eq_ok_iff {c : Prop} [Decidable c] {x : Except ε α} {e : ε} {a : α} :
    (if c then x else .error e) = .ok a ↔ c ∧ x = .ok a := by
  by_cases h : c <;> simp [h]

/-! ## Steps that draw variables -/

namespace Inference

variable {n n' : Supply}

theorem run_bind_of_ok {x : Inference α} {f : α → Inference β} {a : α} (h : x.run n = .ok a n') :
    (x >>= f).run n = (f a).run n' := by
  rw [EStateM.run_bind, h]

theorem run_bind_of_error {x : Inference α} {f : α → Inference β} {e : InferError}
    (h : x.run n = .error e n') : (x >>= f).run n = .error e n' := by
  rw [EStateM.run_bind, h]

theorem run_bind_eq_ok_iff {x : Inference α} {f : α → Inference β} {b : β} :
    (x >>= f).run n = .ok b n' ↔ ∃ a n₁, x.run n = .ok a n₁ ∧ (f a).run n₁ = .ok b n' := by
  rw [EStateM.run_bind]
  cases x.run n with
  | error e m => simp
  | ok a m =>
    simp only [EStateM.Result.ok.injEq]
    constructor
    · intro h
      exact ⟨a, m, ⟨rfl, rfl⟩, h⟩
    · rintro ⟨_, _, ⟨rfl, rfl⟩, h⟩
      exact h

theorem run_pure_eq_ok_iff {a b : α} :
    (pure a : Inference α).run n = .ok b n' ↔ b = a ∧ n' = n := by
  simp [eq_comm]

theorem run_modifyGet_eq_ok_iff {f : Supply → α × Supply} {a : α} :
    (modifyGet f : Inference α).run n = .ok a n' ↔ a = (f n).1 ∧ n' = (f n).2 := by
  simp [eq_comm]

theorem run_throw_ne_ok {e : InferError} {a : α} : (throw e : Inference α).run n ≠ .ok a n' :=
  nofun

theorem run_raiseAt_eq_ok_iff {span : Span} {x : Except TypeError α} {a : α} :
    (raiseAt span x).run n = .ok a n' ↔ x = .ok a ∧ n' = n := by
  cases x with
  | error e => exact iff_of_false run_throw_ne_ok nofun
  | ok b => simp [raiseAt, eq_comm]

theorem result_eq_ok_iff {m : Inference α} {a : α} :
    m.result n = .ok a ↔ ∃ n', m.run n = .ok a n' := by
  rw [result]
  cases m.run n with
  | error e m => simp
  | ok b m => simp

end Inference

/-! ## The rules -/

section Rules

open Inference

variable {env : Env} {n n' : Supply} {span : Span} {s : Subst} {t : Ty}

theorem infer_int_eq_ok_iff {value : Int64} :
    (infer env (.int span value)).run n = .ok (s, t) n' ↔ s = ∅ ∧ t = .int ∧ n' = n := by
  simp only [infer, run_pure_eq_ok_iff, Prod.mk.injEq, and_assoc]

theorem infer_bool_eq_ok_iff {value : Bool} :
    (infer env (.bool span value)).run n = .ok (s, t) n' ↔ s = ∅ ∧ t = .bool ∧ n' = n := by
  simp only [infer, run_pure_eq_ok_iff, Prod.mk.injEq, and_assoc]

theorem infer_var_eq_ok_iff {x : String} :
    (infer env (.var span x)).run n = .ok (s, t) n' ↔
      ∃ σ, env.get? x = some σ ∧
      s = ∅ ∧ t = (n.instantiate σ).1 ∧ n' = (n.instantiate σ).2 := by
  rw [infer]
  cases env.get? x with
  | none => exact iff_of_false run_throw_ne_ok (by simp)
  | some σ =>
    simp only [run_bind_eq_ok_iff, run_modifyGet_eq_ok_iff, run_pure_eq_ok_iff, Prod.mk.injEq]
    simp only [and_assoc, exists_and_left, exists_eq_left, Option.some.injEq, exists_eq_left']

theorem infer_app_eq_ok_iff {func arg : Expr} :
    (infer env (.app span func arg)).run n = .ok (s, t) n' ↔
      ∃ s₁ funcTy n₁, (infer env func).run n = .ok (s₁, funcTy) n₁ ∧
      ∃ s₂ argTy n₂, (infer (s₁.applyEnv env) arg).run n₁ = .ok (s₂, argTy) n₂ ∧
      ∃ s₃, (s₂.apply funcTy).mayBeFn = true ∧
        unify (s₂.apply funcTy) (.fn argTy n₂.fresh.1) = .ok s₃ ∧
      s = (s₁.compose s₂).compose s₃ ∧ t = s₃.apply n₂.fresh.1 ∧ n' = n₂.fresh.2 := by
  simp only [infer, run_bind_eq_ok_iff, run_modifyGet_eq_ok_iff, run_raiseAt_eq_ok_iff,
    run_pure_eq_ok_iff, ite_error_eq_ok_iff, Prod.exists, Prod.mk.injEq]
  simp only [and_assoc, exists_and_left, exists_eq_left]

theorem infer_lam_eq_ok_iff {param : Pattern} {body : Expr} :
    (infer env (.lam span param body)).run n = .ok (s, t) n' ↔
      ∃ env', env.bind param (.mono (n.freshFor param).1) = .ok env' ∧
      ∃ s₁ bodyTy n₁, (infer env' body).run (n.freshFor param).2 = .ok (s₁, bodyTy) n₁ ∧
      s = s₁ ∧ t = .fn (s₁.apply (n.freshFor param).1) bodyTy ∧ n' = n₁ := by
  simp only [infer, run_bind_eq_ok_iff, run_modifyGet_eq_ok_iff, run_raiseAt_eq_ok_iff,
    run_pure_eq_ok_iff, Prod.exists, Prod.mk.injEq]
  simp only [and_assoc, exists_and_left, exists_eq_left]

theorem infer_letIn_eq_ok_iff {pattern : Pattern} {bound body : Expr} :
    (infer env (.letIn span pattern bound body)).run n = .ok (s, t) n' ↔
      ∃ recEnv, env.bind pattern (.mono (n.freshFor pattern).1) = .ok recEnv ∧
      ∃ s₁ boundTy n₁, (infer recEnv bound).run (n.freshFor pattern).2 = .ok (s₁, boundTy) n₁ ∧
      (∃ u, checkShape pattern boundTy = .ok u) ∧
      ∃ s₂, unify (s₁.apply (n.freshFor pattern).1) boundTy = .ok s₂ ∧
      ∃ bodyEnv, ((s₁.compose s₂).applyEnv env).bind pattern
        (generalize ((s₁.compose s₂).applyEnv env) (s₂.apply boundTy)) = .ok bodyEnv ∧
      ∃ s₃ bodyTy n₂, (infer bodyEnv body).run n₁ = .ok (s₃, bodyTy) n₂ ∧
      s = (s₁.compose s₂).compose s₃ ∧ t = bodyTy ∧ n' = n₂ := by
  simp only [infer, run_bind_eq_ok_iff, run_modifyGet_eq_ok_iff, run_raiseAt_eq_ok_iff,
    run_pure_eq_ok_iff, Prod.exists, Prod.mk.injEq]
  simp only [and_assoc, exists_and_left, exists_eq_left, exists_and_right]

theorem infer_ite_eq_ok_iff {cond thenBranch elseBranch : Expr} :
    (infer env (.ite span cond thenBranch elseBranch)).run n = .ok (s, t) n' ↔
      ∃ s₁ condTy n₁, (infer env cond).run n = .ok (s₁, condTy) n₁ ∧
      ∃ s₂, unify .bool condTy = .ok s₂ ∧
      ∃ s₃ thenTy n₂,
        (infer ((s₁.compose s₂).applyEnv env) thenBranch).run n₁ = .ok (s₃, thenTy) n₂ ∧
      ∃ s₄ elseTy n₃, (infer (((s₁.compose s₂).compose s₃).applyEnv env) elseBranch).run n₂ =
        .ok (s₄, elseTy) n₃ ∧
      ∃ s₅, unify (s₄.apply thenTy) elseTy = .ok s₅ ∧
      s = (((s₁.compose s₂).compose s₃).compose s₄).compose s₅ ∧ t = s₅.apply elseTy ∧
      n' = n₃ := by
  simp only [infer, run_bind_eq_ok_iff, run_raiseAt_eq_ok_iff, run_pure_eq_ok_iff, Prod.exists,
    Prod.mk.injEq]
  simp only [and_assoc, exists_and_left, exists_eq_left]

theorem infer_tuple_eq_ok_iff {elems : List Expr} :
    (infer env (.tuple span elems)).run n = .ok (s, t) n' ↔
      ∃ s₁ ts n₁, (inferAll env ∅ elems).run n = .ok (s₁, ts) n₁ ∧
      s = s₁ ∧ t = .tuple (ts.map s₁.apply) ∧ n' = n₁ := by
  simp only [infer, run_bind_eq_ok_iff, run_pure_eq_ok_iff, Prod.exists, Prod.mk.injEq]
  simp only [and_assoc]

variable {s' : Subst} {ts : List Ty}

theorem inferAll_nil_eq_ok_iff :
    (inferAll env s []).run n = .ok (s', ts) n' ↔ s' = s ∧ ts = [] ∧ n' = n := by
  simp only [inferAll, run_pure_eq_ok_iff, Prod.mk.injEq, and_assoc]

theorem inferAll_cons_eq_ok_iff {e : Expr} {es : List Expr} :
    (inferAll env s (e :: es)).run n = .ok (s', ts) n' ↔
      ∃ s₁ t n₁, (infer (s.applyEnv env) e).run n = .ok (s₁, t) n₁ ∧
      ∃ s₂ us n₂, (inferAll env (s.compose s₁) es).run n₁ = .ok (s₂, us) n₂ ∧
      s' = s₂ ∧ ts = t :: us ∧ n' = n₂ := by
  simp only [inferAll, run_bind_eq_ok_iff, run_pure_eq_ok_iff, Prod.exists, Prod.mk.injEq]
  simp only [and_assoc]

end Rules

/-! ## Induction -/

/-- Induction on expressions, where the hypothesis is given for every component of a tuple. -/
@[elab_as_elim] theorem Expr.ind {motive : Expr → Prop}
    (int : ∀ span value, motive (int span value)) (bool : ∀ span value, motive (bool span value))
    (var : ∀ span x, motive (var span x))
    (app : ∀ span func arg, motive func → motive arg → motive (app span func arg))
    (lam : ∀ span param body, motive body → motive (lam span param body))
    (letIn : ∀ span pattern bound body, motive bound → motive body →
      motive (letIn span pattern bound body))
    (ite : ∀ span cond thenBranch elseBranch, motive cond → motive thenBranch → motive elseBranch →
      motive (ite span cond thenBranch elseBranch))
    (tuple : ∀ span elems, (∀ e ∈ elems, motive e) → motive (tuple span elems)) (e : Expr) :
    motive e :=
  @Expr.rec motive (fun es => ∀ e ∈ es, motive e) int bool var app lam letIn ite tuple (by simp)
    (fun _ _ he hes => List.forall_mem_cons.mpr ⟨he, hes⟩) e

end PolyLet
