import PolyLet.Proofs.Inference.Idempotence

/-!
# Inference keeps to its variables

The supply never goes back, not even when inference fails. What inference returns speaks about the
free variables of the environment and about variables that were drawn on the way, and about nothing
else. Since a quantified variable is neither, no target of the substitution is captured when it is
applied to the environment, and the environment is ready for the next call from the supply that is
left.

## Main definitions

* `Inference.supplyAfter m n`: the supply that a computation leaves, whatever its outcome
* `Inference.Advances m`: the computation never gives a variable back

## Main results

* `Scheme.mem_freeVars_applyScheme`: the free variables of a substituted scheme, without capture
* `infer_advances`: inference never gives a variable back
* `infer_local`: freshness, locality and the absence of capture
-/

namespace PolyLet

/-! ## The supply that is left -/

namespace Inference

variable {α β : Type} {n : Supply}

/-- The supply that a computation leaves, whatever its outcome. -/
def supplyAfter (m : Inference α) (n : Supply) : Supply :=
  match m.run n with
  | .ok _ n' => n'
  | .error _ n' => n'

/-- The computation never gives a variable back, also when it fails. -/
def Advances (m : Inference α) : Prop :=
  ∀ n, n.next ≤ (m.supplyAfter n).next

namespace Advances

theorem pure (a : α) : Advances (Pure.pure a : Inference α) :=
  fun n => Nat.le_refl n.next

theorem throw (e : InferError) : Advances (MonadExcept.throw e : Inference α) :=
  fun n => Nat.le_refl n.next

theorem raiseAt (span : Span) (x : Except TypeError α) : Advances (PolyLet.raiseAt span x) := by
  cases x with
  | error cause => exact throw ⟨cause, span⟩
  | ok a => exact pure a

theorem modifyGet {f : Supply → α × Supply} (h : ∀ n, n.next ≤ (f n).2.next) :
    Advances (MonadStateOf.modifyGet f : Inference α) :=
  h

theorem bind {x : Inference α} {f : α → Inference β} (hx : x.Advances)
    (hf : ∀ a, (f a).Advances) : (x >>= f).Advances := by
  intro n
  have hn := hx n
  rw [supplyAfter] at hn ⊢
  cases hr : x.run n with
  | error e n₁ =>
    rw [hr] at hn
    rw [run_bind_of_error hr]
    exact hn
  | ok a n₁ =>
    rw [hr] at hn
    rw [run_bind_of_ok hr]
    exact Nat.le_trans hn (hf a n₁)

end Advances

end Inference

section Advances

open Inference

theorem inferAll_advances {es : List Expr} (ih : ∀ e ∈ es, ∀ env : Env, (infer env e).Advances)
    (env : Env) (s : Subst) : (inferAll env s es).Advances := by
  induction es generalizing s with
  | nil =>
    rw [inferAll]
    exact .pure _
  | cons e es ihs =>
    rw [inferAll]
    refine (ih e (by simp) _).bind ?_
    rintro ⟨s', t⟩
    exact (ihs (fun e he => ih e (by simp [he])) _).bind fun _ => .pure _

/-- **Inference never gives a variable back,** whether it succeeds or fails. -/
theorem infer_advances (env : Env) (e : Expr) : (infer env e).Advances := by
  induction e using Expr.ind generalizing env with
  | int span value =>
    rw [infer]
    exact .pure _
  | bool span value =>
    rw [infer]
    exact .pure _
  | var span x =>
    rw [infer]
    cases env.get? x with
    | none => exact .throw _
    | some σ => exact (Advances.modifyGet fun n => n.instantiate_le σ).bind fun _ => .pure _
  | app span func arg ihf iha =>
    rw [infer]
    refine (ihf env).bind ?_
    rintro ⟨s₁, funcTy⟩
    refine (iha _).bind ?_
    rintro ⟨s₂, argTy⟩
    exact (Advances.modifyGet Supply.fresh_le).bind fun _ => (Advances.raiseAt _ _).bind fun _ =>
      .pure _
  | lam span param body ih =>
    rw [infer]
    refine (Advances.modifyGet fun n => (n.freshFor_spec param).1).bind fun _ => ?_
    exact (Advances.raiseAt _ _).bind fun env' => (ih env').bind fun _ => .pure _
  | letIn span pattern bound body ihb ihbody =>
    rw [infer]
    refine (Advances.modifyGet fun n => (n.freshFor_spec pattern).1).bind fun _ => ?_
    refine (Advances.raiseAt _ _).bind fun recEnv => (ihb recEnv).bind ?_
    rintro ⟨s₁, boundTy⟩
    refine (Advances.raiseAt _ _).bind fun _ => (Advances.raiseAt _ _).bind fun s₂ => ?_
    exact (Advances.raiseAt _ _).bind fun bodyEnv => (ihbody bodyEnv).bind fun _ => .pure _
  | ite span cond thenBranch elseBranch ihc iht ihe =>
    rw [infer]
    refine (ihc env).bind ?_
    rintro ⟨s₁, condTy⟩
    refine (Advances.raiseAt _ _).bind fun s₂ => (iht _).bind ?_
    rintro ⟨s₃, thenTy⟩
    refine (ihe _).bind ?_
    rintro ⟨s₄, elseTy⟩
    exact (Advances.raiseAt _ _).bind fun _ => .pure _
  | tuple span elems ih =>
    rw [infer]
    exact (inferAll_advances ih env ∅).bind fun _ => .pure _

end Advances

/-! ## Substitution without capture -/

/-- Without capture, the free variables of a substituted scheme are those put in the place of the
free variables of the scheme. -/
theorem Scheme.mem_freeVars_applyScheme {s : Subst} {σ : Scheme} (h : s.Avoids σ) {w : String} :
    w ∈ (s.applyScheme σ).freeVars ↔ ∃ v ∈ σ.freeVars, w ∈ (s.image v).vars := by
  rw [mem_freeVars, Subst.applyScheme, Subst.mem_vars_apply]
  constructor
  · rintro ⟨⟨v, hv, hw⟩, hq⟩
    rw [Subst.image_without] at hw
    by_cases hσ : v ∈ σ.vars
    · rw [if_pos hσ] at hw
      obtain rfl : w = v := by simpa [Ty.vars] using hw
      exact absurd hσ hq
    · rw [if_neg hσ] at hw
      exact ⟨v, mem_freeVars.mpr ⟨hv, hσ⟩, hw⟩
  · rintro ⟨v, hv, hw⟩
    obtain ⟨hb, hσ⟩ := mem_freeVars.mp hv
    refine ⟨⟨v, hb, ?_⟩, h v hv w hw⟩
    rwa [Subst.image_without, if_neg hσ]

/-! ## Locality -/

/-- **Inference keeps to its variables.** A call never gives variables back. If it succeeds, then the
keys of the substitution, the variables that it puts in the place of free variables of the
environment, and those of the type are free in the environment or drawn by this call. So no
quantified variable of the environment is among them, nothing is captured when the substitution is
applied to a scheme of the environment, and the environment is clean again for the supply that is
left. -/
theorem infer_local (env : Env) (e : Expr) (n : Supply) (hc : env.Clean n) :
    n.next ≤ ((infer env e).supplyAfter n).next ∧
    ∀ s t n', (infer env e).run n = .ok (s, t) n' →
      (∀ w, w ∈ s.names ∨ (∃ v ∈ env.freeVars, w ∈ (s.image v).vars) ∨ w ∈ t.vars →
        w ∈ env.freeVars ∨ ∃ k, n.next ≤ k ∧ k < n'.next ∧ w = freshName k) ∧
      (∀ x σ, env.get? x = some σ → ∀ w ∈ σ.vars, ∀ v ∈ env.freeVars, w ∉ (s.image v).vars) ∧
      (∀ x σ, env.get? x = some σ → ∀ w,
        w ∈ (s.applyScheme σ).freeVars ↔ ∃ v ∈ σ.freeVars, w ∈ (s.image v).vars) ∧
      (s.applyEnv env).Clean n' := by
  refine ⟨infer_advances env e n, fun s t n' hr => ?_⟩
  obtain ⟨hs, ht⟩ := infer_settles hc hr
  have himage : ∀ v ∈ env.freeVars, ∀ w ∈ (s.image v).vars, w ∈ env.scope n n' := fun v hv w hw =>
    (Env.mem_unsettled.mp (hs.image_mem (Env.mem_scope.mpr (.inl hv)) hw)).1
  refine ⟨fun w hw => ?_, fun x σ hx w hw v hv hm => ?_, fun x σ hx w => ?_, hc.applyEnv hs⟩
  · rw [← Supply.mem_drawn, ← Env.mem_scope]
    rcases hw with hw | ⟨v, hv, hw⟩ | hw
    · exact hs.resolved.name_mem hw
    · exact himage v hv w hw
    · exact (Env.mem_unsettled.mp (ht w hw)).1
  · exact hc.not_mem_scope hx hw (himage v hv w hm)
  · exact Scheme.mem_freeVars_applyScheme (hs.avoidsEnv hc x σ hx)

/-- In `x 1`, where the type `a` of `x` is not known yet, the variable `t0` is drawn for the result;
it reaches the scheme `∀ b. b -> a` of another name without being captured there. -/
theorem infer_local_app :
    Env.Clean (.ofList [("x", .mono (.var "a")), ("f", ⟨.ofList ["b"], .fn (.var "b") (.var "a")⟩)])
      {} ∧
    (infer (.ofList [("x", .mono (.var "a")), ("f", ⟨.ofList ["b"], .fn (.var "b") (.var "a")⟩)])
      (.app {} (.var {} "x") (.int {} 1))).run {} =
      .ok (.singleton "a" (.fn .int (.var "t0")), .var "t0") ⟨1⟩ ∧
    (∀ w, w ∈ (Subst.applyScheme (.singleton "a" (.fn .int (.var "t0")))
        ⟨.ofList ["b"], .fn (.var "b") (.var "a")⟩).freeVars ↔
      ∃ v ∈ Scheme.freeVars ⟨.ofList ["b"], .fn (.var "b") (.var "a")⟩,
        w ∈ (Subst.image (.singleton "a" (.fn .int (.var "t0"))) v).vars) ∧
    Env.Clean (Subst.applyEnv (.singleton "a" (.fn .int (.var "t0")))
      (.ofList [("x", .mono (.var "a")), ("f", ⟨.ofList ["b"], .fn (.var "b") (.var "a")⟩)])) ⟨1⟩ := by
  have hc : Env.Clean (.ofList [("x", .mono (.var "a")),
      ("f", ⟨.ofList ["b"], .fn (.var "b") (.var "a")⟩)]) {} := .of_entries (by decide) (by decide)
  have hu : unify (.var "a") (.fn .int (.var "t0")) = .ok (.singleton "a" (.fn .int (.var "t0"))) :=
    unify_var_left nofun
  have hr : (infer (.ofList [("x", .mono (.var "a")),
      ("f", ⟨.ofList ["b"], .fn (.var "b") (.var "a")⟩)])
      (.app {} (.var {} "x") (.int {} 1))).run {} =
      .ok (.singleton "a" (.fn .int (.var "t0")), .var "t0") ⟨1⟩ :=
    infer_app_eq_ok_iff.mpr
      ⟨∅, .var "a", {}, infer_var_eq_ok_iff.mpr ⟨.mono (.var "a"), rfl, rfl, rfl, rfl⟩,
        ∅, .int, {}, infer_int_eq_ok_iff.mpr ⟨rfl, rfl, rfl⟩, _, rfl, hu, rfl, rfl, rfl⟩
  obtain ⟨-, h⟩ := infer_local _ _ {} hc
  obtain ⟨-, -, hfree, hclean⟩ := h _ _ _ hr
  exact ⟨hc, hr, hfree "f" _ rfl, hclean⟩

end PolyLet
