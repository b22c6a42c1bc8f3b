import PolyLet.Proofs.Inference.Scope

/-!
# Inference settles its scope

Every rule of inference adds to what is settled already, and what it adds speaks only about
variables that are not settled yet. So the substitution that inference returns is resolved, and the
type it returns has the substitution applied to it.

## Main results

* `unsettled_app`, `unsettled_letIn`: the unifications of the rules as steps
* `infer_settles`, `inferAll_settles`: what inference returns settles its scope
* `infer_andThen`: the same for an expression that comes after others
* `inferType_eq_map`: the type of an expression is the type that inference returns
* `infer_idempotent`: applying the substitution that inference returns once more changes nothing
-/

namespace PolyLet

open Env

variable {env : Env} {n n' n₁ n₂ n₃ : Supply} {s s' s₁ s₂ s₃ s₄ s₅ : Subst}

/-! ## The steps of a rule -/

theorem unsettled_fresh (h : env.Settles n s n₁) (hc : env.Clean n) :
    n₁.fresh.1.Within (env.unsettled n n₁.fresh.2 s) := by
  intro v hv
  have hd := Supply.mem_vars_fresh hv
  have hsc : v ∈ env.scope n n₁.fresh.2 :=
    mem_scope.mpr (.inr (Supply.mem_drawn_trans_right hd h.le))
  refine mem_unsettled.mpr ⟨hsc, fun hm => ?_⟩
  -- what is settled already was drawn before
  exact hc.not_undrawn_of_mem_scope h.le (h.resolved.name_mem hm) (Supply.mem_drawn_iff.mp hd).1

theorem unsettled_of_le {t : Ty} (ht : t.Within (env.unsettled n n₁ s)) (hle : n₁.next ≤ n₂.next) :
    t.Within (env.unsettled n n₂ s) := by
  intro v hv
  obtain ⟨hs, hn⟩ := mem_unsettled.mp (ht v hv)
  exact mem_unsettled.mpr ⟨scope_mono hs hle, hn⟩

/-- An application: the unification of the head with what is expected of it. -/
theorem unsettled_app {head argTy : Ty} (hc : env.Clean n) (h : env.Settles n s n₁)
    (hf : head.Within (env.unsettled n n₁ s)) (ha : argTy.Within (env.unsettled n n₁ s))
    (hu : unify head (.fn argTy n₁.fresh.1) = .ok s') :
    s'.Resolved (env.unsettled n n₁.fresh.2 s) :=
  unsettled_unify (unsettled_of_le hf n₁.fresh_le)
    ((unsettled_of_le ha n₁.fresh_le).fn (unsettled_fresh h hc)) hu

/-- A pattern with a type of its own: the type after the part that the names are used in. -/
theorem unsettled_freshFor {p : Pattern} {env' : Env}
    (hb : env.bind p (.mono (n.freshFor p).1) = .ok env')
    (h : env'.Settles (n.freshFor p).2 s n₁) :
    env.Settles n s n₁ ∧ (s.apply (n.freshFor p).1).Within (env.unsettled n n₁ s) ∧
      ∀ t : Ty, t.Within (env'.unsettled (n.freshFor p).2 n₁ s) →
        t.Within (env.unsettled n n₁ s) := by
  obtain ⟨hle, hvars, -⟩ := n.freshFor_spec p
  have hsc : ∀ v ∈ env'.scope (n.freshFor p).2 n₁, v ∈ env.scope n n₁ :=
    fun v hv => mem_scope_bind_freshFor hb h.le hv
  refine ⟨h.of_scope hle hsc, fun v hv => ?_, fun t ht => unsettled_of_scope ht hsc⟩
  obtain ⟨hm, hn⟩ := h.resolved.mem_vars_apply hv
  refine mem_unsettled.mpr ⟨hm.elim (hsc v) fun hp => ?_, hn⟩
  exact mem_scope.mpr (.inr (Supply.mem_drawn_trans_left (hvars v hp) h.le))

/-- A `let`: the unification of the type of the pattern with that of the bound expression. -/
theorem unsettled_letIn {p : Pattern} {recEnv : Env} {boundTy : Ty}
    (hb : env.bind p (.mono (n.freshFor p).1) = .ok recEnv)
    (h : recEnv.Settles (n.freshFor p).2 s n₁)
    (ht : boundTy.Within (recEnv.unsettled (n.freshFor p).2 n₁ s))
    (hu : unify (s.apply (n.freshFor p).1) boundTy = .ok s') :
    s'.Resolved (env.unsettled n n₁ s) ∧ env.Settles n (s.compose s') n₁ ∧
      (s'.apply boundTy).Within (env.unsettled n n₁ (s.compose s')) := by
  obtain ⟨h, hph, hsub⟩ := unsettled_freshFor hb h
  have hs' := unsettled_unify hph (hsub boundTy ht) hu
  exact ⟨hs', h.compose (Nat.le_refl _) hs',
    Settles.unsettled_apply hs' (Nat.le_refl _) (hsub boundTy ht)⟩

/-- The environment for the body of a `let` is clean. -/
theorem clean_letIn {p : Pattern} {bodyEnv : Env} {t : Ty} (hc : env.Clean n)
    (h : env.Settles n s n₁) (ht : t.Within (env.unsettled n n₁ s))
    (hb : (s.applyEnv env).bind p (generalize (s.applyEnv env) t) = .ok bodyEnv) :
    bodyEnv.Clean n₁ := by
  refine (hc.applyEnv h).bind_generalize (fun v hv => ?_) hb
  exact hc.not_undrawn_of_mem_scope h.le (mem_unsettled.mp (ht v hv)).1

/-! ## Inference -/

/-- The components of a tuple, after what is settled before them. -/
theorem inferAll_settles {es : List Expr}
    (ih : ∀ e ∈ es, ∀ {env : Env} {n n' : Supply} {s : Subst} {t : Ty}, env.Clean n →
      (infer env e).run n = .ok (s, t) n' →
      env.Settles n s n' ∧ t.Within (env.unsettled n n' s))
    {ts : List Ty} (hc : env.Clean n) (h : env.Settles n s n₁)
    (hr : (inferAll env s es).run n₁ = .ok (s', ts) n') :
    env.Settles n s' n' ∧ n₁.next ≤ n'.next ∧ (∀ t ∈ ts, t.Within (env.scope n n')) ∧
      s.AbsorbedBy s'.image := by
  induction es generalizing s n₁ ts with
  | nil =>
    obtain ⟨rfl, rfl, rfl⟩ := inferAll_nil_eq_ok_iff.mp hr
    exact ⟨h, Nat.le_refl _, by simp, h.resolved.absorbedBy_image⟩
  | cons e es ihs =>
    obtain ⟨s₁, t, n₂, hr₁, _, us, _, hr₂, rfl, rfl, rfl⟩ := inferAll_cons_eq_ok_iff.mp hr
    obtain ⟨h₁, ht⟩ := ih e (by simp) (hc.applyEnv h) hr₁
    obtain ⟨hs₁, h₁₂, ht⟩ := h.andThen hc h₁ ht
    obtain ⟨h', hle, hts, habs⟩ := ihs (fun e he => ih e (by simp [he])) h₁₂ hr₂
    refine ⟨h', Nat.le_trans h₁.le hle, fun u hu => ?_, (habs.of_compose (Settles.disjoint hs₁)).1⟩
    rcases List.mem_cons.mp hu with rfl | hu
    · exact fun v hv => scope_mono (mem_unsettled.mp (ht v hv)).1 hle
    · exact hts u hu

/-- **Inference settles its scope.** The substitution that it returns speaks only about the free
variables of the environment and the variables it draws, and neither its targets nor the type
mention a settled variable. -/
theorem infer_settles {e : Expr} {t : Ty} (hc : env.Clean n)
    (hr : (infer env e).run n = .ok (s, t) n') :
    env.Settles n s n' ∧ t.Within (env.unsettled n n' s) := by
  induction e using Expr.ind generalizing env n n' s t with
  | int span value =>
    obtain ⟨rfl, rfl, rfl⟩ := infer_int_eq_ok_iff.mp hr
    exact ⟨.start env n', fun v hv => by simp [Ty.vars] at hv⟩
  | bool span value =>
    obtain ⟨rfl, rfl, rfl⟩ := infer_bool_eq_ok_iff.mp hr
    exact ⟨.start env n', fun v hv => by simp [Ty.vars] at hv⟩
  | var span x =>
    obtain ⟨σ, hx, rfl, rfl, rfl⟩ := infer_var_eq_ok_iff.mp hr
    refine ⟨(Settles.start env n).of_le (n.instantiate_le σ), fun v hv => ?_⟩
    refine mem_unsettled.mpr ⟨mem_scope.mpr ?_, List.not_mem_nil⟩
    exact (Supply.mem_vars_instantiate hv).imp_left fun hf => Env.mem_freeVars.mpr ⟨x, σ, hx, hf⟩
  | app span func arg ihf iha =>
    obtain ⟨s₁, funcTy, n₁, hr₁, s₂, argTy, n₂, hr₂, s₃, -, hu, rfl, rfl, rfl⟩ :=
      infer_app_eq_ok_iff.mp hr
    obtain ⟨h₁, hf⟩ := ihf hc hr₁
    obtain ⟨h₂, ha⟩ := iha (hc.applyEnv h₁) hr₂
    obtain ⟨hs₂, h₁₂, ha⟩ := h₁.andThen hc h₂ ha
    have hs₃ := unsettled_app hc h₁₂ (Settles.unsettled_apply hs₂ h₂.le hf) ha hu
    exact ⟨h₁₂.compose n₂.fresh_le hs₃,
      Settles.unsettled_apply hs₃ (Nat.le_refl _) (unsettled_fresh h₁₂ hc)⟩
  | lam span param body ih =>
    obtain ⟨env', hb, s₁, bodyTy, n₁, hr₁, rfl, rfl, rfl⟩ := infer_lam_eq_ok_iff.mp hr
    obtain ⟨h₁, hbody⟩ := ih (hc.bind_freshFor hb) hr₁
    obtain ⟨h, hparam, hsub⟩ := unsettled_freshFor hb h₁
    exact ⟨h, hparam.fn (hsub bodyTy hbody)⟩
  | letIn span pattern bound body ihb ihbody =>
    obtain ⟨recEnv, hb, s₁, boundTy, n₁, hr₁, -, s₂, hu, bodyEnv, hb', s₃, bodyTy, n₂, hr₂, rfl,
      rfl, rfl⟩ := infer_letIn_eq_ok_iff.mp hr
    obtain ⟨h₁, hbound⟩ := ihb (hc.bind_freshFor hb) hr₁
    obtain ⟨-, h₁₂, hbound⟩ := unsettled_letIn hb h₁ hbound hu
    obtain ⟨h₂, hbody⟩ := ihbody (clean_letIn hc h₁₂ hbound hb') hr₂
    -- generalization adds no free variables, so the scope is that of the outer environment
    refine (h₁₂.andThen hc (h₂.of_bind_generalize hb') (unsettled_of_scope hbody ?_)).2
    exact fun v hv => mem_scope_bind_generalize hb' hv
  | ite span cond thenBranch elseBranch ihc iht ihe =>
    obtain ⟨s₁, condTy, n₁, hr₁, s₂, hu, s₃, thenTy, n₂, hr₂, s₄, elseTy, n₃, hr₃, s₅, hu', rfl,
      rfl, rfl⟩ := infer_ite_eq_ok_iff.mp hr
    obtain ⟨h₁, hcond⟩ := ihc hc hr₁
    have hs₂ := unsettled_unify (fun v hv => by simp [Ty.vars] at hv) hcond hu
    have h₁₂ := h₁.compose (Nat.le_refl _) hs₂
    obtain ⟨h₃, hthen⟩ := iht (hc.applyEnv h₁₂) hr₂
    obtain ⟨-, h₁₃, hthen⟩ := h₁₂.andThen hc h₃ hthen
    obtain ⟨h₄, helse⟩ := ihe (hc.applyEnv h₁₃) hr₃
    obtain ⟨hs₄, h₁₄, helse⟩ := h₁₃.andThen hc h₄ helse
    have hs₅ := unsettled_unify (Settles.unsettled_apply hs₄ h₄.le hthen) helse hu'
    exact ⟨h₁₄.compose (Nat.le_refl _) hs₅, Settles.unsettled_apply hs₅ (Nat.le_refl _) helse⟩
  | tuple span elems ih =>
    obtain ⟨s₁, ts, n₁, hr, rfl, rfl, rfl⟩ := infer_tuple_eq_ok_iff.mp hr
    obtain ⟨h, -, hts, -⟩ := inferAll_settles ih hc (.start env n) hr
    -- the types of the components may mention what later components settle; one application of the
    -- whole substitution removes it
    refine ⟨h, fun v hv => ?_⟩
    obtain ⟨_, hu, hv⟩ := Ty.mem_varsAll.mp hv
    obtain ⟨t, ht, rfl⟩ := List.mem_map.mp hu
    obtain ⟨hm, hn⟩ := h.resolved.mem_vars_apply hv
    exact mem_unsettled.mpr ⟨hm.elim id (hts t ht v), hn⟩

/-- A further expression, in the environment with all that is settled before it. -/
theorem infer_andThen {e : Expr} {t : Ty} (hc : env.Clean n) (h : env.Settles n s n₁)
    (hr : (infer (s.applyEnv env) e).run n₁ = .ok (s', t) n₂) :
    n₁.next ≤ n₂.next ∧ s'.Resolved (env.unsettled n n₂ s) ∧ env.Settles n (s.compose s') n₂ ∧
      t.Within (env.unsettled n n₂ (s.compose s')) := by
  obtain ⟨h', ht⟩ := infer_settles (hc.applyEnv h) hr
  exact ⟨h'.le, h.andThen hc h' ht⟩

/-- The last application of the substitution changes nothing. -/
theorem inferType_eq_map {e : Expr} (hc : env.Clean {}) :
    inferType env e = ((infer env e).result {}).map Prod.snd := by
  rw [inferType]
  cases hres : (infer env e).result {} with
  | error err => rfl
  | ok r =>
    obtain ⟨n', hr⟩ := Inference.result_eq_ok_iff.mp hres
    obtain ⟨-, ht⟩ := infer_settles hc hr
    exact congrArg Except.ok (apply_eq_of_unsettled ht)

/-- **Inference returns an idempotent substitution and a type with it applied.** No settled variable
is found in the type or in a target, so applying the substitution once more changes neither; in
particular the type of an expression is the type that inference returns. -/
theorem infer_idempotent (env : Env) (e : Expr) (n : Supply) (hc : env.Clean n) :
    (∀ s t, (infer env e).result n = .ok (s, t) →
      s.apply t = t ∧ ∀ v u, s.get? v = some u → ∀ w ∈ s.names, w ∉ u.vars) ∧
    (env.Clean {} → inferType env e = ((infer env e).result {}).map Prod.snd) := by
  refine ⟨fun s t hres => ?_, inferType_eq_map⟩
  obtain ⟨n', hr⟩ := Inference.result_eq_ok_iff.mp hres
  obtain ⟨hs, ht⟩ := infer_settles hc hr
  exact ⟨apply_eq_of_unsettled ht, fun v u hv w hw hwu => hs.resolved.var_not_mem hv hwu hw⟩

/-- In `x 1`, where the type `a` of `x` is not known yet, `a` is settled as a type of functions. -/
theorem infer_idempotent_app :
    Env.Clean (.ofList [("x", .mono (.var "a"))]) {} ∧
    (infer (.ofList [("x", .mono (.var "a"))]) (.app {} (.var {} "x") (.int {} 1))).result {} =
      .ok (.singleton "a" (.fn .int (.var "t0")), .var "t0") ∧
    Subst.apply (.singleton "a" (.fn .int (.var "t0"))) (.var "t0") = .var "t0" ∧
    inferType (.ofList [("x", .mono (.var "a"))]) (.app {} (.var {} "x") (.int {} 1)) =
      .ok (.var "t0") := by
  have hc : Env.Clean (.ofList [("x", .mono (.var "a"))]) {} := .of_entries (by decide) (by decide)
  have hu : unify (.var "a") (.fn .int (.var "t0")) = .ok (.singleton "a" (.fn .int (.var "t0"))) :=
    unify_var_left nofun
  have hres : (infer (.ofList [("x", .mono (.var "a"))])
      (.app {} (.var {} "x") (.int {} 1))).result {} =
      .ok (.singleton "a" (.fn .int (.var "t0")), .var "t0") := by
    exact Inference.result_eq_ok_iff.mpr ⟨⟨1⟩, infer_app_eq_ok_iff.mpr
      ⟨∅, .var "a", {}, infer_var_eq_ok_iff.mpr ⟨.mono (.var "a"), rfl, rfl, rfl, rfl⟩,
        ∅, .int, {}, infer_int_eq_ok_iff.mpr ⟨rfl, rfl, rfl⟩, _, rfl, hu, rfl, rfl, rfl⟩⟩
  obtain ⟨happly, htype⟩ := infer_idempotent _ _ {} hc
  exact ⟨hc, hres, (happly _ _ hres).1, by rw [htype hc, hres]; rfl⟩

end PolyLet
