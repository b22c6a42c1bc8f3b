import PolyLet.Proofs.Inference.Idempotence
import PolyLet.Proofs.Typing

/-!
# Inference is sound

Every type that inference returns is a type of the expression, in the environment with the returned
substitution applied. Each part of an expression is typed in the environment that is known by then;
what is settled later only replaces variables, and typing is kept under that.

## Main definitions

* `Expr.InferSound e`: whatever inference returns for `e` is a type of `e`

## Main results

* `HasType.later`, `HasType.later_bind`: what is typed with a substitution is typed with every later
  one
* `Expr.InferSound.app` and the like: each rule keeps soundness
* `infer_sound`: inference returns types of the expression
-/

namespace PolyLet

open Env

variable {env : Env} {n n' n₁ n₂ n₃ : Supply} {s s' s₁ : Subst} {e : Expr} {t u : Ty}

/-! ## Later substitutions -/

theorem Env.specializes_of_absorbedBy {f : String → Ty} (h : s.AvoidsEnv env)
    (hf : s.AbsorbedBy f) : (s.applyEnv env).Specializes f env f :=
  (specializes_of_applyEnv h).trans (.of_agree fun v _ => hf v)

theorem Env.specializes_image (h : s.AvoidsEnv env) :
    env.Specializes s.image (s.applyEnv env) Ty.var := by
  simpa using specializes_applyEnv (f := Ty.var) h

theorem Env.specializes_of_image (h : s.AvoidsEnv env) :
    (s.applyEnv env).Specializes Ty.var env s.image := by
  simpa using specializes_of_applyEnv (f := Ty.var) h

namespace HasType

/-- What is typed with a substitution is typed with every later one. -/
theorem later (ht : HasType (s.applyEnv env) e t) (hc : env.Clean n) (h : env.Settles n s n₁)
    (h' : env.Settles n s' n₂) (habs : s.AbsorbedBy s'.image) :
    HasType (s'.applyEnv env) e (s'.apply t) :=
  ht.replace ((specializes_of_absorbedBy (h.avoidsEnv hc) habs).trans
    (specializes_image (h'.avoidsEnv hc)))

/-- What is typed after two steps is typed with every substitution later than both. -/
theorem later_andThen (ht : HasType (s₁.applyEnv (s.applyEnv env)) e t) (hc : env.Clean n)
    (h : env.Settles n s n₁) (hs₁ : s₁.Resolved (env.unsettled n n₂ s))
    (h₁ : env.Settles n (s.compose s₁) n₂) (h' : env.Settles n s' n₃)
    (habs : (s.compose s₁).AbsorbedBy s'.image) : HasType (s'.applyEnv env) e (s'.apply t) := by
  rw [← h.applyEnv_compose hc hs₁] at ht
  exact ht.later hc h₁ h' habs

/-- The same as `later` under a pattern that is bound to a type: there the later substitution is
applied to the type and to the environment before the pattern is bound. -/
theorem later_bind {p : Pattern} {env₁ env₁' : Env} (ht : HasType (s.applyEnv env₁) e t)
    (hb : env.bind p (.mono u) = .ok env₁)
    (hb' : (s'.applyEnv env).bind p (.mono (s'.apply u)) = .ok env₁') (hc : env.Clean n)
    (h : s.AvoidsEnv env₁) (h' : env.Settles n s' n₂) (habs : s.AbsorbedBy s'.image) :
    HasType env₁' e (s'.apply t) := by
  have hbind : env₁.Specializes s'.image env₁' Ty.var :=
    (specializes_image (h'.avoidsEnv hc)).bind
      (Scheme.specializes_mono (Ty.replace_var _).symm) hb hb'
  exact ht.replace ((specializes_of_absorbedBy h habs).trans hbind)

end HasType

/-! ## The rules -/

/-- Whatever inference returns for the expression is a type of it. -/
def Expr.InferSound (e : Expr) : Prop :=
  ∀ {env : Env} {n n' : Supply} {s : Subst} {t : Ty}, env.Clean n →
    (infer env e).run n = .ok (s, t) n' → HasType (s.applyEnv env) e t

namespace Expr.InferSound

variable {span : Span}

theorem var {x : String} : (Expr.var span x).InferSound := by
  intro env n n' s t _ hr
  obtain ⟨σ, hx, rfl, rfl, rfl⟩ := infer_var_eq_ok_iff.mp hr
  rw [Subst.applyEnv_empty]
  exact .var hx (n.isInstance_instantiate σ)

theorem app {func arg : Expr} (hfunc : func.InferSound) (harg : arg.InferSound) :
    (Expr.app span func arg).InferSound := by
  intro env n n' s t hc hr
  obtain ⟨hS, ht⟩ := infer_settles hc hr
  obtain ⟨s₁, funcTy, n₁, hr₁, s₂, argTy, n₂, hr₂, s₃, -, hu, rfl, rfl, rfl⟩ :=
    infer_app_eq_ok_iff.mp hr
  obtain ⟨h₁, hf⟩ := infer_settles hc hr₁
  obtain ⟨hle, hs₂, h₁₂, ha⟩ := infer_andThen hc h₁ hr₂
  have hs₃ := unsettled_app hc h₁₂ (Settles.unsettled_apply hs₂ hle hf) ha hu
  -- the whole substitution is later than each of its parts
  obtain ⟨habs₁₂, habs₃⟩ := hS.resolved.absorbedBy_image.of_compose (Settles.disjoint hs₃)
  obtain ⟨habs₁, habs₂⟩ := habs₁₂.of_compose (Settles.disjoint hs₂)
  have hfunc := (hfunc hc hr₁).later hc h₁ hS habs₁
  have harg := (harg (hc.applyEnv h₁) hr₂).later_andThen hc h₁ hs₂ h₁₂ hS habs₁₂
  rw [Subst.apply, ← habs₂.replace_apply, replace_eq_of_unify hu habs₃] at hfunc
  rw [← apply_eq_of_unsettled ht, Subst.apply, habs₃.replace_apply]
  exact .app hfunc harg

theorem lam {param : Pattern} {body : Expr} (hbody : body.InferSound) :
    (Expr.lam span param body).InferSound := by
  intro env n n' s t hc hr
  obtain ⟨env', hb, _, bodyTy, _, hr₁, rfl, rfl, rfl⟩ := infer_lam_eq_ok_iff.mp hr
  have hc' := hc.bind_freshFor hb
  obtain ⟨h₁, ht⟩ := infer_settles hc' hr₁
  obtain ⟨hS, -, -⟩ := unsettled_freshFor hb h₁
  obtain ⟨env₁', hb'⟩ : ∃ r, (s.applyEnv env).bind param
      (.mono (s.apply (n.freshFor param).1)) = .ok r := exists_bind_of_replace hb rfl
  have hty := (hbody hc' hr₁).later_bind hb hb' hc (h₁.avoidsEnv hc') hS
    h₁.resolved.absorbedBy_image
  rw [apply_eq_of_unsettled ht] at hty
  exact .lam hb' hty

theorem letIn {pattern : Pattern} {bound body : Expr} (hbound : bound.InferSound)
    (hbody : body.InferSound) : (Expr.letIn span pattern bound body).InferSound := by
  intro env n n' s t hc hr
  obtain ⟨recEnv, hb, s₁, boundTy, n₁, hr₁, -, s₂, hu, bodyEnv, hb', s₃, bodyTy, n₂, hr₂, rfl,
    rfl, rfl⟩ := infer_letIn_eq_ok_iff.mp hr
  have hc₁ := hc.bind_freshFor hb
  obtain ⟨h₁, hbt⟩ := infer_settles hc₁ hr₁
  obtain ⟨hs₂, h₁₂, hgen⟩ := unsettled_letIn hb h₁ hbt hu
  obtain ⟨habs₁, -⟩ := h₁₂.resolved.absorbedBy_image.of_compose (Settles.disjoint hs₂)
  -- the type of the pattern and that of the bound expression are one type by now
  have heq : (s₁.compose s₂).apply boundTy = s₂.apply boundTy := by
    rw [Subst.apply_compose_of_disjoint (Settles.disjoint hs₂), apply_eq_of_unsettled hbt]
  have hph : (s₁.compose s₂).apply (n.freshFor pattern).1 = s₂.apply boundTy := by
    rw [Subst.apply_compose_of_disjoint (Settles.disjoint hs₂), unify_unifies hu]
  obtain ⟨recEnv', hrec⟩ : ∃ r, ((s₁.compose s₂).applyEnv env).bind pattern
      (.mono ((s₁.compose s₂).apply (n.freshFor pattern).1)) = .ok r :=
    exists_bind_of_replace hb rfl
  have hbound := (hbound hc₁ hr₁).later_bind hb hrec hc (h₁.avoidsEnv hc₁) h₁₂ habs₁
  rw [heq] at hbound
  rw [hph] at hrec
  -- what the body settles replaces variables of the environment where that type is generalized
  have hc₂ := clean_letIn hc h₁₂ hgen hb'
  obtain ⟨h₂, -⟩ := infer_settles hc₂ hr₂
  have h₃ := h₂.of_bind_generalize hb'
  have houter := specializes_image (h₃.avoidsEnv (hc.applyEnv h₁₂))
  rw [h₁₂.applyEnv_compose hc (h₁₂.next hc h₃)]
  refine .letIn_of_specializes houter hrec (fun g r hg => hbound.replace hg) hb' fun r hr => ?_
  have hbody := (hbody hc₂ hr₂).replace ((specializes_of_image (h₂.avoidsEnv hc₂)).trans hr)
  rwa [Ty.replace_var] at hbody

theorem ite {cond thenBranch elseBranch : Expr} (hcond : cond.InferSound)
    (hthen : thenBranch.InferSound) (helse : elseBranch.InferSound) :
    (Expr.ite span cond thenBranch elseBranch).InferSound := by
  intro env n n' s t hc hr
  obtain ⟨hS, ht⟩ := infer_settles hc hr
  obtain ⟨s₁, condTy, n₁, hr₁, s₂, hu, s₃, thenTy, n₂, hr₂, s₄, elseTy, n₃, hr₃, s₅, hu', rfl,
    rfl, rfl⟩ := infer_ite_eq_ok_iff.mp hr
  obtain ⟨h₁, ht₁⟩ := infer_settles hc hr₁
  have hs₂ := unsettled_unify (fun v hv => by simp [Ty.vars] at hv) ht₁ hu
  have h₁₂ := h₁.compose (Nat.le_refl _) hs₂
  obtain ⟨-, hs₃, h₁₃, ht₃⟩ := infer_andThen hc h₁₂ hr₂
  obtain ⟨hle, hs₄, h₁₄, ht₄⟩ := infer_andThen hc h₁₃ hr₃
  have hs₅ := unsettled_unify (Settles.unsettled_apply hs₄ hle ht₃) ht₄ hu'
  -- every step is a part of the whole substitution, which is later than all of them
  obtain ⟨habs₁₄, habs₅⟩ := hS.resolved.absorbedBy_image.of_compose (Settles.disjoint hs₅)
  obtain ⟨habs₁₃, habs₄⟩ := habs₁₄.of_compose (Settles.disjoint hs₄)
  obtain ⟨habs₁₂, -⟩ := habs₁₃.of_compose (Settles.disjoint hs₃)
  obtain ⟨habs₁, habs₂⟩ := habs₁₂.of_compose (Settles.disjoint hs₂)
  have hcond := (hcond hc hr₁).later hc h₁ hS habs₁
  have hthen := (hthen (hc.applyEnv h₁₂) hr₂).later_andThen hc h₁₂ hs₃ h₁₃ hS habs₁₃
  have helse := (helse (hc.applyEnv h₁₃) hr₃).later_andThen hc h₁₃ hs₄ h₁₄ hS habs₁₄
  -- the two unifications make the condition a `Bool` and the branches equal
  rw [Subst.apply, ← replace_eq_of_unify hu habs₂] at hcond
  rw [Subst.apply, ← habs₄.replace_apply, replace_eq_of_unify hu' habs₅] at hthen
  rw [← apply_eq_of_unsettled ht, Subst.apply, habs₅.replace_apply]
  exact .ite hcond hthen helse

/-- The components of a tuple have their types after all of them. -/
theorem inferAll {es : List Expr} (h : ∀ e ∈ es, e.InferSound) {ts : List Ty} (hc : env.Clean n)
    (hs : env.Settles n s n₁) (hr : (PolyLet.inferAll env s es).run n₁ = .ok (s', ts) n') :
    ts.length = es.length ∧
      ∀ e t, (e, t) ∈ es.zip ts → HasType (s'.applyEnv env) e (s'.apply t) := by
  induction es generalizing s n₁ ts with
  | nil =>
    obtain ⟨rfl, rfl, rfl⟩ := inferAll_nil_eq_ok_iff.mp hr
    simp
  | cons e es ih =>
    obtain ⟨s₁, t, n₂, hr₁, _, us, _, hr₂, rfl, rfl, rfl⟩ := inferAll_cons_eq_ok_iff.mp hr
    obtain ⟨-, hs₁, h₁₂, -⟩ := infer_andThen hc hs hr₁
    obtain ⟨hl, hts⟩ := ih (fun e he => h e (by simp [he])) h₁₂ hr₂
    refine ⟨by simp [hl], fun e' t' het => ?_⟩
    rw [List.zip_cons_cons, List.mem_cons, Prod.mk.injEq] at het
    rcases het with ⟨rfl, rfl⟩ | het
    · -- the components after the first only settle more
      obtain ⟨h', -, -, habs⟩ := inferAll_settles (fun _ _ => infer_settles) hc h₁₂ hr₂
      exact (h e' (by simp) (hc.applyEnv hs) hr₁).later_andThen hc hs hs₁ h₁₂ h' habs
    · exact hts e' t' het

theorem tuple {elems : List Expr} (h : ∀ e ∈ elems, e.InferSound) :
    (Expr.tuple span elems).InferSound := by
  intro env n n' s t hc hr
  obtain ⟨s₁, ts, n₁, hr, rfl, rfl, rfl⟩ := infer_tuple_eq_ok_iff.mp hr
  obtain ⟨hl, hts⟩ := inferAll h hc (.start env n) hr
  refine .tuple (by simpa using hl) fun e u heu => ?_
  obtain ⟨t, het, rfl⟩ := mem_zip_map_right.mp heu
  exact hts e t het

end Expr.InferSound

/-! ## Soundness -/

theorem Expr.inferSound (e : Expr) : e.InferSound := by
  induction e using Expr.ind with
  | int span value =>
    intro env n n' s t _ hr
    obtain ⟨rfl, rfl, rfl⟩ := infer_int_eq_ok_iff.mp hr
    exact .int
  | bool span value =>
    intro env n n' s t _ hr
    obtain ⟨rfl, rfl, rfl⟩ := infer_bool_eq_ok_iff.mp hr
    exact .bool
  | var span x => exact InferSound.var
  | app span func arg hfunc harg => exact hfunc.app harg
  | lam span param body hbody => exact hbody.lam
  | letIn span pattern bound body hbound hbody => exact hbound.letIn hbody
  | ite span cond thenBranch elseBranch hcond hthen helse => exact hcond.ite hthen helse
  | tuple span elems h => exact InferSound.tuple h

/-- **Inference is sound.** From an environment that is clean for the supply, an expression has the
type that inference returns, in the environment with the substitution that inference returns. -/
theorem infer_sound (env : Env) (e : Expr) (n : Supply) (s : Subst) (t : Ty) (hc : env.Clean n)
    (hres : (infer env e).result n = .ok (s, t)) : HasType (s.applyEnv env) e t := by
  obtain ⟨n', hr⟩ := Inference.result_eq_ok_iff.mp hres
  exact e.inferSound hc hr

/-- In `let y = x in y`, where the type `a` of `x` is not known yet, that of `y` is not
generalized. -/
theorem infer_sound_letIn :
    Env.Clean (.ofList [("x", .mono (.var "a"))]) {} ∧
    (infer (.ofList [("x", .mono (.var "a"))])
      (.letIn {} (.var "y") (.var {} "x") (.var {} "y"))).result {} =
      .ok (.singleton "t0" (.var "a"), .var "a") ∧
    HasType (Subst.applyEnv (.singleton "t0" (.var "a")) (.ofList [("x", .mono (.var "a"))]))
      (.letIn {} (.var "y") (.var {} "x") (.var {} "y")) (.var "a") := by
  have hc : Env.Clean (.ofList [("x", .mono (.var "a"))]) {} := .of_entries (by decide) (by decide)
  have hu : unify (.var "t0") (.var "a") = .ok (.singleton "t0" (.var "a")) :=
    unify_var_left (by simp)
  have hres : (infer (.ofList [("x", .mono (.var "a"))])
      (.letIn {} (.var "y") (.var {} "x") (.var {} "y"))).result {} =
      .ok (.singleton "t0" (.var "a"), .var "a") := by
    exact Inference.result_eq_ok_iff.mpr ⟨⟨1⟩, infer_letIn_eq_ok_iff.mpr
      ⟨_, rfl, ∅, .var "a", ⟨1⟩, infer_var_eq_ok_iff.mpr ⟨.mono (.var "a"), rfl, rfl, rfl, rfl⟩,
        ⟨(), rfl⟩, _, hu, _, rfl, ∅, .var "a", ⟨1⟩,
        infer_var_eq_ok_iff.mpr ⟨.mono (.var "a"), rfl, rfl, rfl, rfl⟩, rfl, rfl, rfl⟩⟩
  exact ⟨hc, hres, infer_sound _ _ {} _ _ hc hres⟩

end PolyLet
