import PolyLet.Proofs.Inference.Idempotence
import PolyLet.Proofs.Shape
import PolyLet.Proofs.Typing

/-!
# Inference is complete

If an expression has a type at all, inference succeeds, and the type that it returns covers the
given one. The given typing says what each variable is to be replaced by. This assignment grows
while variables are drawn and absorbs all that inference settles, so unification never meets two
types without a solution.

## Main definitions

* `Env.Solves env n f s n' g`: the assignment `g` extends `f` to the variables drawn on the way and
  absorbs what `s` settles
* `Expr.InferComplete e`: inference succeeds on `e` wherever `e` has a type, and covers that type

## Main results

* `Env.Solves.andThen`, `Env.Solves.unify`: one step after another
* `Expr.InferComplete.app` and the like: each rule keeps completeness
* `Expr.inferComplete`: inference is complete
-/

namespace PolyLet

open Env

variable {env env' : Env} {n n₁ n₂ : Supply} {s s' : Subst} {f g k : String → Ty} {t u : Ty}

/-! ## Solutions -/

/-- The assignment `g` agrees with `f` on what is drawn already, and absorbs the substitution of the
scope. -/
structure Env.Solves (env : Env) (n : Supply) (f : String → Ty) (s : Subst) (n' : Supply)
    (g : String → Ty) : Prop where
  settles : env.Settles n s n'
  agree : n.Agree f g
  absorbed : s.AbsorbedBy g

namespace Env.Solves

theorem start (env : Env) (n : Supply) (f : String → Ty) : env.Solves n f ∅ n f :=
  ⟨.start env n, fun _ _ => rfl, .empty f⟩

theorem replace_apply (h : env.Solves n f s n₁ g) (t : Ty) : (s.apply t).replace g = t.replace g :=
  h.absorbed.replace_apply t

/-- Types without variables that are still to be drawn do not change when the assignment grows. -/
theorem replace_eq (h : env.Solves n f s n₁ g) (hc : env.Clean n)
    (ht : t.Within (env.unsettled n n₁ s)) (hk : n₁.Agree g k) : t.replace k = t.replace g :=
  hk.replace_eq fun v hv =>
    hc.not_undrawn_of_mem_scope h.settles.le (mem_unsettled.mp (ht v hv)).1

/-- More variables are drawn, and the assignment grows. -/
theorem draw (h : env.Solves n f s n₁ g) (hc : env.Clean n) (hle : n₁.next ≤ n₂.next)
    (hk : n₁.Agree g k) : env.Solves n f s n₂ k where
  settles := h.settles.of_le hle
  agree := h.agree.trans h.settles.le hk
  absorbed := h.absorbed.congr h.settles.resolved fun v hv =>
    hk v (hc.not_undrawn_of_mem_scope h.settles.le hv)

/-- A step in the substituted environment. -/
theorem andThen (h : env.Solves n f s n₁ g) (hc : env.Clean n)
    (h' : (s.applyEnv env).Solves n₁ g s' n₂ k) : env.Solves n f (s.compose s') n₂ k := by
  have hk := h.draw hc h'.settles.le h'.agree
  exact ⟨h.settles.compose h'.settles.le (h.settles.next hc h'.settles), hk.agree,
    hk.absorbed.compose h'.absorbed⟩

/-- **Unification succeeds on types that the assignment makes equal,** and the assignment absorbs
the result. -/
theorem unify (h : env.Solves n f s n₁ g) (ht : t.Within (env.unsettled n n₁ s))
    (hu : u.Within (env.unsettled n n₁ s)) (heq : t.replace g = u.replace g) :
    ∃ s', PolyLet.unify t u = .ok s' ∧ env.Solves n f (s.compose s') n₁ g ∧ s'.AbsorbedBy g := by
  obtain ⟨s', hs', habs⟩ := unify_of_replace_eq heq
  have hr := unsettled_unify ht hu hs'
  exact ⟨s', hs', ⟨h.settles.compose (Nat.le_refl _) hr, h.agree, h.absorbed.compose habs⟩, habs⟩

/-- The substituted environment still covers what the environment covers. -/
theorem specializes (h : env.Solves n f s n₁ g) (hc : env.Clean n)
    (hs : env'.Specializes Ty.var env f) : env'.Specializes Ty.var (s.applyEnv env) g := by
  have hagree : env.Specializes f env g :=
    .of_agree fun v hv => (h.agree v (hc.not_undrawn hv)).symm
  have habs : env.Specializes g env (fun v => (s.image v).replace g) :=
    .of_agree fun v _ => (h.absorbed v).symm
  exact ((hs.trans hagree).trans habs).trans (specializes_applyEnv (h.settles.avoidsEnv hc))

/-! ## Patterns -/

/-- A pattern gets a type that covers the one it is bound to in the given typing. -/
theorem exists_bind_freshFor {p : Pattern} {bound' : Env} (hc : env.Clean n)
    (hs : env'.Specializes Ty.var env f) (hb : env'.bind p (.mono t) = .ok bound') :
    ∃ bound g, env.bind p (.mono (n.freshFor p).1) = .ok bound ∧ n.Agree f g ∧
      (n.freshFor p).1.replace g = t ∧ bound'.Specializes Ty.var bound g := by
  have hfits : p.Fits t := exists_bind_iff.mp ⟨bound', hb⟩
  obtain ⟨g, hg, ht⟩ := Supply.exists_replace_freshFor hfits n f
  obtain ⟨bound, hbound⟩ := env.exists_bind_freshFor n p
  have hsg : env'.Specializes Ty.var env g :=
    hs.trans (.of_agree fun v hv => (hg v (hc.not_undrawn hv)).symm)
  refine ⟨bound, g, hbound, hg, ht, hsg.bind (Scheme.specializes_mono ?_) hb hbound⟩
  rw [Ty.replace_var, ht]

/-- What solves under the pattern solves outside, and keeps the type of the pattern. -/
theorem of_freshFor {p : Pattern} {bound : Env}
    (hb : env.bind p (.mono (n.freshFor p).1) = .ok bound) (hg : n.Agree f g)
    (h : bound.Solves (n.freshFor p).2 g s n₁ k) :
    env.Solves n f s n₁ k ∧ (n.freshFor p).1.replace k = (n.freshFor p).1.replace g := by
  obtain ⟨hle, hvars, -⟩ := n.freshFor_spec p
  refine ⟨⟨(unsettled_freshFor hb h.settles).1, hg.trans hle h.agree, h.absorbed⟩, ?_⟩
  exact h.agree.replace_eq fun v hv => (Supply.mem_drawn_iff.mp (hvars v hv)).2

theorem of_bind_generalize {p : Pattern} {bound : Env}
    (hb : env.bind p (generalize env t) = .ok bound) (h : bound.Solves n f s n₁ g) :
    env.Solves n f s n₁ g :=
  ⟨h.settles.of_bind_generalize hb, h.agree, h.absorbed⟩

end Env.Solves

/-- **Generalization is principal.** What is generalized in the given typing is an instance of what
inference generalizes: a variable that inference must not quantify is replaced by types of variables
that the typing must not quantify either. -/
theorem Env.Specializes.generalize (hs : env'.Specializes Ty.var env f) (t : Ty) :
    (PolyLet.generalize env' (t.replace f)).Specializes Ty.var (PolyLet.generalize env t) f := by
  intro u hu
  obtain ⟨g, hg, rfl⟩ := instanceUnder_generalize_iff.mp hu
  refine instanceUnder_generalize_iff.mpr ⟨fun v => (f v).replace g, fun v hv => ?_,
    (Ty.replace_replace f g t).symm⟩
  have hid : (f v).replace g = (f v).replace Ty.var := by
    refine Ty.replace_congr fun w hw => ?_
    obtain ⟨x, hx, hwx⟩ := hs.mem_vars hv hw
    obtain rfl : w = x := by simpa [Ty.vars] using hwx
    exact hg w hx
  show (f v).replace g = f v
  rw [hid, Ty.replace_var]

/-! ## The rules -/

/-- Wherever the expression has a type, inference succeeds and its type covers the given one. -/
def Expr.InferComplete (e : Expr) : Prop :=
  ∀ {env env' : Env} {n : Supply} {f : String → Ty} {u : Ty}, env.Clean n →
    env'.Specializes Ty.var env f → HasType env' e u →
    ∃ s t n' g, (infer env e).run n = .ok (s, t) n' ∧ env.Solves n f s n' g ∧ t.replace g = u

theorem Ty.mayBeFn_of_replace {p r : Ty} (h : t.replace f = .fn p r) : t.mayBeFn = true := by
  cases t <;> simp_all [Ty.replace, Ty.mayBeFn]

namespace Expr.InferComplete

variable {span : Span}

theorem var {x : String} : (Expr.var span x).InferComplete := by
  intro env env' n f u hc hs h
  cases h with
  | var hx hu =>
    obtain ⟨σ, hσ, hspec⟩ := hs.of_left hx
    obtain ⟨g, hg, ht⟩ := Supply.exists_replace_instantiate
      (fun v hv => hc.drawn hσ (.inl hv)) (hspec u (Scheme.isInstance_iff.mp hu))
    exact ⟨∅, _, _, g, infer_var_eq_ok_iff.mpr ⟨σ, hσ, rfl, rfl, rfl⟩,
      (Solves.start env n f).draw hc (n.instantiate_le σ) hg, ht⟩

theorem app {func arg : Expr} (hfunc : func.InferComplete) (harg : arg.InferComplete) :
    (Expr.app span func arg).InferComplete := by
  intro env env' n f u hc hs h
  cases h with
  | @app _ _ _ _ a _ hf ha =>
    obtain ⟨s₁, funcTy, n₁, g₁, hr₁, h₁, hft⟩ := hfunc hc hs hf
    obtain ⟨-, ht₁⟩ := infer_settles hc hr₁
    obtain ⟨s₂, argTy, n₂, g₂, hr₂, h₂, hat⟩ :=
      harg (hc.applyEnv h₁.settles) (h₁.specializes hc hs) ha
    obtain ⟨hle, hs₂, -, ht₂⟩ := infer_andThen hc h₁.settles hr₂
    have h₁₂ := h₁.andThen hc h₂
    -- the result gets the given type
    obtain ⟨g, hg, hres⟩ := Supply.exists_replace_fresh (n := n₂) g₂ u
    have hhead := Settles.unsettled_apply hs₂ hle ht₁
    have hhead_eq : (s₂.apply funcTy).replace g = .fn a u := by
      rw [h₁₂.replace_eq hc hhead hg, h₂.replace_apply, h₁.replace_eq hc ht₁ h₂.agree, hft]
    have heq : (s₂.apply funcTy).replace g = (Ty.fn argTy n₂.fresh.1).replace g := by
      rw [hhead_eq, Ty.replace, h₁₂.replace_eq hc ht₂ hg, hat, hres]
    have h₃ := h₁₂.draw hc n₂.fresh_le hg
    obtain ⟨s₃, hu, h₃, habs⟩ := h₃.unify (unsettled_of_le hhead n₂.fresh_le)
      ((unsettled_of_le ht₂ n₂.fresh_le).fn (unsettled_fresh h₁₂.settles hc)) heq
    refine ⟨_, _, _, g, infer_app_eq_ok_iff.mpr ⟨s₁, funcTy, n₁, hr₁, s₂, argTy, n₂, hr₂, s₃,
      Ty.mayBeFn_of_replace hhead_eq, hu, rfl, rfl, rfl⟩, h₃, ?_⟩
    rw [habs.replace_apply, hres]

theorem lam {param : Pattern} {body : Expr} (hbody : body.InferComplete) :
    (Expr.lam span param body).InferComplete := by
  intro env env' n f u hc hs h
  cases h with
  | lam hb' h =>
    obtain ⟨bound, g, hb, hg, hparam, hs'⟩ := Solves.exists_bind_freshFor hc hs hb'
    obtain ⟨s, bodyTy, n', k, hr, hk, hbt⟩ := hbody (hc.bind_freshFor hb) hs' h
    obtain ⟨hk, hkeep⟩ := hk.of_freshFor hb hg
    refine ⟨s, _, n', k, infer_lam_eq_ok_iff.mpr ⟨bound, hb, s, bodyTy, n', hr, rfl, rfl, rfl⟩, hk,
      ?_⟩
    rw [Ty.replace, hk.replace_apply, hkeep, hparam, hbt]

theorem letIn {pattern : Pattern} {bound body : Expr} (hbound : bound.InferComplete)
    (hbody : body.InferComplete) : (Expr.letIn span pattern bound body).InferComplete := by
  intro env env' n f u hc hs h
  cases h with
  | @letIn _ recEnv' bodyEnv' _ _ _ _ a _ hb h hb' h' =>
    obtain ⟨recEnv, g, hrec, hg, hph, hs₁⟩ := Solves.exists_bind_freshFor hc hs hb
    obtain ⟨s₁, boundTy, n₁, g₁, hr₁, h₀, hbt⟩ := hbound (hc.bind_freshFor hrec) hs₁ h
    obtain ⟨-, ht₀⟩ := infer_settles (hc.bind_freshFor hrec) hr₁
    obtain ⟨-, hpht, hsub⟩ := unsettled_freshFor hrec h₀.settles
    obtain ⟨h₁, hkeep⟩ := h₀.of_freshFor hrec hg
    -- the bound expression has the type that the pattern has in the given typing
    have hfits : pattern.Fits (boundTy.replace g₁) := hbt ▸ exists_bind_iff.mp ⟨recEnv', hb⟩
    have heq : (s₁.apply (n.freshFor pattern).1).replace g₁ = boundTy.replace g₁ := by
      rw [h₁.replace_apply, hkeep, hph, hbt]
    obtain ⟨s₂, hu, h₁₂, habs⟩ := h₁.unify hpht (hsub boundTy ht₀) heq
    obtain ⟨-, -, hgen⟩ := unsettled_letIn hrec h₀.settles ht₀ hu
    obtain ⟨bodyEnv, hgenb⟩ := exists_bind_of_unify ((s₁.compose s₂).applyEnv env) hu
    -- so its generalization covers that of the given typing
    have hs₂ := h₁₂.specializes hc hs
    have hscheme := hs₂.generalize (s₂.apply boundTy)
    rw [habs.replace_apply, hbt] at hscheme
    have hs₂ := hs₂.bind hscheme hb' hgenb
    have hc₂ := clean_letIn hc h₁₂.settles hgen hgenb
    obtain ⟨s₃, bodyTy, n₂, g₂, hr₂, h₃, hbodyt⟩ := hbody hc₂ hs₂ h'
    exact ⟨_, bodyTy, n₂, g₂, infer_letIn_eq_ok_iff.mpr ⟨recEnv, hrec, s₁, boundTy, n₁, hr₁,
      checkShape_of_fits hfits, s₂, hu, bodyEnv, hgenb, s₃, bodyTy, n₂, hr₂, rfl, rfl, rfl⟩,
      h₁₂.andThen hc (h₃.of_bind_generalize hgenb), hbodyt⟩

theorem ite {cond thenBranch elseBranch : Expr} (hcond : cond.InferComplete)
    (hthen : thenBranch.InferComplete) (helse : elseBranch.InferComplete) :
    (Expr.ite span cond thenBranch elseBranch).InferComplete := by
  intro env env' n f u hc hs h
  cases h with
  | ite hc' ht' he' =>
    obtain ⟨s₁, condTy, n₁, g₁, hr₁, h₁, hct⟩ := hcond hc hs hc'
    obtain ⟨s₂, hu, h₁₂, -⟩ := h₁.unify (t := .bool) (fun v hv => by simp [Ty.vars] at hv)
      (infer_settles hc hr₁).2 hct.symm
    obtain ⟨s₃, thenTy, n₂, g₂, hr₂, h₃, htt⟩ :=
      hthen (hc.applyEnv h₁₂.settles) (h₁₂.specializes hc hs) ht'
    obtain ⟨-, -, -, ht₃⟩ := infer_andThen hc h₁₂.settles hr₂
    have h₁₃ := h₁₂.andThen hc h₃
    obtain ⟨s₄, elseTy, n₃, g₃, hr₃, h₄, het⟩ :=
      helse (hc.applyEnv h₁₃.settles) (h₁₃.specializes hc hs) he'
    obtain ⟨hle, hs₄, -, ht₄⟩ := infer_andThen hc h₁₃.settles hr₃
    -- both branches have the given type, the first one since before the second was looked at
    have heq : (s₄.apply thenTy).replace g₃ = elseTy.replace g₃ := by
      rw [h₄.replace_apply, h₁₃.replace_eq hc ht₃ h₄.agree, htt, het]
    obtain ⟨s₅, hu', h₅, habs⟩ :=
      (h₁₃.andThen hc h₄).unify (Settles.unsettled_apply hs₄ hle ht₃) ht₄ heq
    refine ⟨_, _, n₃, g₃, infer_ite_eq_ok_iff.mpr ⟨s₁, condTy, n₁, hr₁, s₂, hu, s₃, thenTy, n₂, hr₂,
      s₄, elseTy, n₃, hr₃, s₅, hu', rfl, rfl, rfl⟩, h₅, ?_⟩
    rw [habs.replace_apply, het]

/-- The components of a tuple, after what is settled before them. -/
theorem inferAll {es : List Expr} (h : ∀ e ∈ es, e.InferComplete) {us : List Ty}
    (hc : env.Clean n) (hs : env'.Specializes Ty.var env f) (h₁ : env.Solves n f s n₁ g)
    (hl : us.length = es.length) (hus : ∀ e u, (e, u) ∈ es.zip us → HasType env' e u) :
    ∃ s' ts n' k, (PolyLet.inferAll env s es).run n₁ = .ok (s', ts) n' ∧
      env.Solves n f s' n' k ∧ n₁.Agree g k ∧ ts.map (Ty.replace k) = us := by
  induction es generalizing s n₁ g us with
  | nil =>
    obtain rfl : us = [] := List.length_eq_zero_iff.mp hl
    exact ⟨s, [], n₁, g, inferAll_nil_eq_ok_iff.mpr ⟨rfl, rfl, rfl⟩, h₁, fun _ _ => rfl, rfl⟩
  | cons e es ih =>
    cases us with
    | nil => simp at hl
    | cons u us =>
      obtain ⟨s₂, t, n₂, g₂, hr₂, h₂, ht⟩ :=
        h e (by simp) (hc.applyEnv h₁.settles) (h₁.specializes hc hs) (hus e u (by simp))
      have h₁₂ := h₁.andThen hc h₂
      obtain ⟨-, -, -, htw⟩ := infer_andThen hc h₁.settles hr₂
      obtain ⟨s', ts, n', k, hr, h', hk, hts⟩ := ih (fun e he => h e (by simp [he])) h₁₂
        (by simpa using hl) fun e u heu => hus e u (by simp [heu])
      refine ⟨s', t :: ts, n', k, inferAll_cons_eq_ok_iff.mpr ⟨s₂, t, n₂, hr₂, s', ts, n', hr, rfl,
        rfl, rfl⟩, h', h₂.agree.trans h₂.settles.le hk, ?_⟩
      rw [List.map_cons, hts, h₁₂.replace_eq hc htw hk, ht]

theorem tuple {elems : List Expr} (h : ∀ e ∈ elems, e.InferComplete) :
    (Expr.tuple span elems).InferComplete := by
  intro env env' n f u hc hs ht
  cases ht with
  | tuple hl hus =>
    obtain ⟨s, ts, n', g, hr, h', -, hts⟩ := inferAll h hc hs (.start env n f) hl hus
    refine ⟨s, _, n', g, infer_tuple_eq_ok_iff.mpr ⟨s, ts, n', hr, rfl, rfl, rfl⟩, h', ?_⟩
    rw [Ty.replace_tuple, List.map_map, ← hts]
    exact congrArg Ty.tuple (List.map_congr_left fun t _ => h'.replace_apply t)

end Expr.InferComplete

/-! ## Completeness -/

/-- **Inference is complete.** Wherever an expression has a type, inference succeeds and its type
covers the given one. -/
theorem Expr.inferComplete (e : Expr) : e.InferComplete := by
  induction e using Expr.ind with
  | int span value =>
    intro env env' n f u hc hs h
    cases h
    exact ⟨∅, .int, n, f, infer_int_eq_ok_iff.mpr ⟨rfl, rfl, rfl⟩, .start env n f, rfl⟩
  | bool span value =>
    intro env env' n f u hc hs h
    cases h
    exact ⟨∅, .bool, n, f, infer_bool_eq_ok_iff.mpr ⟨rfl, rfl, rfl⟩, .start env n f, rfl⟩
  | var span x => exact InferComplete.var
  | app span func arg hfunc harg => exact hfunc.app harg
  | lam span param body hbody => exact hbody.lam
  | letIn span pattern bound body hbound hbody => exact hbound.letIn hbody
  | ite span cond thenBranch elseBranch hcond hthen helse => exact hcond.ite hthen helse
  | tuple span elems h => exact InferComplete.tuple h

end PolyLet
