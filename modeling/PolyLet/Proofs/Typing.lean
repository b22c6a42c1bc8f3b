import Mathlib.Data.List.Forall2
import PolyLet.Proofs.Binding

/-!
# The typing relation

Which types an expression has in an environment, said without a substitution or a supply: a name has
every instance of its scheme, the names of a parameter have one type each, and those of a `let` have
one type in the bound expression and every instance of its generalization in the body.

## Main definitions

* `HasType env e t`: in the environment `env` the expression `e` has the type `t`

## Main results

* `HasType.letIn_of_specializes`: the rule for `let` in an environment that is more general than
  needed
* `HasType.replace`: typing is kept when type variables are replaced, and in more general
  environments
* `hasType_app_iff`, `hasType_lam_iff`, `hasType_letIn_iff` and the like: which types an expression
  has, by its form
* `hasType_unlocated_iff`: places do not matter to typing
-/

namespace PolyLet

/-- In the environment the expression has the type. -/
inductive HasType : Env → Expr → Ty → Prop
  | int {env : Env} {span : Span} {value : Int64} : HasType env (.int span value) .int
  | bool {env : Env} {span : Span} {value : Bool} : HasType env (.bool span value) .bool
  | var {env : Env} {span : Span} {x : String} {σ : Scheme} {t : Ty} (hx : env.get? x = some σ)
      (ht : σ.IsInstance t) : HasType env (.var span x) t
  | app {env : Env} {span : Span} {func arg : Expr} {t u : Ty} (hf : HasType env func (.fn t u))
      (ha : HasType env arg t) : HasType env (.app span func arg) u
  | lam {env env' : Env} {span : Span} {param : Pattern} {body : Expr} {t u : Ty}
      (hb : env.bind param (.mono t) = .ok env') (h : HasType env' body u) :
      HasType env (.lam span param body) (.fn t u)
  | letIn {env recEnv bodyEnv : Env} {span : Span} {pattern : Pattern} {bound body : Expr}
      {t u : Ty} (hb : env.bind pattern (.mono t) = .ok recEnv) (h : HasType recEnv bound t)
      (hb' : env.bind pattern (generalize env t) = .ok bodyEnv) (h' : HasType bodyEnv body u) :
      HasType env (.letIn span pattern bound body) u
  | ite {env : Env} {span : Span} {cond thenBranch elseBranch : Expr} {t : Ty}
      (hc : HasType env cond .bool) (ht : HasType env thenBranch t)
      (he : HasType env elseBranch t) : HasType env (.ite span cond thenBranch elseBranch) t
  | tuple {env : Env} {span : Span} {elems : List Expr} {ts : List Ty}
      (hl : ts.length = elems.length) (h : ∀ e t, (e, t) ∈ elems.zip ts → HasType env e t) :
      HasType env (.tuple span elems) (.tuple ts)

namespace HasType

variable {env env' : Env} {e : Expr} {t : Ty} {f : String → Ty}

/-- The rule for `let` in an environment that is more general than the one where its type was
generalized. The bound expression has to be typed at a renamed type, so that what was quantified is
not free in the new environment by accident. -/
theorem letIn_of_specializes {recEnv bodyEnv : Env} {span : Span} {pattern : Pattern}
    {bound body : Expr} {u : Ty} (hs : env.Specializes f env' Ty.var)
    (hb : env.bind pattern (.mono t) = .ok recEnv)
    (h : ∀ (g : String → Ty) (recEnv' : Env), recEnv.Specializes g recEnv' Ty.var →
      HasType recEnv' bound (t.replace g))
    (hb' : env.bind pattern (generalize env t) = .ok bodyEnv)
    (h' : ∀ bodyEnv' : Env, bodyEnv.Specializes f bodyEnv' Ty.var → HasType bodyEnv' body u) :
    HasType env' (.letIn span pattern bound body) u := by
  obtain ⟨g, hgf, hgen⟩ := Scheme.exists_specializes_generalize env env' f t
  obtain ⟨recEnv', hrec⟩ : ∃ r, env'.bind pattern (.mono (t.replace g)) = .ok r :=
    Env.exists_bind_of_replace hb rfl
  obtain ⟨bodyEnv', hbody⟩ : ∃ r, env'.bind pattern (generalize env' (t.replace g)) = .ok r :=
    Env.exists_bind_of_replace hb rfl
  refine .letIn hrec (h g recEnv' ?_) hbody (h' bodyEnv' (hs.bind hgen hb' hbody))
  have hsg : env.Specializes g env' Ty.var := (Env.Specializes.of_agree hgf).trans hs
  exact hsg.bind (Scheme.specializes_mono (Ty.replace_var _).symm) hb hrec

/-- **Typing is kept when type variables are replaced,** in every environment that has all the
instances that are needed. -/
theorem replace (h : HasType env e t) (hs : env.Specializes f env' Ty.var) :
    HasType env' e (t.replace f) := by
  induction h generalizing f env' with
  | int => exact .int
  | bool => exact .bool
  | var hx ht =>
    obtain ⟨τ, hτ, hστ⟩ := hs.of_left hx
    have ht := (Scheme.isInstance_iff.mp ht).replace (g := f)
    exact .var hτ (Scheme.isInstance_iff.mpr (hστ _ ht))
  | app _ _ ihf iha => exact .app (ihf hs) (iha hs)
  | @lam env env₁ _ param body t u hb _ ih =>
    obtain ⟨env₁', hb'⟩ : ∃ r, env'.bind param (.mono (t.replace f)) = .ok r :=
      Env.exists_bind_of_replace hb rfl
    exact .lam hb' (ih (hs.bind (Scheme.specializes_mono (Ty.replace_var _).symm) hb hb'))
  | letIn hb _ hb' _ ih ih' =>
    exact letIn_of_specializes hs hb (fun g recEnv' hg => ih hg) hb' fun bodyEnv' hf => ih' hf
  | ite _ _ _ ihc iht ihe => exact .ite (ihc hs) (iht hs) (ihe hs)
  | tuple hl _ ih =>
    rw [Ty.replace_tuple]
    refine .tuple (by simpa using hl) fun e u heu => ?_
    obtain ⟨t, het, rfl⟩ := mem_zip_map_right.mp heu
    exact ih e t het hs

end HasType

/-! ## Types by the form of an expression -/

section Inversion

variable {env : Env} {span : Span} {t : Ty}

theorem hasType_int_iff {n : Int64} : HasType env (.int span n) t ↔ t = .int := by
  constructor
  · rintro ⟨⟩
    rfl
  · rintro rfl
    exact .int

theorem hasType_bool_iff {b : Bool} : HasType env (.bool span b) t ↔ t = .bool := by
  constructor
  · rintro ⟨⟩
    rfl
  · rintro rfl
    exact .bool

theorem hasType_var_iff {x : String} :
    HasType env (.var span x) t ↔ ∃ σ, env.get? x = some σ ∧ σ.IsInstance t := by
  constructor
  · rintro (_ | _ | ⟨hx, ht⟩)
    exact ⟨_, hx, ht⟩
  · rintro ⟨σ, hx, ht⟩
    exact .var hx ht

theorem hasType_app_iff {f a : Expr} :
    HasType env (.app span f a) t ↔ ∃ u, HasType env f (.fn u t) ∧ HasType env a u := by
  constructor
  · rintro (_ | _ | _ | ⟨hf, ha⟩)
    exact ⟨_, hf, ha⟩
  · rintro ⟨u, hf, ha⟩
    exact .app hf ha

theorem hasType_lam_iff {p : Pattern} {b : Expr} :
    HasType env (.lam span p b) t ↔
      ∃ u w env', t = .fn u w ∧ env.bind p (.mono u) = .ok env' ∧ HasType env' b w := by
  constructor
  · rintro (_ | _ | _ | _ | ⟨hb, h⟩)
    exact ⟨_, _, _, rfl, hb, h⟩
  · rintro ⟨u, w, env', rfl, hb, h⟩
    exact .lam hb h

theorem hasType_letIn_iff {p : Pattern} {e b : Expr} :
    HasType env (.letIn span p e b) t ↔
      ∃ u recEnv bodyEnv, env.bind p (.mono u) = .ok recEnv ∧ HasType recEnv e u ∧
        env.bind p (generalize env u) = .ok bodyEnv ∧ HasType bodyEnv b t := by
  constructor
  · rintro (_ | _ | _ | _ | _ | ⟨hb, h, hb', h'⟩)
    exact ⟨_, _, _, hb, h, hb', h'⟩
  · rintro ⟨u, recEnv, bodyEnv, hb, h, hb', h'⟩
    exact .letIn hb h hb' h'

theorem hasType_ite_iff {c a b : Expr} :
    HasType env (.ite span c a b) t ↔
      HasType env c .bool ∧ HasType env a t ∧ HasType env b t := by
  constructor
  · rintro (_ | _ | _ | _ | _ | _ | ⟨hc, ha, hb⟩)
    exact ⟨hc, ha, hb⟩
  · rintro ⟨hc, ha, hb⟩
    exact .ite hc ha hb

theorem hasType_tuple_iff {es : List Expr} :
    HasType env (.tuple span es) t ↔ ∃ ts, t = .tuple ts ∧ List.Forall₂ (HasType env) es ts := by
  simp only [List.forall₂_iff_zip]
  constructor
  · rintro (_ | _ | _ | _ | _ | _ | _ | ⟨hl, h⟩)
    exact ⟨_, rfl, hl.symm, fun {e t} het => h e t het⟩
  · rintro ⟨ts, rfl, hl, h⟩
    exact .tuple hl.symm fun e t het => h het

/-- What keeps the types of the components keeps the types of the tuple. -/
theorem hasType_tuple_map_iff {span' : Span} {f : Expr → Expr} {es : List Expr}
    (h : ∀ e ∈ es, ∀ t, HasType env (f e) t ↔ HasType env e t) :
    HasType env (.tuple span' (es.map f)) t ↔ HasType env (.tuple span es) t := by
  rw [hasType_tuple_iff, hasType_tuple_iff]
  refine exists_congr fun ts => and_congr_right' ?_
  rw [List.forall₂_map_left_iff, List.forall₂_iff_zip, List.forall₂_iff_zip]
  refine and_congr_right' (forall_congr' fun e => forall_congr' fun t => ?_)
  exact imp_congr_right fun het => h e (List.of_mem_zip het).1 t

/-- **Places do not matter to typing.** -/
theorem hasType_unlocated_iff {e : Expr} : HasType env e.unlocated t ↔ HasType env e t := by
  induction e using Expr.ind generalizing env t with
  | int => exact hasType_int_iff.trans hasType_int_iff.symm
  | bool => exact hasType_bool_iff.trans hasType_bool_iff.symm
  | var => exact hasType_var_iff.trans hasType_var_iff.symm
  | app _ f a ihf iha => simp only [Expr.unlocated, hasType_app_iff, ihf, iha]
  | lam _ p b ihb => simp only [Expr.unlocated, hasType_lam_iff, ihb]
  | letIn _ p e b ihe ihb => simp only [Expr.unlocated, hasType_letIn_iff, ihe, ihb]
  | ite _ c a b ihc iha ihb => simp only [Expr.unlocated, hasType_ite_iff, ihc, iha, ihb]
  | tuple _ es ih =>
    rw [Expr.unlocated, Expr.unlocatedAll_eq_map]
    exact hasType_tuple_map_iff fun e he t => ih e he

end Inversion

end PolyLet
