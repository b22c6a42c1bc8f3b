import PolyLet.Proofs.Composition
import PolyLet.Proofs.Inference.Idempotence

/-!
# Shared variables in compositions

When two substitutions with a variable in common are composed, the target of the newer one wins.
Applying one substitution after the other would keep the older target instead. This module leaves
the choice between the two targets to a parameter and shows that the type checker never has to
choose: every composition that unification and inference make is one of substitutions without a
variable in common.

## Main definitions

* `Subst.composeWith pick`: composition where `pick` chooses the target of a shared variable
* `newerWins`, `olderWins`: the choice of `Subst.compose` and that of sequential application
* `unifyWith pick`, `inferWith pick`: unification and inference with these compositions, where the
  components of tuples are taken one by one from the left

## Main results

* `Subst.composeWith_of_disjoint`: without a shared variable the choice makes no difference
* `unifyWith_eq`, `Expr.ignoresChoice`: it makes none in unification and in inference
* `collision_unobservable`: so sequential composition could take the place of `Subst.compose`
-/

namespace PolyLet

/-- The newer target wins. -/
def newerWins (_older newer : Ty) : Ty := newer

/-- The older target stays, with the newer substitution applied to it. -/
def olderWins (older _newer : Ty) : Ty := older

namespace Subst

variable {older newer : Subst} {pick : Ty → Ty → Ty}

/-- Both substitutions in one. The newer one is applied to the targets of the older one, and `pick`
chooses between the older and the newer target of a variable that has both. -/
def composeWith (pick : Ty → Ty → Ty) (older newer : Subst) : Subst :=
  .onNames (older.names ∪ newer.names) fun v =>
    (((older.get? v).map newer.apply).merge pick (newer.get? v)).getD (.var v)

theorem get?_composeWith (pick : Ty → Ty → Ty) (older newer : Subst) (v : String) :
    (composeWith pick older newer).get? v =
      ((older.get? v).map newer.apply).merge pick (newer.get? v) := by
  have hmem : v ∈ older.names ∪ newer.names ↔
      (((older.get? v).map newer.apply).merge pick (newer.get? v)).isSome = true := by
    rw [NameSet.mem_union, NameMap.mem_names, NameMap.mem_names]
    cases older.get? v <;> cases newer.get? v <;> simp
  rw [composeWith, NameMap.get?_onNames]
  by_cases h : v ∈ older.names ∪ newer.names
  · obtain ⟨t, ht⟩ := Option.isSome_iff_exists.mp (hmem.mp h)
    rw [if_pos h, ht]
    rfl
  · rw [if_neg h, Option.not_isSome_iff_eq_none.mp fun hs => h (hmem.mpr hs)]

theorem composeWith_newerWins (older newer : Subst) :
    composeWith newerWins older newer = older.compose newer := by
  refine NameMap.ext fun v => ?_
  rw [get?_composeWith, get?_compose]
  cases older.get? v <;> cases newer.get? v <;> rfl

/-- **If the older target stays, composition is one substitution after the other.** -/
theorem apply_composeWith_olderWins (older newer : Subst) (t : Ty) :
    (composeWith olderWins older newer).apply t = newer.apply (older.apply t) := by
  rw [apply, apply, apply, Ty.replace_replace]
  refine Ty.replace_congr fun v _ => ?_
  rw [image, get?_composeWith, image]
  cases older.get? v with
  | none => cases hn : newer.get? v <;> simp [Ty.replace, image, hn]
  | some t => cases newer.get? v <;> rfl

/-- **Without a shared variable the choice makes no difference.** -/
theorem composeWith_of_disjoint (h : ∀ v ∈ newer.names, v ∉ older.names) :
    composeWith pick older newer = older.compose newer := by
  refine NameMap.ext fun v => ?_
  rw [get?_composeWith, get?_compose]
  cases ho : older.get? v with
  | none => cases newer.get? v <;> rfl
  | some t =>
    have hn : newer.get? v = none :=
      NameMap.get?_eq_none_iff.mpr fun hv => h v hv (NameMap.mem_names.mpr ⟨t, ho⟩)
    rw [hn]
    rfl

end Subst

/-! ## Unification with a choice -/

section Unification

variable {s s' : Subst} {vs : List String} {pick : Ty → Ty → Ty}

theorem Subst.Resolved.rest_fn {p r p' r' : Ty} (hs : s.Resolved (p.vars ++ p'.vars)) :
    ∀ w ∈ (s.apply r).vars ++ (s.apply r').vars,
      w ∈ (Ty.fn p r).vars ++ (Ty.fn p' r').vars ∧ w ∉ s.names := by
  intro w hw
  simp only [Ty.vars, List.mem_append] at hw ⊢
  rcases hw with h | h <;> have h := hs.mem_vars_apply h <;> rw [List.mem_append] at h <;> grind

theorem Subst.Resolved.composeWith_fn {p r p' r' : Ty} (hs : s.Resolved (p.vars ++ p'.vars))
    (hs' : s'.Resolved ((s.apply r).vars ++ (s.apply r').vars)) :
    (Subst.composeWith pick s s').Resolved ((Ty.fn p r).vars ++ (Ty.fn p' r').vars) := by
  rw [Subst.composeWith_of_disjoint fun v hv => (hs.rest_fn v (hs'.name_mem hv)).2]
  refine hs.compose hs' (fun v hv => ?_) hs.rest_fn
  simp only [Ty.vars, List.mem_append] at hv ⊢
  exact hv.imp .inl .inl

theorem Subst.Resolved.compose_next {t u : Ty} (hs : s.Resolved vs)
    (hs' : s'.Resolved ((s.apply t).vars ++ (s.apply u).vars)) (ht : ∀ v ∈ t.vars, v ∈ vs)
    (hu : ∀ v ∈ u.vars, v ∈ vs) : (Subst.composeWith pick s s').Resolved vs := by
  rw [Subst.composeWith_of_disjoint (hs.disjoint_next hs')]
  exact hs.compose_of_apply hs' ht hu

/-- The components that are left are a smaller problem, once what the first one has settled is
applied to them. -/
theorem measure_cons {t u : Ty} {ts us : List Ty} (hs : s.Resolved (t.vars ++ u.vars)) :
    Prod.Lex (· < ·) (· < ·)
      (distinct (Ty.varsAll (ts.map s.apply) ++ Ty.varsAll (us.map s.apply)),
        Ty.sizeAll (ts.map s.apply) + Ty.sizeAll (us.map s.apply))
      (distinct (Ty.varsAll (t :: ts) ++ Ty.varsAll (u :: us)),
        Ty.sizeAll (t :: ts) + Ty.sizeAll (u :: us)) := by
  refine measure_rest hs (fun v hv => ?_) hs.rest_cons fun he => ?_
  · simp only [Ty.varsAll, List.mem_append] at hv ⊢
    exact hv.imp .inl .inl
  · subst he
    simp only [Subst.map_apply_empty, Ty.sizeAll]
    omega

mutual

/-- Unification of two types with a choice, with what the recursion needs to know about its
result. -/
def solveWith (pick : Ty → Ty → Ty) (t u : Ty) :
    Except TypeError {s : Subst // s.Resolved (t.vars ++ u.vars)} :=
  if t = u then .ok ⟨∅, .empty _⟩
  else
    match t, u with
    | .var v, u => settle v u (by simp [Ty.vars]) (fun w hw => by simp [hw])
    | t, .var v => settle v t (by simp [Ty.vars]) (fun w hw => by simp [hw])
    | .fn p r, .fn p' r' => do
      -- what the first part settles is not found in the second part any more
      let ⟨s, hs⟩ ← solveWith pick p p'
      let ⟨s', hs'⟩ ← solveWith pick (s.apply r) (s.apply r')
      .ok ⟨.composeWith pick s s', hs.composeWith_fn hs'⟩
    | .tuple ts, .tuple us =>
      if h : ts.length = us.length then solveAllWith pick ⟨∅, .empty _⟩ ts us h fun _ hv => hv
      else .error (.mismatch (.tuple ts) (.tuple us))
    | t, u => .error (.mismatch t u)
termination_by (distinct (t.vars ++ u.vars), t.size + u.size)
decreasing_by
  · exact measure_part (by simp [Ty.vars]; grind) (by simp [Ty.size]; omega)
  · refine measure_rest hs (by simp [Ty.vars]; grind) hs.rest_fn fun he => ?_
    subst he
    simp [Ty.size]
    omega
  · exact measure_part (by simp [Ty.vars]) (by simp [Ty.size]; omega)

/-- Unification of two lists of types with a choice. The components are unified from left to right
under `acc`, which holds what the components before them have settled. -/
def solveAllWith (pick : Ty → Ty → Ty) {vs : List String} (acc : {s : Subst // s.Resolved vs})
    (ts us : List Ty) (h : ts.length = us.length)
    (hvs : ∀ v ∈ Ty.varsAll ts ++ Ty.varsAll us, v ∈ vs) :
    Except TypeError {s : Subst // s.Resolved vs} :=
  match ts, us, h with
  | [], [], _ => .ok acc
  | t :: ts, u :: us, h => do
    let ⟨s, hs⟩ ← solveWith pick (acc.1.apply t) (acc.1.apply u)
    solveAllWith pick ⟨.composeWith pick acc.1 s, acc.2.compose_next hs
      (fun v hv => hvs v (by simp [Ty.varsAll, hv])) (fun v hv => hvs v (by simp [Ty.varsAll, hv]))⟩
      ts us (by simpa using h) (fun v hv => hvs v (by simp [Ty.varsAll] at hv ⊢; grind))
termination_by (distinct (Ty.varsAll (ts.map acc.1.apply) ++ Ty.varsAll (us.map acc.1.apply)),
  Ty.sizeAll (ts.map acc.1.apply) + Ty.sizeAll (us.map acc.1.apply))
decreasing_by
  · exact measure_part (by simp [Ty.varsAll]; grind) (by simp [Ty.sizeAll]; omega)
  · have hd := acc.2.disjoint_next hs
    rw [Subst.composeWith_of_disjoint hd, Subst.map_apply_compose_of_disjoint hd,
      Subst.map_apply_compose_of_disjoint hd]
    exact measure_cons hs

end

/-- The substitution that makes two types equal, or why there is none, where shared variables in
compositions are left to `pick`. -/
def unifyWith (pick : Ty → Ty → Ty) (t u : Ty) : Except TypeError Subst :=
  (solveWith pick t u).map Subtype.val

theorem unifyWith_fn {p r p' r' : Ty} (h : Ty.fn p r ≠ .fn p' r') :
    unifyWith pick (.fn p r) (.fn p' r') = (do
      let s ← unifyWith pick p p'
      let s' ← unifyWith pick (s.apply r) (s.apply r')
      pure (Subst.composeWith pick s s')) := by
  rw [unifyWith, solveWith.eq_def, if_neg h]
  simp only [unifyWith]
  cases solveWith pick p p' with
  | error e => rfl
  | ok s =>
    simp only [bind, Except.bind, Except.map]
    cases solveWith pick (s.1.apply r) (s.1.apply r') <;> rfl

/-- **Unification never meets a shared variable,** so the choice makes no difference to it. -/
theorem unifyWith_eq (pick : Ty → Ty → Ty) (t u : Ty) : unifyWith pick t u = unify t u := by
  -- for lists: whatever is settled before, the result is that of the components under it, composed
  -- with it
  refine unify_ind (P := fun t u => unifyWith pick t u = unify t u)
    (Q := fun ts us => ∀ {vs : List String} (acc : {s : Subst // s.Resolved vs}) (ts₀ us₀ : List Ty)
      (h : ts₀.length = us₀.length) (hvs : ∀ v ∈ Ty.varsAll ts₀ ++ Ty.varsAll us₀, v ∈ vs)
      (hl : ts.length = us.length), ts₀.map acc.1.apply = ts → us₀.map acc.1.apply = us →
      (solveAllWith pick acc ts₀ us₀ h hvs).map Subtype.val =
        (unifyAll ts us hl).map acc.1.compose)
    ?self ?varLeft ?varRight ?fn ?tuple ?clash ?nil ?cons t u
  case self =>
    intro t
    rw [unifyWith, solveWith.eq_def, if_pos rfl, unify_self]
    rfl
  case varLeft =>
    intro v t hne
    rw [unifyWith, solveWith.eq_def, if_neg hne, unify, solve.eq_def, if_neg hne]
  case varRight =>
    intro t v hne
    rw [unifyWith, solveWith.eq_def, if_neg (hne v), unify, solve.eq_def, if_neg (hne v)]
    cases t with
    | var w => exact absurd rfl (hne w)
    | _ => rfl
  case fn =>
    intro p r p' r' hne hp hr
    rw [unifyWith_fn hne, unify_fn hne]
    refine except_bind_congr hp fun s hs => except_bind_congr (hr s hs) fun s' hs' => ?_
    have hd := (unify_resolved hs).disjoint_next (unify_resolved hs')
    rw [Subst.composeWith_of_disjoint hd]
  case tuple =>
    intro ts us hl hne hQ
    have hall := hQ ⟨∅, .empty (Ty.varsAll ts ++ Ty.varsAll us)⟩ ts us hl (fun _ hv => hv) hl
      (Subst.map_apply_empty ts) (Subst.map_apply_empty us)
    rw [unifyWith, solveWith.eq_def, if_neg hne, unify_tuple hne]
    simp only [dif_pos hl]
    refine hall.trans ?_
    cases unifyAll ts us hl with
    | error e => rfl
    | ok s => exact congrArg Except.ok (Subst.empty_compose s)
  case clash =>
    intro t u hc
    have hne : t ≠ u := fun heq => hc.replace_ne Ty.var (by rw [heq])
    rw [unify_clash hc, unifyWith, solveWith.eq_def, if_neg hne]
    cases t <;> cases u <;> simp only [Ty.Clash] at hc
    case tuple.tuple ts us =>
      simp only [dif_neg hc]
      rfl
    all_goals rfl
  case nil =>
    rintro vs acc ts₀ us₀ h hvs hl hts hus
    obtain rfl := List.map_eq_nil_iff.mp hts
    obtain rfl := List.map_eq_nil_iff.mp hus
    rw [solveAllWith.eq_def, unifyAll_nil]
    exact congrArg Except.ok (Subst.compose_empty acc.1).symm
  case cons =>
    rintro t ts u us hP hQ vs acc ts₀ us₀ h hvs hl hts hus
    obtain ⟨t₀, ts₀, rfl, rfl, rfl⟩ := List.map_eq_cons_iff.mp hts
    obtain ⟨u₀, us₀, rfl, rfl, rfl⟩ := List.map_eq_cons_iff.mp hus
    rw [solveAllWith.eq_def, unifyAll_cons]
    simp only
    rw [unifyWith] at hP
    cases hsol : solveWith pick (acc.1.apply t₀) (acc.1.apply u₀) with
    | error e =>
      rw [hsol] at hP
      rw [← hP]
      rfl
    | ok r =>
      obtain ⟨s, hs⟩ := r
      have hu : unify (acc.1.apply t₀) (acc.1.apply u₀) = .ok s := by
        rw [← hP, hsol]
        rfl
      have hd := acc.2.disjoint_next hs
      have hmap : ∀ rs : List Ty,
          rs.map (Subst.composeWith pick acc.1 s).apply = (rs.map acc.1.apply).map s.apply := by
        intro rs
        rw [Subst.composeWith_of_disjoint hd, Subst.map_apply_compose_of_disjoint hd]
      rw [hu]
      refine (hQ s hu ⟨.composeWith pick acc.1 s, _⟩ ts₀ us₀ _ _ (by simpa using h) (hmap ts₀)
        (hmap us₀)).trans ?_
      simp only [bind, Except.bind]
      cases hs' : unifyAll ((ts₀.map acc.1.apply).map s.apply) ((us₀.map acc.1.apply).map s.apply)
          (by simpa using h) with
      | error e => rfl
      | ok s' =>
        -- what the components so far have settled, this one and the rest: all three are apart
        have hd' := hs.disjoint_of_apply _ _ (unifyAll_resolved hs')
        refine congrArg Except.ok ?_
        rw [Subst.composeWith_of_disjoint hd]
        exact Subst.compose_assoc fun _ _ _ _ _ w _ => Subst.consistentAt_of_disjoint hd' w

end Unification

/-! ## Inference with a choice -/

mutual

/-- Inference, where shared variables in compositions are left to `pick`. -/
def inferWith (pick : Ty → Ty → Ty) (env : Env) : Expr → Inference (Subst × Ty)
  | .int .. => pure (∅, .int)
  | .bool .. => pure (∅, .bool)
  | .var span x =>
    match env.get? x with
    | none => throw ⟨.unboundVariable x, span⟩
    | some σ => do
      let t ← modifyGet (Supply.instantiate · σ)
      pure (∅, t)
  | .app span func arg => do
    let (s₁, funcTy) ← inferWith pick env func
    let (s₂, argTy) ← inferWith pick (s₁.applyEnv env) arg
    let result ← modifyGet Supply.fresh
    let head := s₂.apply funcTy
    let expected := Ty.fn argTy result
    let s₃ ← raiseAt span (if head.mayBeFn then unifyWith pick head expected
      else .error (.mismatch expected head))
    pure ((s₁.composeWith pick s₂).composeWith pick s₃, s₃.apply result)
  | .lam span param body => do
    let paramTy ← modifyGet (Supply.freshFor · param)
    let env' ← raiseAt span (env.bind param (.mono paramTy))
    let (s, bodyTy) ← inferWith pick env' body
    pure (s, .fn (s.apply paramTy) bodyTy)
  | .letIn span pattern bound body => do
    let placeholder ← modifyGet (Supply.freshFor · pattern)
    let recEnv ← raiseAt span (env.bind pattern (.mono placeholder))
    let (s₁, boundTy) ← inferWith pick recEnv bound
    raiseAt span (checkShape pattern boundTy)
    let s₂ ← raiseAt span (unifyWith pick (s₁.apply placeholder) boundTy)
    let s := s₁.composeWith pick s₂
    let outer := s.applyEnv env
    let bodyEnv ← raiseAt span (outer.bind pattern (generalize outer (s₂.apply boundTy)))
    let (s₃, bodyTy) ← inferWith pick bodyEnv body
    pure (s.composeWith pick s₃, bodyTy)
  | .ite span cond thenBranch elseBranch => do
    let (s₁, condTy) ← inferWith pick env cond
    let s₂ ← raiseAt span (unifyWith pick .bool condTy)
    let s₁₂ := s₁.composeWith pick s₂
    let (s₃, thenTy) ← inferWith pick (s₁₂.applyEnv env) thenBranch
    let s₁₃ := s₁₂.composeWith pick s₃
    let (s₄, elseTy) ← inferWith pick (s₁₃.applyEnv env) elseBranch
    let s₅ ← raiseAt span (unifyWith pick (s₄.apply thenTy) elseTy)
    pure ((s₁₃.composeWith pick s₄).composeWith pick s₅, s₅.apply elseTy)
  | .tuple _ elems => do
    let (s, tys) ← inferAllWith pick env ∅ elems
    pure (s, .tuple (tys.map s.apply))

/-- The types of the components of a tuple, where shared variables in compositions are left to
`pick`. -/
def inferAllWith (pick : Ty → Ty → Ty) (env : Env) (s : Subst) :
    List Expr → Inference (Subst × List Ty)
  | [] => pure (s, [])
  | e :: es => do
    let (s', t) ← inferWith pick (s.applyEnv env) e
    let (s'', ts) ← inferAllWith pick env (s.composeWith pick s') es
    pure (s'', t :: ts)

end

/-! ### The choice of composition -/

theorem inferAllWith_newerWins {es : List Expr}
    (ih : ∀ e ∈ es, ∀ env, inferWith newerWins env e = infer env e) (env : Env) (s : Subst) :
    inferAllWith newerWins env s es = inferAll env s es := by
  induction es generalizing s with
  | nil => rw [inferAllWith, inferAll]
  | cons e es ihs =>
    have hes := ihs fun e he => ih e (by simp [he])
    simp only [inferAllWith, inferAll, ih e (by simp), hes, Subst.composeWith_newerWins]

/-- If the newer target wins, inference with a choice is inference. -/
theorem inferWith_newerWins (env : Env) (e : Expr) : inferWith newerWins env e = infer env e := by
  induction e using Expr.ind generalizing env with
  | int span value => rw [inferWith, infer]
  | bool span value => rw [inferWith, infer]
  | var span x => cases hx : env.get? x <;> simp only [inferWith, infer, hx]
  | app span func arg ihf iha =>
    simp only [inferWith, infer, ihf, iha, unifyWith_eq, Subst.composeWith_newerWins]
  | lam span param body ih => simp only [inferWith, infer, ih]
  | letIn span pattern bound body ihb ihbody =>
    simp only [inferWith, infer, ihb, ihbody, unifyWith_eq, Subst.composeWith_newerWins]
  | ite span cond thenBranch elseBranch ihc iht ihe =>
    simp only [inferWith, infer, ihc, iht, ihe, unifyWith_eq, Subst.composeWith_newerWins]
  | tuple span elems ih =>
    simp only [inferWith, infer, inferAllWith_newerWins ih]

/-! ### Any choice -/

/-- Two computations that begin alike run alike if they go on alike after what the first step has
returned. -/
theorem Inference.run_bind_congr {α β : Type} {n : Supply} {x y : Inference α}
    {f g : α → Inference β} (h : x.run n = y.run n)
    (hfg : ∀ a n₁, y.run n = .ok a n₁ → (f a).run n₁ = (g a).run n₁) :
    (x >>= f).run n = (y >>= g).run n := by
  cases hy : y.run n with
  | error e n₁ => rw [run_bind_of_error hy, run_bind_of_error (h.trans hy)]
  | ok a n₁ =>
    rw [run_bind_of_ok hy, run_bind_of_ok (h.trans hy)]
    exact hfg a n₁ hy

/-- Whatever the choice, inference for the expression from a clean environment is the same. -/
def Expr.IgnoresChoice (pick : Ty → Ty → Ty) (e : Expr) : Prop :=
  ∀ {env : Env} {n : Supply}, env.Clean n → (inferWith pick env e).run n = (infer env e).run n

namespace Expr.IgnoresChoice

open Env Inference

variable {pick : Ty → Ty → Ty} {span : Span}

theorem var {x : String} : (Expr.var span x).IgnoresChoice pick := by
  intro env n _
  cases hx : env.get? x <;> simp only [inferWith, infer, hx]

theorem app {func arg : Expr} (hfunc : func.IgnoresChoice pick) (harg : arg.IgnoresChoice pick) :
    (Expr.app span func arg).IgnoresChoice pick := by
  intro env n hc
  rw [inferWith, infer]
  refine run_bind_congr (hfunc hc) ?_
  rintro ⟨s₁, funcTy⟩ n₁ hr₁
  obtain ⟨h₁, hf⟩ := infer_settles hc hr₁
  refine run_bind_congr (harg (hc.applyEnv h₁)) ?_
  rintro ⟨s₂, argTy⟩ n₂ hr₂
  obtain ⟨hle, hs₂, h₁₂, ha⟩ := infer_andThen hc h₁ hr₂
  refine run_bind_congr rfl fun result n₃ hr₃ => ?_
  obtain ⟨rfl, rfl⟩ := run_modifyGet_eq_ok_iff.mp hr₃
  simp only [unifyWith_eq]
  refine run_bind_congr rfl fun s₃ n₄ hr₄ => ?_
  obtain ⟨-, hu⟩ := ite_error_eq_ok_iff.mp (run_raiseAt_eq_ok_iff.mp hr₄).1
  have hs₃ := unsettled_app hc h₁₂ (Settles.unsettled_apply hs₂ hle hf) ha hu
  -- each of the two compositions adds what was not settled before
  rw [Subst.composeWith_of_disjoint (Settles.disjoint hs₂),
    Subst.composeWith_of_disjoint (Settles.disjoint hs₃)]

theorem lam {param : Pattern} {body : Expr} (hbody : body.IgnoresChoice pick) :
    (Expr.lam span param body).IgnoresChoice pick := by
  intro env n hc
  rw [inferWith, infer]
  refine run_bind_congr rfl fun paramTy n₁ hr₁ => ?_
  obtain ⟨rfl, rfl⟩ := run_modifyGet_eq_ok_iff.mp hr₁
  refine run_bind_congr rfl fun env' n₂ hr₂ => ?_
  obtain ⟨hb, rfl⟩ := run_raiseAt_eq_ok_iff.mp hr₂
  exact run_bind_congr (hbody (hc.bind_freshFor hb)) fun _ _ _ => rfl

theorem letIn {pattern : Pattern} {bound body : Expr} (hbound : bound.IgnoresChoice pick)
    (hbody : body.IgnoresChoice pick) :
    (Expr.letIn span pattern bound body).IgnoresChoice pick := by
  intro env n hc
  rw [inferWith, infer]
  refine run_bind_congr rfl fun placeholder n₁ hr₁ => ?_
  obtain ⟨rfl, rfl⟩ := run_modifyGet_eq_ok_iff.mp hr₁
  refine run_bind_congr rfl fun recEnv n₂ hr₂ => ?_
  obtain ⟨hb, rfl⟩ := run_raiseAt_eq_ok_iff.mp hr₂
  refine run_bind_congr (hbound (hc.bind_freshFor hb)) ?_
  rintro ⟨s₁, boundTy⟩ n₃ hr₃
  obtain ⟨h₁, hbt⟩ := infer_settles (hc.bind_freshFor hb) hr₃
  refine run_bind_congr rfl fun _ n₄ hr₄ => ?_
  obtain ⟨-, rfl⟩ := run_raiseAt_eq_ok_iff.mp hr₄
  simp only [unifyWith_eq]
  refine run_bind_congr rfl fun s₂ n₅ hr₅ => ?_
  obtain ⟨hu, rfl⟩ := run_raiseAt_eq_ok_iff.mp hr₅
  obtain ⟨hs₂, h₁₂, hgen⟩ := unsettled_letIn hb h₁ hbt hu
  simp only [Subst.composeWith_of_disjoint (Settles.disjoint hs₂)]
  refine run_bind_congr rfl fun bodyEnv n₆ hr₆ => ?_
  obtain ⟨hb', rfl⟩ := run_raiseAt_eq_ok_iff.mp hr₆
  have hc' := clean_letIn hc h₁₂ hgen hb'
  refine run_bind_congr (hbody hc') ?_
  rintro ⟨s₃, bodyTy⟩ n₇ hr₇
  have hs₃ := h₁₂.next hc ((infer_settles hc' hr₇).1.of_bind_generalize hb')
  rw [Subst.composeWith_of_disjoint (Settles.disjoint hs₃)]

theorem ite {cond thenBranch elseBranch : Expr} (hcond : cond.IgnoresChoice pick)
    (hthen : thenBranch.IgnoresChoice pick) (helse : elseBranch.IgnoresChoice pick) :
    (Expr.ite span cond thenBranch elseBranch).IgnoresChoice pick := by
  intro env n hc
  rw [inferWith, infer]
  refine run_bind_congr (hcond hc) ?_
  rintro ⟨s₁, condTy⟩ n₁ hr₁
  obtain ⟨h₁, ht₁⟩ := infer_settles hc hr₁
  simp only [unifyWith_eq]
  refine run_bind_congr rfl fun s₂ n₂ hr₂ => ?_
  obtain ⟨hu, rfl⟩ := run_raiseAt_eq_ok_iff.mp hr₂
  have hs₂ := unsettled_unify (fun v hv => by simp [Ty.vars] at hv) ht₁ hu
  have h₁₂ := h₁.compose (Nat.le_refl _) hs₂
  simp only [Subst.composeWith_of_disjoint (Settles.disjoint hs₂)]
  refine run_bind_congr (hthen (hc.applyEnv h₁₂)) ?_
  rintro ⟨s₃, thenTy⟩ n₃ hr₃
  obtain ⟨-, hs₃, h₁₃, ht₃⟩ := infer_andThen hc h₁₂ hr₃
  simp only [Subst.composeWith_of_disjoint (Settles.disjoint hs₃)]
  refine run_bind_congr (helse (hc.applyEnv h₁₃)) ?_
  rintro ⟨s₄, elseTy⟩ n₄ hr₄
  obtain ⟨hle, hs₄, h₁₄, ht₄⟩ := infer_andThen hc h₁₃ hr₄
  refine run_bind_congr rfl fun s₅ n₅ hr₅ => ?_
  obtain ⟨hu', rfl⟩ := run_raiseAt_eq_ok_iff.mp hr₅
  have hs₅ := unsettled_unify (Settles.unsettled_apply hs₄ hle ht₃) ht₄ hu'
  rw [Subst.composeWith_of_disjoint (Settles.disjoint hs₄),
    Subst.composeWith_of_disjoint (Settles.disjoint hs₅)]

/-- The components of a tuple, after what is settled before them. -/
theorem inferAll {es : List Expr} (hes : ∀ e ∈ es, e.IgnoresChoice pick) {env : Env}
    {n n₁ : Supply} {s : Subst} (hc : env.Clean n) (h : env.Settles n s n₁) :
    (inferAllWith pick env s es).run n₁ = (PolyLet.inferAll env s es).run n₁ := by
  induction es generalizing s n₁ with
  | nil => rw [inferAllWith, PolyLet.inferAll]
  | cons e es ihs =>
    rw [inferAllWith, PolyLet.inferAll]
    refine run_bind_congr (hes e (by simp) (hc.applyEnv h)) ?_
    rintro ⟨s₁, t⟩ n₂ hr
    obtain ⟨-, hs₁, h₁, -⟩ := infer_andThen hc h hr
    simp only [Subst.composeWith_of_disjoint (Settles.disjoint hs₁)]
    exact run_bind_congr (ihs (fun e he => hes e (by simp [he])) h₁) fun _ _ _ => rfl

theorem tuple {elems : List Expr} (helems : ∀ e ∈ elems, e.IgnoresChoice pick) :
    (Expr.tuple span elems).IgnoresChoice pick := by
  intro env n hc
  rw [inferWith, infer]
  exact run_bind_congr (inferAll helems hc (.start env n)) fun _ _ _ => rfl

end Expr.IgnoresChoice

/-- **Inference from a clean environment never meets a shared variable,** so the choice makes no
difference to it: every step settles variables that the steps before have left open. -/
theorem Expr.ignoresChoice (pick : Ty → Ty → Ty) (e : Expr) : e.IgnoresChoice pick := by
  induction e using Expr.ind with
  | int span value =>
    intro env n _
    rw [inferWith, infer]
  | bool span value =>
    intro env n _
    rw [inferWith, infer]
  | var span x => exact IgnoresChoice.var
  | app span func arg hfunc harg => exact IgnoresChoice.app hfunc harg
  | lam span param body hbody => exact IgnoresChoice.lam hbody
  | letIn span pattern bound body hbound hbody => exact IgnoresChoice.letIn hbound hbody
  | ite span cond thenBranch elseBranch hcond hthen helse =>
    exact IgnoresChoice.ite hcond hthen helse
  | tuple span elems helems => exact IgnoresChoice.tuple helems

/-- **Whose target wins is never observed.** Composition in which the older target stays is one
substitution after the other. Unification with it, or with any other choice, is unification; the
same holds of inference from a clean environment, result and supply. -/
theorem collision_unobservable :
    (∀ older newer : Subst,
      older.composeWith newerWins newer = older.compose newer ∧
      ∀ t, (older.composeWith olderWins newer).apply t = newer.apply (older.apply t)) ∧
    (∀ env e, inferWith newerWins env e = infer env e) ∧
    ∀ pick : Ty → Ty → Ty,
      (∀ t u, unifyWith pick t u = unify t u) ∧
      ∀ (env : Env) (e : Expr) (n : Supply), env.Clean n →
        (inferWith pick env e).run n = (infer env e).run n :=
  ⟨fun older newer => ⟨Subst.composeWith_newerWins older newer,
      Subst.apply_composeWith_olderWins older newer⟩,
    inferWith_newerWins, fun pick => ⟨unifyWith_eq pick, fun _ e _ hc => e.ignoresChoice pick hc⟩⟩

/-- In `x 1 2`, where the type `a` of `x` is not known yet, `a` is settled as a type of functions to
`t0`, and then `t0` in its turn. The composition of the two steps is the same if older targets
stay. -/
theorem collision_unobservable_app :
    Env.Clean (.ofList [("x", .mono (.var "a"))]) {} ∧
    (inferWith olderWins (.ofList [("x", .mono (.var "a"))])
      (.app {} (.app {} (.var {} "x") (.int {} 1)) (.int {} 2))).run {} =
      .ok (.ofList [("a", .fn .int (.fn .int (.var "t1"))), ("t0", .fn .int (.var "t1"))],
        .var "t1") ⟨2⟩ := by
  have hc : Env.Clean (.ofList [("x", .mono (.var "a"))]) {} := .of_entries (by decide) (by decide)
  have hu : unify (.var "a") (.fn .int (.var "t0")) = .ok (.singleton "a" (.fn .int (.var "t0"))) :=
    unify_var_left nofun
  have hu' : unify (.var "t0") (.fn .int (.var "t1")) =
      .ok (.singleton "t0" (.fn .int (.var "t1"))) := unify_var_left nofun
  have hr : (infer (.ofList [("x", .mono (.var "a"))])
      (.app {} (.var {} "x") (.int {} 1))).run {} =
      .ok (.singleton "a" (.fn .int (.var "t0")), .var "t0") ⟨1⟩ :=
    infer_app_eq_ok_iff.mpr
      ⟨∅, .var "a", {}, infer_var_eq_ok_iff.mpr ⟨.mono (.var "a"), rfl, rfl, rfl, rfl⟩,
        ∅, .int, {}, infer_int_eq_ok_iff.mpr ⟨rfl, rfl, rfl⟩, _, rfl, hu, rfl, rfl, rfl⟩
  refine ⟨hc, ?_⟩
  rw [(collision_unobservable.2.2 olderWins).2 _ _ _ hc]
  exact infer_app_eq_ok_iff.mpr ⟨_, _, _, hr,
    ∅, .int, ⟨1⟩, infer_int_eq_ok_iff.mpr ⟨rfl, rfl, rfl⟩, _, rfl, hu', rfl, rfl, rfl⟩

end PolyLet
