import PolyLet.Proofs.Inference.Idempotence
import PolyLet.Proofs.Renaming

/-!
# Inference from different supplies

Two runs of inference that draw different variables have the same outcome up to a renaming of type
variables. The renaming cannot be given in advance: a scheme is instantiated in the order of the
names of its quantified variables, and the names of the two runs are ordered differently. So the
renaming is built along the runs, and what it does to variables that are drawn already never
changes.

## Main definitions

* `Aligned ρ n m`: the renaming `ρ` sends the variables to come of the supply `n` to those of `m`
* `Inference.Mirrors ρ n m x y`: from these supplies `y` has the outcome of `x`, up to a renaming
  that differs from `ρ` only at variables drawn on the way

## Main results

* `Aligned.instantiate`: instances of a scheme and of the renamed scheme
* `Inference.Mirrors.bind`: one step after another
* `Expr.inferMirrored`: inference mirrors itself
* `infer_supply_independent`: inference does not depend on where the supply starts
-/

namespace PolyLet

open Renames (act)

variable {ρ ρ' : String → String} {n n' n₁ m m' m₁ : Supply}

/-! ## Two supplies -/

/-- The renaming keeps different variables apart, and the variables that one supply will draw become
those that the other one will draw, in the same order. -/
structure Aligned (ρ : String → String) (n m : Supply) : Prop where
  injective : Function.Injective ρ
  draws : ∀ i, ρ (freshName (n.next + i)) = freshName (m.next + i)

namespace Aligned

/-- The supplies stay side by side if both skip the same number of variables. -/
theorem skip (h : Aligned ρ n m) (k : Nat) : Aligned ρ ⟨n.next + k⟩ ⟨m.next + k⟩ where
  injective := h.injective
  draws i := by
    simp only [Nat.add_assoc]
    exact h.draws (k + i)

theorem fresh (h : Aligned ρ n m) :
    m.fresh.1 = n.fresh.1.rename ρ ∧ Aligned ρ n.fresh.2 m.fresh.2 :=
  ⟨congrArg Ty.var (h.draws 0).symm, h.skip 1⟩

theorem freshForAll {ps : List Pattern}
    (ih : ∀ p ∈ ps, ∀ {n m : Supply}, Aligned ρ n m →
      (m.freshFor p).1 = (n.freshFor p).1.rename ρ ∧ Aligned ρ (n.freshFor p).2 (m.freshFor p).2)
    (h : Aligned ρ n m) :
    (m.freshForAll ps).1 = (n.freshForAll ps).1.map (Ty.rename ρ) ∧
      Aligned ρ (n.freshForAll ps).2 (m.freshForAll ps).2 := by
  induction ps generalizing n m with
  | nil => exact ⟨rfl, h⟩
  | cons p ps ihs =>
    obtain ⟨hp, h₁⟩ := ih p (by simp) h
    obtain ⟨hps, h₂⟩ := ihs (fun q hq => ih q (by simp [hq])) h₁
    rw [Supply.freshForAll_cons, Supply.freshForAll_cons, hp, hps]
    exact ⟨rfl, h₂⟩

theorem freshFor (h : Aligned ρ n m) (p : Pattern) :
    (m.freshFor p).1 = (n.freshFor p).1.rename ρ ∧
      Aligned ρ (n.freshFor p).2 (m.freshFor p).2 := by
  induction p using Pattern.ind generalizing n m with
  | var x => exact h.fresh
  | tuple ps ih =>
    obtain ⟨hps, h'⟩ := freshForAll ih h
    rw [Supply.freshFor_tuple, Supply.freshFor_tuple, hps]
    exact ⟨(Ty.rename_tuple ρ _).symm, h'⟩

end Aligned

/-! ## Instances of renamed schemes -/

namespace Supply

/-- The variable that is drawn for a quantified one. -/
def copy (n : Supply) (vs : NameSet) (v : String) : String :=
  freshName (n.next + vs.toList.idxOf v)

variable {vs : NameSet} {v w : String}

theorem copy_injOn (hv : v ∈ vs) (hw : w ∈ vs) (h : n.copy vs v = n.copy vs w) : v = w := by
  have hidx : vs.toList.idxOf v = vs.toList.idxOf w := Nat.add_left_cancel (freshName_injective h)
  rw [← List.getElem_idxOf (List.idxOf_lt_length_of_mem hv),
    ← List.getElem_idxOf (List.idxOf_lt_length_of_mem hw)]
  simp only [hidx]

/-- The copies of quantified variables are the variables that are drawn next. -/
theorem exists_copy_iff {k : Nat} :
    (∃ v ∈ vs, n.copy vs v = freshName (n.next + k)) ↔ k < vs.size := by
  constructor
  · rintro ⟨v, hv, h⟩
    have hidx : vs.toList.idxOf v = k := Nat.add_left_cancel (freshName_injective h)
    exact hidx ▸ List.idxOf_lt_length_of_mem hv
  · intro hk
    have hk : k < vs.toList.length := hk
    exact ⟨vs.toList[k], List.getElem_mem hk, by rw [copy, List.Nodup.idxOf_getElem vs.nodup]⟩

/-- An instance is the body with the quantified variables renamed to their copies. -/
theorem instantiate_eq_rename (n : Supply) (σ : Scheme) :
    (n.instantiate σ).1 = σ.body.rename fun v => if v ∈ σ.vars then n.copy σ.vars v else v := by
  obtain ⟨g, hfree, hbound, heq⟩ := n.instantiate_spec σ
  rw [heq]
  refine Ty.replace_congr fun v _ => ?_
  by_cases hv : v ∈ σ.vars <;> simp only [hv, ↓reduceIte]
  · have hlt := List.idxOf_lt_length_of_mem (NameSet.mem_def.mp hv)
    have h := hbound _ hlt
    rwa [List.getElem_idxOf hlt] at h
  · exact hfree v hv

end Supply

namespace Aligned

/-- A renaming that sends the copy of each quantified variable to the copy of the renamed variable.
The two supplies hand out their variables in the order of the names of the quantified variables,
which the renaming may change; so the new renaming follows that order on the variables that are
drawn. -/
theorem exists_copies (h : Aligned ρ n m) (vs : NameSet) :
    ∃ ρ' : String → String, n.Agree ρ ρ' ∧ Aligned ρ' ⟨n.next + vs.size⟩ ⟨m.next + vs.size⟩ ∧
      ∀ v ∈ vs, ρ' (n.copy vs v) = m.copy (vs.rename ρ) (ρ v) := by
  classical
  -- what is no copy keeps its new name
  let ρ' : String → String := fun u =>
    if hu : ∃ v ∈ vs, n.copy vs v = u then m.copy (vs.rename ρ) (ρ hu.choose) else ρ u
  have hcopy : ∀ v ∈ vs, ρ' (n.copy vs v) = m.copy (vs.rename ρ) (ρ v) := by
    intro v hv
    have hex : ∃ w ∈ vs, n.copy vs w = n.copy vs v := ⟨v, hv, rfl⟩
    have hρ' : ρ' (n.copy vs v) = m.copy (vs.rename ρ) (ρ hex.choose) := dif_pos hex
    rw [hρ', Supply.copy_injOn hex.choose_spec.1 hv hex.choose_spec.2]
  have hother : ∀ u, (¬∃ v ∈ vs, n.copy vs v = u) → ρ' u = ρ u := fun u hu => dif_neg hu
  have hinj : Function.Injective ρ' := by
    refine injective_of_parts (p := fun u => ∃ v ∈ vs, n.copy vs v = u) ?_ ?_ ?_
    · rintro _ _ ⟨v, hv, rfl⟩ ⟨w, hw, rfl⟩ heq
      rw [hcopy v hv, hcopy w hw] at heq
      have hmv := (NameSet.mem_rename_iff h.injective).mpr hv
      have hmw := (NameSet.mem_rename_iff h.injective).mpr hw
      rw [h.injective (Supply.copy_injOn hmv hmw heq)]
    · intro u u' hu hu' heq
      rw [hother u hu, hother u' hu'] at heq
      exact h.injective heq
    · -- both supplies copy to their next variables, so what `ρ` sends to a copy is a copy
      rintro _ u ⟨v, hv, rfl⟩ hu heq
      rw [hcopy v hv, hother u hu] at heq
      obtain ⟨k, hk⟩ : ∃ k, m.copy (vs.rename ρ) (ρ v) = freshName (m.next + k) := ⟨_, rfl⟩
      have hlt : k < vs.size := by
        rw [← NameSet.size_rename h.injective vs]
        exact Supply.exists_copy_iff.mp ⟨ρ v, (NameSet.mem_rename_iff h.injective).mpr hv, hk⟩
      have hu' : u = freshName (n.next + k) := by
        refine h.injective ?_
        rw [← heq, hk, h.draws]
      exact hu (hu' ▸ Supply.exists_copy_iff.mpr hlt)
  refine ⟨ρ', fun u hu => hother u ?_, ⟨hinj, fun i => ?_⟩, hcopy⟩
  · rintro ⟨v, -, rfl⟩
    exact hu ⟨_, Nat.le_add_right _ _, rfl⟩
  · have hu : ¬∃ v ∈ vs, n.copy vs v = freshName (n.next + vs.size + i) := by
      rw [Nat.add_assoc, Supply.exists_copy_iff]
      omega
    rw [hother _ hu]
    exact (h.skip vs.size).draws i

/-- **Instances of a scheme and of the renamed scheme** are the same up to a renaming that changes
only at the variables that are drawn. -/
theorem instantiate (h : Aligned ρ n m) {σ : Scheme} (hσ : ∀ v ∈ σ.freeVars, ¬n.Undrawn v) :
    ∃ ρ' : String → String, n.Agree ρ ρ' ∧
      (m.instantiate (σ.rename ρ)).1 = (n.instantiate σ).1.rename ρ' ∧
      Aligned ρ' (n.instantiate σ).2 (m.instantiate (σ.rename ρ)).2 := by
  obtain ⟨ρ', hag, hρ', hcopy⟩ := h.exists_copies σ.vars
  refine ⟨ρ', hag, ?_, ?_⟩
  · rw [Supply.instantiate_eq_rename, Supply.instantiate_eq_rename, Scheme.rename]
    rw [Ty.rename_rename, Ty.rename_rename]
    refine Ty.rename_congr fun v hv => ?_
    by_cases hq : v ∈ σ.vars
    · have hq' := (NameSet.mem_rename_iff h.injective).mpr hq
      simp only [Function.comp_apply, if_pos hq, if_pos hq']
      exact (hcopy v hq).symm
    · have hq' : ρ v ∉ σ.vars.rename ρ := fun hm => hq ((NameSet.mem_rename_iff h.injective).mp hm)
      simp only [Function.comp_apply, if_neg hq, if_neg hq']
      exact (hag v (hσ v (Scheme.mem_freeVars.mpr ⟨hv, hq⟩))).symm
  · have hsize : (σ.rename ρ).vars.size = σ.vars.size := NameSet.size_rename h.injective σ.vars
    rw [Supply.instantiate, Supply.instantiate, hsize]
    exact hρ'

end Aligned

/-! ## Runs side by side -/

instance : Renames InferError where
  act := InferError.rename

namespace Inference

variable {α β : Type} [Renames α] [Renames β] {x y : Inference α} {f g : α → Inference β}

/-- **A computation mirrors another one** if, from supplies that are side by side under the renaming
`ρ`, it has the same outcome up to a renaming that differs from `ρ` only at variables drawn on the
way. -/
inductive Mirrors (ρ : String → String) (n m : Supply) (x y : Inference α) : Prop
  | ok {ρ' a n' m'} (hx : x.run n = .ok a n') (hy : y.run m = .ok (act ρ' a) m')
    (hle : n.next ≤ n'.next) (hag : n.Agree ρ ρ') (hρ' : Aligned ρ' n' m')
  | error {ρ' e n' m'} (hx : x.run n = .error e n') (hy : y.run m = .error (act ρ' e) m')
    (hag : n.Agree ρ ρ') (hρ' : Function.Injective ρ')

namespace Mirrors

theorem pure {a b : α} (h : Aligned ρ n m) (heq : b = act ρ a) :
    Mirrors ρ n m (pure a) (pure b) :=
  .ok rfl (heq ▸ rfl) (Nat.le_refl _) (fun _ _ => rfl) h

/-- One step after another. -/
theorem bind (h : Mirrors ρ n m x y)
    (hfg : ∀ {ρ' a n' m'}, x.run n = .ok a n' → n.Agree ρ ρ' → Aligned ρ' n' m' →
      Mirrors ρ' n' m' (f a) (g (act ρ' a))) : Mirrors ρ n m (x >>= f) (y >>= g) := by
  cases h with
  | ok hx hy hle hag hρ' =>
    cases hfg hx hag hρ' with
    | ok hf hg hle' hag' hρ'' =>
      exact .ok ((run_bind_of_ok hx).trans hf) ((run_bind_of_ok hy).trans hg)
        (Nat.le_trans hle hle') (hag.trans hle hag') hρ''
    | error hf hg hag' hρ'' =>
      exact .error ((run_bind_of_ok hx).trans hf) ((run_bind_of_ok hy).trans hg)
        (hag.trans hle hag') hρ''
  | error hx hy hag hρ' =>
    exact .error (run_bind_of_error hx) (run_bind_of_error hy) hag hρ'

/-- A step that draws variables; here the renaming stays as it is. -/
theorem bind_modifyGet {k l : Supply → α × Supply} (hle : n.next ≤ (k n).2.next)
    (heq : (l m).1 = act ρ (k n).1)
    (hfg : Mirrors ρ (k n).2 (l m).2 (f (k n).1) (g (act ρ (k n).1))) :
    Mirrors ρ n m (modifyGet k >>= f) (modifyGet l >>= g) := by
  have hx : (modifyGet k : Inference α).run n = .ok (k n).1 (k n).2 := rfl
  have hy : (modifyGet l : Inference α).run m = .ok (act ρ (k n).1) (l m).2 := by
    rw [← heq]
    rfl
  have hstay : n.Agree ρ ρ := fun _ _ => rfl
  cases hfg with
  | ok hf hg hle' hag hρ' =>
    exact .ok ((run_bind_of_ok hx).trans hf) ((run_bind_of_ok hy).trans hg) (Nat.le_trans hle hle')
      (hstay.trans hle hag) hρ'
  | error hf hg hag hρ' =>
    exact .error ((run_bind_of_ok hx).trans hf) ((run_bind_of_ok hy).trans hg)
      (hstay.trans hle hag) hρ'

/-- A step that draws nothing and may fail. -/
theorem bind_raiseAt {span : Span} {u w : Except TypeError α} (h : Aligned ρ n m)
    (heq : w = act ρ u) (hfg : ∀ a, u = .ok a → Mirrors ρ n m (f a) (g (act ρ a))) :
    Mirrors ρ n m (raiseAt span u >>= f) (raiseAt span w >>= g) := by
  subst heq
  cases u with
  | ok a => exact hfg a rfl
  | error e => exact .error rfl rfl (fun _ _ => rfl) h.injective

end Mirrors

end Inference

/-! ## Values that are older than the change of the renaming -/

section Older

open Env

variable {env : Env} {s : Subst} {t : Ty}

theorem Env.Clean.rename_eq (hc : env.Clean n) (h : n.Agree ρ ρ') : env.rename ρ' = env.rename ρ :=
  Env.rename_congr fun _ _ hx v hv => h v (hc.drawn hx hv)

theorem Env.Settles.rename_eq (hs : env.Settles n s n₁) (hc : env.Clean n) (h : n₁.Agree ρ ρ') :
    s.rename ρ' = s.rename ρ := by
  have hscope : ∀ v ∈ env.scope n n₁, ρ' v = ρ v :=
    fun v hv => h v (hc.not_undrawn_of_mem_scope hs.le hv)
  refine Subst.rename_congr (fun v t hv => ?_) fun v t hv w hw => ?_
  · exact hscope v (hs.resolved.name_mem (NameMap.mem_names.mpr ⟨t, hv⟩))
  · exact hscope w (hs.resolved.var_mem hv hw)

/-- A composition with something newer. -/
theorem Env.Settles.compose_rename (hs : env.Settles n s n₁) (hc : env.Clean n) (h : n₁.Agree ρ ρ')
    (hρ' : Function.Injective ρ') (s' : Subst) :
    (s.rename ρ).compose (s'.rename ρ') = (s.compose s').rename ρ' := by
  rw [← hs.rename_eq hc h, Subst.compose_rename hρ']

theorem Env.Settles.rename_type_eq (hs : env.Settles n s n₁) (hc : env.Clean n)
    (ht : t.Within (env.unsettled n n₁ s)) (h : n₁.Agree ρ ρ') : t.rename ρ' = t.rename ρ :=
  Ty.rename_congr fun v hv =>
    h v (hc.not_undrawn_of_mem_scope hs.le (mem_unsettled.mp (ht v hv)).1)

/-- The type for a pattern is older than everything after it. -/
theorem rename_freshFor {p : Pattern} (h : (n.freshFor p).2.Agree ρ ρ') :
    (n.freshFor p).1.rename ρ' = (n.freshFor p).1.rename ρ :=
  Ty.rename_congr fun v hv => h v (Supply.mem_drawn_iff.mp ((n.freshFor_spec p).2.1 v hv)).2

end Older

/-! ## Inference -/

theorem unify_head_rename (hρ : Function.Injective ρ) (head expected : Ty) :
    (if (head.rename ρ).mayBeFn then unify (head.rename ρ) (expected.rename ρ)
      else .error (.mismatch (expected.rename ρ) (head.rename ρ))) =
    act ρ (if head.mayBeFn then unify head expected else .error (.mismatch expected head)) := by
  rw [Ty.mayBeFn_rename, unify_rename hρ]
  split <;> rfl

/-- Inference for the expression from one supply mirrors inference from another one. -/
def Expr.InferMirrored (e : Expr) : Prop :=
  ∀ {env : Env} {n m : Supply} {ρ : String → String}, env.Clean n → Aligned ρ n m →
    (infer env e).Mirrors ρ n m (infer (env.rename ρ) e)

namespace Expr.InferMirrored

open Env Inference

variable {env : Env} {s : Subst} {e : Expr} {span : Span}

/-- An expression that comes after others. -/
theorem andThen (he : e.InferMirrored) (hc : env.Clean n) (h : env.Settles n s n₁)
    (hag : n.Agree ρ ρ') (hρ' : Aligned ρ' n₁ m₁) :
    (infer (s.applyEnv env) e).Mirrors ρ' n₁ m₁
      (infer ((s.rename ρ').applyEnv (env.rename ρ)) e) := by
  rw [← hc.rename_eq hag, Subst.applyEnv_rename hρ'.injective]
  exact he (hc.applyEnv h) hρ'

theorem var {x : String} : (Expr.var span x).InferMirrored := by
  intro env n m ρ hc hρ
  cases hx : env.get? x with
  | none =>
    rw [infer, infer, Env.get?_rename, hx]
    exact .error rfl rfl (fun _ _ => rfl) hρ.injective
  | some σ =>
    -- the only rule that changes the renaming
    obtain ⟨ρ', hag, heq, hρ'⟩ := hρ.instantiate fun v hv => hc.drawn hx (.inl hv)
    have hx' : (env.rename ρ).get? x = some (σ.rename ρ) := by
      rw [Env.get?_rename, hx]
      rfl
    exact .ok (infer_var_eq_ok_iff.mpr ⟨σ, hx, rfl, rfl, rfl⟩)
      (infer_var_eq_ok_iff.mpr ⟨_, hx', rfl, heq.symm, rfl⟩) (n.instantiate_le σ) hag hρ'

theorem app {func arg : Expr} (hfunc : func.InferMirrored) (harg : arg.InferMirrored) :
    (Expr.app span func arg).InferMirrored := by
  intro env n m ρ hc hρ
  rw [infer, infer]
  refine (hfunc hc hρ).bind fun {ρ₁ r₁ n₁ m₁} hr₁ hag₁ hρ₁ => ?_
  obtain ⟨s₁, funcTy⟩ := r₁
  obtain ⟨h₁, hf⟩ := infer_settles hc hr₁
  refine (harg.andThen hc h₁ hag₁ hρ₁).bind fun {ρ₂ r₂ n₂ m₂} hr₂ hag₂ hρ₂ => ?_
  obtain ⟨s₂, argTy⟩ := r₂
  obtain ⟨hfresh, hρ₃⟩ := hρ₂.fresh
  refine .bind_modifyGet n₂.fresh_le hfresh (.bind_raiseAt hρ₃ ?_ fun s₃ _ => .pure hρ₃ ?_)
  · -- the type of the function is older than what the argument adds to the renaming
    have h := unify_head_rename hρ₂.injective (s₂.apply funcTy) (.fn argTy n₂.fresh.1)
    rw [← Subst.apply_rename hρ₂.injective, h₁.rename_type_eq hc hf hag₂] at h
    exact h
  · show (((s₁.rename ρ₁).compose (s₂.rename ρ₂)).compose (s₃.rename ρ₂), _) =
      (((s₁.compose s₂).compose s₃).rename ρ₂, _)
    rw [h₁.compose_rename hc hag₂ hρ₂.injective, Subst.compose_rename hρ₂.injective]
    exact congrArg _ (Subst.apply_rename hρ₂.injective s₃ n₂.fresh.1)

theorem lam {param : Pattern} {body : Expr} (hbody : body.InferMirrored) :
    (Expr.lam span param body).InferMirrored := by
  intro env n m ρ hc hρ
  obtain ⟨hfresh, hρ₁⟩ := hρ.freshFor param
  rw [infer, infer]
  refine .bind_modifyGet (n.freshFor_spec param).1 hfresh ?_
  refine .bind_raiseAt hρ₁ (Env.bind_rename hρ.injective env param (.mono (n.freshFor param).1))
    fun env' hb => ?_
  refine (hbody (hc.bind_freshFor hb) hρ₁).bind fun {ρ₂ r₂ n₂ m₂} hr₂ hag₂ hρ₂ => ?_
  obtain ⟨s, bodyTy⟩ := r₂
  refine .pure hρ₂ ?_
  show (s.rename ρ₂,
      Ty.fn ((s.rename ρ₂).apply ((n.freshFor param).1.rename ρ)) (bodyTy.rename ρ₂)) =
    (s.rename ρ₂, Ty.fn ((s.apply (n.freshFor param).1).rename ρ₂) (bodyTy.rename ρ₂))
  rw [← rename_freshFor hag₂, Subst.apply_rename hρ₂.injective]

theorem letIn {pattern : Pattern} {bound body : Expr} (hbound : bound.InferMirrored)
    (hbody : body.InferMirrored) : (Expr.letIn span pattern bound body).InferMirrored := by
  intro env n m ρ hc hρ
  obtain ⟨hfresh, hρ₁⟩ := hρ.freshFor pattern
  rw [infer, infer]
  refine .bind_modifyGet (n.freshFor_spec pattern).1 hfresh ?_
  refine .bind_raiseAt hρ₁
    (Env.bind_rename hρ.injective env pattern (.mono (n.freshFor pattern).1)) fun recEnv hb => ?_
  have hc₁ := hc.bind_freshFor hb
  refine (hbound hc₁ hρ₁).bind fun {ρ₂ r₂ n₂ m₂} hr₂ hag₂ hρ₂ => ?_
  obtain ⟨s₁, boundTy⟩ := r₂
  obtain ⟨h₁, hbt⟩ := infer_settles hc₁ hr₂
  have hinj := hρ₂.injective
  refine .bind_raiseAt hρ₂ (checkShape_rename ρ₂ pattern boundTy) fun _ _ => ?_
  refine .bind_raiseAt hρ₂ ?_ fun s₂ hu => ?_
  · -- the type of the pattern is older than what the bound expression adds to the renaming
    have h := unify_rename hinj (s₁.apply (n.freshFor pattern).1) boundTy
    rw [← Subst.apply_rename hinj, rename_freshFor hag₂] at h
    exact h
  obtain ⟨hs₂, h₁₂, hgen⟩ := unsettled_letIn hb h₁ hbt hu
  refine .bind_raiseAt hρ₂ ?_ fun bodyEnv hb' => ?_
  · -- and so is the outer environment
    have h := Env.bind_rename hinj ((s₁.compose s₂).applyEnv env) pattern
      (generalize ((s₁.compose s₂).applyEnv env) (s₂.apply boundTy))
    rw [← generalize_rename hinj, ← Subst.apply_rename hinj, ← Subst.applyEnv_rename hinj,
      ← Subst.compose_rename hinj, (hc.of_le (n.freshFor_spec pattern).1).rename_eq hag₂] at h
    exact h
  refine (hbody (clean_letIn hc h₁₂ hgen hb') hρ₂).bind fun {ρ₃ r₃ n₃ m₃} hr₃ hag₃ hρ₃ => ?_
  obtain ⟨s₃, bodyTy⟩ := r₃
  refine .pure hρ₃ ?_
  show (((s₁.rename ρ₂).compose (s₂.rename ρ₂)).compose (s₃.rename ρ₃), _) =
    (((s₁.compose s₂).compose s₃).rename ρ₃, _)
  rw [Subst.compose_rename hinj, h₁₂.compose_rename hc hag₃ hρ₃.injective]

theorem ite {cond thenBranch elseBranch : Expr} (hcond : cond.InferMirrored)
    (hthen : thenBranch.InferMirrored) (helse : elseBranch.InferMirrored) :
    (Expr.ite span cond thenBranch elseBranch).InferMirrored := by
  intro env n m ρ hc hρ
  rw [infer, infer]
  refine (hcond hc hρ).bind fun {ρ₁ r₁ n₁ m₁} hr₁ hag₁ hρ₁ => ?_
  obtain ⟨s₁, condTy⟩ := r₁
  obtain ⟨h₁, ht₁⟩ := infer_settles hc hr₁
  refine .bind_raiseAt hρ₁ (unify_rename hρ₁.injective .bool condTy) fun s₂ hu => ?_
  have hs₂ := unsettled_unify (fun v hv => by simp [Ty.vars] at hv) ht₁ hu
  have h₁₂ := h₁.compose (Nat.le_refl _) hs₂
  have hs₁₂ := Subst.compose_rename hρ₁.injective s₁ s₂
  have hthen := hthen.andThen hc h₁₂ hag₁ hρ₁
  rw [← hs₁₂] at hthen
  refine hthen.bind fun {ρ₂ r₂ n₂ m₂} hr₂ hag₂ hρ₂ => ?_
  obtain ⟨s₃, thenTy⟩ := r₂
  obtain ⟨-, hs₃, h₁₃, ht₃⟩ := infer_andThen hc h₁₂ hr₂
  have hs₁₃ := h₁₂.compose_rename hc hag₂ hρ₂.injective s₃
  have helse := helse.andThen hc h₁₃ (hag₁.trans h₁.le hag₂) hρ₂
  rw [← hs₁₃, ← hs₁₂] at helse
  refine helse.bind fun {ρ₃ r₃ n₃ m₃} hr₃ hag₃ hρ₃ => ?_
  obtain ⟨s₄, elseTy⟩ := r₃
  refine .bind_raiseAt hρ₃ ?_ fun s₅ _ => .pure hρ₃ ?_
  · have h := unify_rename hρ₃.injective (s₄.apply thenTy) elseTy
    rw [← Subst.apply_rename hρ₃.injective, h₁₃.rename_type_eq hc ht₃ hag₃] at h
    exact h
  · show (((((s₁.rename ρ₁).compose (s₂.rename ρ₁)).compose (s₃.rename ρ₂)).compose
      (s₄.rename ρ₃)).compose (s₅.rename ρ₃), _) =
      (((((s₁.compose s₂).compose s₃).compose s₄).compose s₅).rename ρ₃, _)
    rw [hs₁₂, hs₁₃, h₁₃.compose_rename hc hag₃ hρ₃.injective, Subst.compose_rename hρ₃.injective]
    exact congrArg _ (Subst.apply_rename hρ₃.injective s₅ elseTy)

/-- The components of a tuple, after what is settled before them. -/
theorem inferAll {es : List Expr} (hes : ∀ e ∈ es, e.InferMirrored) (hc : env.Clean n)
    (h : env.Settles n s n₁) (hag : n.Agree ρ ρ') (hρ' : Aligned ρ' n₁ m₁) :
    (inferAll env s es).Mirrors ρ' n₁ m₁ (PolyLet.inferAll (env.rename ρ) (s.rename ρ') es) := by
  induction es generalizing s n₁ m₁ ρ' with
  | nil =>
    rw [PolyLet.inferAll, PolyLet.inferAll]
    exact .pure hρ' rfl
  | cons e es ihs =>
    rw [PolyLet.inferAll, PolyLet.inferAll]
    have he : e.InferMirrored := hes e (by simp)
    refine (he.andThen hc h hag hρ').bind fun {ρ₂ r₂ n₂ m₂} hr₂ hag₂ hρ₂ => ?_
    obtain ⟨s₂, t⟩ := r₂
    obtain ⟨-, -, h₂, ht⟩ := infer_andThen hc h hr₂
    have hes := ihs (fun e he => hes e (by simp [he])) h₂ (hag.trans h.le hag₂) hρ₂
    rw [← h.compose_rename hc hag₂ hρ₂.injective] at hes
    refine hes.bind fun {ρ₃ r₃ n₃ m₃} _ hag₃ hρ₃ => .pure hρ₃ ?_
    show (r₃.1.rename ρ₃, t.rename ρ₂ :: r₃.2.map (Ty.rename ρ₃)) =
      (r₃.1.rename ρ₃, t.rename ρ₃ :: r₃.2.map (Ty.rename ρ₃))
    rw [h₂.rename_type_eq hc ht hag₃]

theorem tuple {elems : List Expr} (helems : ∀ e ∈ elems, e.InferMirrored) :
    (Expr.tuple span elems).InferMirrored := by
  intro env n m ρ hc hρ
  rw [infer, infer]
  refine (inferAll helems hc (.start env n) (fun _ _ => rfl) hρ).bind
    fun {ρ₁ r₁ n₁ m₁} _ _ hρ₁ => .pure hρ₁ ?_
  obtain ⟨s, ts⟩ := r₁
  show (s.rename ρ₁, Ty.tuple ((ts.map (Ty.rename ρ₁)).map (s.rename ρ₁).apply)) =
    (s.rename ρ₁, (Ty.tuple (ts.map s.apply)).rename ρ₁)
  rw [Ty.rename_tuple, Subst.map_apply_rename hρ₁.injective]

end Expr.InferMirrored

/-- **Inference from one supply mirrors inference from another one,** in the renamed environment. -/
theorem Expr.inferMirrored (e : Expr) : e.InferMirrored := by
  induction e using Expr.ind with
  | int span value =>
    intro env n m ρ _ hρ
    rw [infer, infer]
    exact .pure hρ rfl
  | bool span value =>
    intro env n m ρ _ hρ
    rw [infer, infer]
    exact .pure hρ rfl
  | var span x => exact InferMirrored.var
  | app span func arg hfunc harg => exact InferMirrored.app hfunc harg
  | lam span param body hbody => exact InferMirrored.lam hbody
  | letIn span pattern bound body hbound hbody => exact InferMirrored.letIn hbound hbody
  | ite span cond thenBranch elseBranch hcond hthen helse =>
    exact InferMirrored.ite hcond hthen helse
  | tuple span elems helems => exact InferMirrored.tuple helems

/-! ## Independence -/

/-- All names but those of a list can be renamed to longer names that no supply draws. -/
theorem exists_keeping {vs : List String} (hm : ∀ v ∈ vs, ¬m.Undrawn v) :
    ∃ r : String → String, Function.Injective r ∧ (∀ v ∈ vs, r v = v) ∧ ∀ v, ¬m.Undrawn (r v) := by
  -- names that start with an `x` are never drawn, and these are longer than those to be kept
  let away : String → String := fun v => "x" ++ String.join vs ++ v
  have haway : ∀ v, away v ∉ vs := by
    intro v hv
    have hle := length_le_length_join hv
    simp only [away, String.toList_append, List.length_append] at hle
    have hx : "x".toList.length = 1 := rfl
    omega
  let r : String → String := fun v => if v ∈ vs then v else away v
  have hkeep : ∀ v ∈ vs, r v = v := fun v hv => if_pos hv
  have hother : ∀ v, v ∉ vs → r v = away v := fun v hv => if_neg hv
  refine ⟨r, injective_of_parts (p := (· ∈ vs)) ?_ ?_ ?_, hkeep, fun v => ?_⟩
  · intro v w hv hw heq
    rwa [hkeep v hv, hkeep w hw] at heq
  · intro v w hv hw heq
    rw [hother v hv, hother w hw] at heq
    exact (String.append_right_inj _).mp heq
  · intro v w hv hw heq
    rw [hkeep v hv, hother w hw] at heq
    exact haway w (heq ▸ hv)
  · by_cases hv : v ∈ vs
    · rw [hkeep v hv]
      exact hm v hv
    · rw [hother v hv]
      exact Supply.not_undrawn_of_head (by simp [away])

/-- A renaming that keeps the given names and sends the variables of one supply to those of another
one. All other names give way to these. -/
theorem exists_aligned {vs : List String} (hn : ∀ v ∈ vs, ¬n.Undrawn v)
    (hm : ∀ v ∈ vs, ¬m.Undrawn v) : ∃ ρ, Aligned ρ n m ∧ ∀ v ∈ vs, ρ v = v := by
  classical
  obtain ⟨r, hr, hkeep, hdrawn⟩ := exists_keeping hm
  let ρ : String → String := fun v =>
    if h : n.Undrawn v then freshName (m.next + (h.choose - n.next)) else r v
  have hdraws : ∀ i, ρ (freshName (n.next + i)) = freshName (m.next + i) := by
    intro i
    have hu : n.Undrawn (freshName (n.next + i)) := ⟨_, Nat.le_add_right _ _, rfl⟩
    have hk := freshName_injective hu.choose_spec.2
    have hρ : ρ (freshName (n.next + i)) = freshName (m.next + (hu.choose - n.next)) := dif_pos hu
    rw [hρ, ← hk, Nat.add_sub_cancel_left]
  have hother : ∀ v, ¬n.Undrawn v → ρ v = r v := fun v hv => dif_neg hv
  have hnext : ∀ {v}, n.Undrawn v → ∃ i, v = freshName (n.next + i) := by
    rintro v ⟨k, hk, rfl⟩
    exact ⟨k - n.next, by rw [Nat.add_sub_cancel' hk]⟩
  refine ⟨ρ, ⟨injective_of_parts (p := n.Undrawn) ?_ ?_ ?_, hdraws⟩, fun v hv => ?_⟩
  · intro v w hv hw heq
    obtain ⟨i, rfl⟩ := hnext hv
    obtain ⟨j, rfl⟩ := hnext hw
    rw [hdraws, hdraws] at heq
    rw [Nat.add_left_cancel (freshName_injective heq)]
  · intro v w hv hw heq
    rw [hother v hv, hother w hw] at heq
    exact hr heq
  · intro v w hv hw heq
    obtain ⟨i, rfl⟩ := hnext hv
    rw [hdraws, hother w hw] at heq
    exact hdrawn w ⟨_, Nat.le_add_right _ _, heq.symm⟩
  · rw [hother v (hn v hv), hkeep v hv]

/-- The type variables of an environment, free and quantified. -/
def Env.allVars (env : Env) : List String :=
  env.entries.flatMap fun x => x.2.freeVars.toList ++ x.2.vars.toList

theorem Env.mem_allVars {env : Env} {v : String} :
    v ∈ env.allVars ↔ ∃ x σ, env.get? x = some σ ∧ (v ∈ σ.freeVars ∨ v ∈ σ.vars) := by
  simp only [allVars, List.mem_flatMap, List.mem_append, ← NameSet.mem_def, Prod.exists,
    NameMap.mem_entries]

/-- An environment that is clean for two supplies stays as it is under a renaming from one to the
other. -/
theorem Env.Clean.exists_aligned {env : Env} (hn : env.Clean n) (hm : env.Clean m) :
    ∃ ρ, Aligned ρ n m ∧ (∀ v ∈ env.freeVars, ρ v = v) ∧ env.rename ρ = env := by
  have hdrawn : ∀ {k : Supply}, env.Clean k → ∀ v ∈ env.allVars, ¬k.Undrawn v := by
    intro k hk v hv
    obtain ⟨x, σ, hx, hv⟩ := Env.mem_allVars.mp hv
    exact hk.drawn hx hv
  obtain ⟨ρ, hρ, hfix⟩ := PolyLet.exists_aligned (hdrawn hn) (hdrawn hm)
  refine ⟨ρ, hρ, fun v hv => ?_, Env.rename_of_fixed fun x σ hx v hv => ?_⟩
  · obtain ⟨x, σ, hx, hv⟩ := Env.mem_freeVars.mp hv
    exact hfix v (Env.mem_allVars.mpr ⟨x, σ, hx, .inl hv⟩)
  · exact hfix v (Env.mem_allVars.mpr ⟨x, σ, hx, hv⟩)

/-- **Inference does not depend on where the supply starts.** From two supplies that draw no
variable of the environment it succeeds both times, with the same substitution and type up to an
injective renaming that keeps the free variables of the environment; or it fails both times, with
the same kind of error at the same place, and the types in the error are the same up to such a
renaming. -/
theorem infer_supply_independent (env : Env) (e : Expr) (n m : Supply)
    (hc : env.Clean ⟨min n.next m.next⟩) :
    ∃ ρ : String → String, Function.Injective ρ ∧ (∀ v ∈ env.freeVars, ρ v = v) ∧
      ((∃ s t, (infer env e).result n = .ok (s, t) ∧
        (infer env e).result m = .ok (s.rename ρ, t.rename ρ)) ∨
      ∃ cause span, (infer env e).result n = .error ⟨cause, span⟩ ∧
        (infer env e).result m = .error ⟨cause.rename ρ, span⟩) := by
  have hn : env.Clean n := hc.of_le (Nat.min_le_left _ _)
  have hm : env.Clean m := hc.of_le (Nat.min_le_right _ _)
  obtain ⟨ρ, hρ, hfix, henv⟩ := hn.exists_aligned hm
  have hfree : ∀ {ρ'}, n.Agree ρ ρ' → ∀ v ∈ env.freeVars, ρ' v = v :=
    fun hag v hv => (hag v (hn.not_undrawn hv)).trans (hfix v hv)
  have hmirror := e.inferMirrored hn hρ
  rw [henv] at hmirror
  cases hmirror with
  | @ok ρ' r n' m' hx hy _ hag hρ' =>
    refine ⟨ρ', hρ'.injective, hfree hag, .inl ⟨r.1, r.2, ?_, ?_⟩⟩
    · rw [Inference.result, hx]
    · rw [Inference.result, hy]
      rfl
  | @error ρ' err n' m' hx hy hag hρ' =>
    refine ⟨ρ', hρ', hfree hag, .inr ⟨err.cause, err.span, ?_, ?_⟩⟩
    · rw [Inference.result, hx]
    · rw [Inference.result, hy]
      rfl

/-- In `let k = fn x -> fn y -> x in k` the type of `k` is generalized and then used. From `t0` on
its quantified variables are `t1` and `t2`, which are instantiated in this order; from `t8` on they
are `t9` and `t10`, and `t10` comes first. -/
theorem infer_supply_independent_letIn :
    Env.Clean ∅ ⟨min 0 8⟩ ∧
    (infer ∅ (.letIn {} (.var "k") (.lam {} (.var "x") (.lam {} (.var "y") (.var {} "x")))
      (.var {} "k"))).result ⟨0⟩ =
      .ok (.singleton "t0" (.fn (.var "t1") (.fn (.var "t2") (.var "t1"))),
        .fn (.var "t3") (.fn (.var "t4") (.var "t3"))) ∧
    (infer ∅ (.letIn {} (.var "k") (.lam {} (.var "x") (.lam {} (.var "y") (.var {} "x")))
      (.var {} "k"))).result ⟨8⟩ =
      .ok (.singleton "t8" (.fn (.var "t9") (.fn (.var "t10") (.var "t9"))),
        .fn (.var "t12") (.fn (.var "t11") (.var "t12"))) ∧
    ∃ ρ : String → String, Function.Injective ρ ∧
      (Ty.fn (.var "t3") (.fn (.var "t4") (.var "t3"))).rename ρ =
        .fn (.var "t12") (.fn (.var "t11") (.var "t12")) := by
  have hc : Env.Clean ∅ ⟨min 0 8⟩ := .of_entries (by decide) (by decide)
  have hu : unify (.var "t0") (.fn (.var "t1") (.fn (.var "t2") (.var "t1"))) =
    .ok (.singleton "t0" (.fn (.var "t1") (.fn (.var "t2") (.var "t1")))) := unify_var_left nofun
  have hu' : unify (.var "t8") (.fn (.var "t9") (.fn (.var "t10") (.var "t9"))) =
    .ok (.singleton "t8" (.fn (.var "t9") (.fn (.var "t10") (.var "t9")))) := unify_var_left nofun
  have hr : (infer ∅ (.letIn {} (.var "k") (.lam {} (.var "x") (.lam {} (.var "y") (.var {} "x")))
      (.var {} "k"))).result ⟨0⟩ =
      .ok (.singleton "t0" (.fn (.var "t1") (.fn (.var "t2") (.var "t1"))),
        .fn (.var "t3") (.fn (.var "t4") (.var "t3"))) :=
    Inference.result_eq_ok_iff.mpr ⟨⟨5⟩, infer_letIn_eq_ok_iff.mpr ⟨_, rfl, ∅, _, ⟨3⟩,
      infer_lam_eq_ok_iff.mpr ⟨_, rfl, ∅, _, ⟨3⟩,
        infer_lam_eq_ok_iff.mpr ⟨_, rfl, ∅, _, ⟨3⟩,
          infer_var_eq_ok_iff.mpr ⟨.mono (.var "t1"), rfl, rfl, rfl, rfl⟩, rfl, rfl, rfl⟩,
        rfl, rfl, rfl⟩,
      ⟨(), rfl⟩, _, hu, _, rfl, ∅, _, ⟨5⟩,
      infer_var_eq_ok_iff.mpr
        ⟨⟨.ofList ["t1", "t2"], .fn (.var "t1") (.fn (.var "t2") (.var "t1"))⟩,
        rfl, rfl, rfl, rfl⟩, rfl, rfl, rfl⟩⟩
  have hr' : (infer ∅ (.letIn {} (.var "k") (.lam {} (.var "x") (.lam {} (.var "y") (.var {} "x")))
      (.var {} "k"))).result ⟨8⟩ =
      .ok (.singleton "t8" (.fn (.var "t9") (.fn (.var "t10") (.var "t9"))),
        .fn (.var "t12") (.fn (.var "t11") (.var "t12"))) :=
    Inference.result_eq_ok_iff.mpr ⟨⟨13⟩, infer_letIn_eq_ok_iff.mpr ⟨_, rfl, ∅, _, ⟨11⟩,
      infer_lam_eq_ok_iff.mpr ⟨_, rfl, ∅, _, ⟨11⟩,
        infer_lam_eq_ok_iff.mpr ⟨_, rfl, ∅, _, ⟨11⟩,
          infer_var_eq_ok_iff.mpr ⟨.mono (.var "t9"), rfl, rfl, rfl, rfl⟩, rfl, rfl, rfl⟩,
        rfl, rfl, rfl⟩,
      ⟨(), rfl⟩, _, hu', _, rfl, ∅, _, ⟨13⟩,
      infer_var_eq_ok_iff.mpr
        ⟨⟨.ofList ["t9", "t10"], .fn (.var "t9") (.fn (.var "t10") (.var "t9"))⟩,
        rfl, rfl, rfl, rfl⟩, rfl, rfl, rfl⟩⟩
  obtain ⟨ρ, hρ, -, ⟨s, t, h, h'⟩ | ⟨cause, span, h, -⟩⟩ := infer_supply_independent _ _ ⟨0⟩ ⟨8⟩ hc
  · rw [hr] at h
    rw [hr'] at h'
    obtain ⟨-, rfl⟩ := Prod.mk.inj (Except.ok.inj h)
    exact ⟨hc, hr, hr', ρ, hρ, (Prod.mk.inj (Except.ok.inj h')).2.symm⟩
  · rw [hr] at h
    cases h

end PolyLet
