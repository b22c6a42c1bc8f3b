import PolyLet.Proofs.Binding.Leaves
import PolyLet.Proofs.Inference.Location

/-!
# Scopes of names

Inference looks a name up in the environment of the place where it stands, and the environments are
built so that it finds the names in scope: substitution keeps the names of an environment, and
binding a pattern adds those of the pattern. So an expression has a type only if its free names are
bound, and a name is reported as unbound only if it is free in the expression and not bound. A `let`
is recursive: the names of its pattern are bound in both of its parts.

## Main definitions

* `Expr.freeNames e`: the names that are free in the expression `e`

## Main results

* `mem_names_of_infer`: the free names of an expression with a type are bound
* `Call.Makes.outOfScope`: a free name that is not bound is so in all expressions around
* `infer_scope`: free names, bound names and errors about unbound names
-/

namespace PolyLet

variable {x : String}

/-! ## Free names -/

namespace Expr

mutual

/-- The names that are free in an expression. -/
def freeNames : Expr → NameSet
  | int _ _ | bool _ _ => ∅
  | var _ x => .ofList [x]
  | app _ f a => f.freeNames ∪ a.freeNames
  | lam _ p b => b.freeNames.filter (· ∉ p.names)
  | letIn _ p e b => (e.freeNames ∪ b.freeNames).filter (· ∉ p.names)
  | ite _ c t e => c.freeNames ∪ (t.freeNames ∪ e.freeNames)
  | tuple _ es => freeNamesAll es

/-- The names that are free in one of the expressions of a list. -/
def freeNamesAll : List Expr → NameSet
  | [] => ∅
  | e :: es => e.freeNames ∪ freeNamesAll es

end

variable {span : Span} {p : Pattern} {e b : Expr}

theorem mem_freeNamesAll {es : List Expr} : x ∈ freeNamesAll es ↔ ∃ e ∈ es, x ∈ e.freeNames := by
  induction es with
  | nil => simp [freeNamesAll]
  | cons e es ih => simp [freeNamesAll, ih]

theorem mem_freeNames_lam : x ∈ (lam span p b).freeNames ↔ x ∈ b.freeNames ∧ x ∉ p.names := by
  rw [freeNames, NameSet.mem_filter, decide_eq_true_iff]

theorem mem_freeNames_letIn :
    x ∈ (letIn span p e b).freeNames ↔
      (x ∈ e.freeNames ∨ x ∈ b.freeNames) ∧ x ∉ p.names := by
  rw [freeNames, NameSet.mem_filter, NameSet.mem_union, decide_eq_true_iff]

end Expr

/-! ## Names of environments -/

theorem Subst.mem_names_applyEnv {s : Subst} {env : Env} :
    x ∈ (s.applyEnv env).names ↔ x ∈ env.names := by
  simp only [NameMap.mem_names, get?_applyEnv_eq_some_iff]
  constructor
  · rintro ⟨_, σ, hσ, -⟩
    exact ⟨σ, hσ⟩
  · rintro ⟨σ, hσ⟩
    exact ⟨_, σ, hσ, rfl⟩

/-! ## Runs that succeed -/

section Success

variable {env : Env} {n n' : Supply} {s : Subst}

theorem mem_names_of_inferAll {es : List Expr} {s' : Subst} {ts : List Ty}
    (ih : ∀ e ∈ es, ∀ {env : Env} {n n' : Supply} {s : Subst} {t : Ty},
      (infer env e).run n = .ok (s, t) n' → x ∈ e.freeNames → x ∈ env.names)
    (h : (inferAll env s es).run n = .ok (s', ts) n') (hx : x ∈ Expr.freeNamesAll es) :
    x ∈ env.names := by
  induction es generalizing s n ts with
  | nil => exact absurd hx (NameSet.not_mem_empty x)
  | cons e es ihs =>
    obtain ⟨s₁, t, n₁, he, s₂, us, n₂, hes, rfl, -, rfl⟩ := inferAll_cons_eq_ok_iff.mp h
    rw [Expr.freeNamesAll, NameSet.mem_union] at hx
    rcases hx with hx | hx
    · exact Subst.mem_names_applyEnv.mp (ih e List.mem_cons_self he hx)
    · exact ihs (fun e he => ih e (List.mem_cons_of_mem _ he)) hes hx

/-- **The free names of an expression with a type are bound.** -/
theorem mem_names_of_infer {e : Expr} {t : Ty} (h : (infer env e).run n = .ok (s, t) n')
    (hx : x ∈ e.freeNames) : x ∈ env.names := by
  induction e using Expr.ind generalizing env n s t n' with
  | int | bool => exact absurd hx (NameSet.not_mem_empty x)
  | var span y =>
    obtain rfl : x = y := List.mem_singleton.mp (NameSet.mem_ofList.mp hx)
    obtain ⟨σ, hσ, -⟩ := infer_var_eq_ok_iff.mp h
    exact NameMap.mem_names.mpr ⟨σ, hσ⟩
  | app span func arg ihf iha =>
    obtain ⟨s₁, _, _, hf, s₂, _, _, ha, -⟩ := infer_app_eq_ok_iff.mp h
    rcases NameSet.mem_union.mp hx with hx | hx
    · exact ihf hf hx
    · exact Subst.mem_names_applyEnv.mp (iha ha hx)
  | lam span param body ihb =>
    obtain ⟨env', hp, _, _, _, hb, -⟩ := infer_lam_eq_ok_iff.mp h
    obtain ⟨hx, hparam⟩ := Expr.mem_freeNames_lam.mp hx
    exact ((Env.mem_names_bind hp).mp (ihb hb hx)).resolve_left hparam
  | letIn span pattern bound body ihe ihb =>
    obtain ⟨recEnv, hp, s₁, _, _, he, -, s₂, -, bodyEnv, hg, _, _, _, hb, -⟩ :=
      infer_letIn_eq_ok_iff.mp h
    obtain ⟨hx | hx, hpattern⟩ := Expr.mem_freeNames_letIn.mp hx
    -- in both parts the names of the pattern are bound besides those from around
    · exact ((Env.mem_names_bind hp).mp (ihe he hx)).resolve_left hpattern
    · have hbody := ((Env.mem_names_bind hg).mp (ihb hb hx)).resolve_left hpattern
      exact Subst.mem_names_applyEnv.mp hbody
  | ite span cond thenBranch elseBranch ihc iht ihe =>
    obtain ⟨_, _, _, hc, _, -, _, _, _, ht, _, _, _, he, -⟩ := infer_ite_eq_ok_iff.mp h
    rw [Expr.freeNames, NameSet.mem_union, NameSet.mem_union] at hx
    rcases hx with hx | hx | hx
    · exact ihc hc hx
    · exact Subst.mem_names_applyEnv.mp (iht ht hx)
    · exact Subst.mem_names_applyEnv.mp (ihe he hx)
  | tuple span elems ih =>
    obtain ⟨_, _, _, hall, -⟩ := infer_tuple_eq_ok_iff.mp h
    exact mem_names_of_inferAll (fun e he => ih e he) hall hx

end Success

/-! ## Runs that fail -/

namespace Call

variable {c c' : Call} {n' : Supply}

/-- The name is free in the expression of the call, but not bound in its environment. -/
def OutOfScope (x : String) (c : Call) : Prop :=
  x ∈ c.expr.freeNames ∧ x ∉ c.env.names

/-- **A name that is out of scope in a part is out of scope in the whole.** What the rules bind on
the way to a part is not free around it. -/
theorem Makes.outOfScope (h : c.Makes c') (hx : c'.OutOfScope x) : c.OutOfScope x := by
  obtain ⟨hfree, hbound⟩ := hx
  -- a call either keeps the names of the environment or adds those of a pattern
  cases h with
  | func => exact ⟨NameSet.mem_union.mpr (.inl hfree), hbound⟩
  | arg hf =>
    rw [Subst.mem_names_applyEnv] at hbound
    exact ⟨NameSet.mem_union.mpr (.inr hfree), hbound⟩
  | lamBody hp =>
    rw [Env.mem_names_bind hp, not_or] at hbound
    exact ⟨Expr.mem_freeNames_lam.mpr ⟨hfree, hbound.1⟩, hbound.2⟩
  | bound hp =>
    rw [Env.mem_names_bind hp, not_or] at hbound
    exact ⟨Expr.mem_freeNames_letIn.mpr ⟨.inl hfree, hbound.1⟩, hbound.2⟩
  | letBody hp hb hc hu hg =>
    rw [Env.mem_names_bind hg, Subst.mem_names_applyEnv, not_or] at hbound
    exact ⟨Expr.mem_freeNames_letIn.mpr ⟨.inr hfree, hbound.1⟩, hbound.2⟩
  | cond => exact ⟨NameSet.mem_union.mpr (.inl hfree), hbound⟩
  | thenBranch hc hu =>
    rw [Subst.mem_names_applyEnv] at hbound
    exact ⟨NameSet.mem_union.mpr (.inr (NameSet.mem_union.mpr (.inl hfree))), hbound⟩
  | elseBranch hc hu ht =>
    rw [Subst.mem_names_applyEnv] at hbound
    exact ⟨NameSet.mem_union.mpr (.inr (NameSet.mem_union.mpr (.inr hfree))), hbound⟩
  | elem hb =>
    rw [Subst.mem_names_applyEnv] at hbound
    exact ⟨Expr.mem_freeNamesAll.mpr ⟨_, by simp, hfree⟩, hbound⟩

theorem outOfScope_of_reaches (h : Relation.ReflTransGen Makes c c') (hx : c'.OutOfScope x) :
    c.OutOfScope x := by
  induction h using Relation.ReflTransGen.head_induction_on with
  | refl => exact hx
  | head hmakes _ ih => exact hmakes.outOfScope ih

/-- The rule that reports a name as unbound is that of the name, which is out of scope there. -/
theorem Raises.outOfScope (h : c.Raises (.unboundVariable x) n') : c.OutOfScope x := by
  obtain ⟨env, expr, n⟩ := c
  have hfits := h.fitsNode
  cases expr with
  | var span y =>
    cases h with
    | unbound hx => exact ⟨NameSet.mem_ofList.mpr List.mem_cons_self, NameMap.get?_eq_none_iff.mp hx⟩
  -- no other node raises this error
  | _ => cases hfits

end Call

/-- **Scopes of names.** If inference succeeds, then every name that is free in the expression is
bound in the environment. If it reports a name as unbound, then this name is free in the expression
and not bound in the environment. -/
theorem infer_scope (env : Env) (n : Supply) (e : Expr) :
    (∀ s t n', (infer env e).run n = .ok (s, t) n' → ∀ x ∈ e.freeNames, x ∈ env.names) ∧
    ∀ x span n', (infer env e).run n = .error ⟨.unboundVariable x, span⟩ n' →
      x ∈ e.freeNames ∧ x ∉ env.names := by
  refine ⟨fun s t n' h x hx => mem_names_of_infer h hx, fun x span n' h => ?_⟩
  have hrun : Call.run ⟨env, e, n⟩ = .error ⟨.unboundVariable x, span⟩ n' := h
  obtain ⟨c, hreach, hraise, -⟩ := Call.run_eq_error_iff.mp hrun
  exact Call.outOfScope_of_reaches hreach hraise.outOfScope

/-- With `z` bound, `let f = fn x -> z in f` has a type, and `z` is its only free name. In
`let f = fn x -> (f, g) in f` the name `f` is bound by the `let` itself, and `g` is reported. -/
theorem infer_scope_letIn :
    (infer (.ofList [("z", .mono .int)]) (.letIn ⟨0, 22⟩ (.var "f")
      (.lam ⟨8, 17⟩ (.var "x") (.var ⟨16, 17⟩ "z")) (.var ⟨21, 22⟩ "f"))).run {} =
      .ok (.singleton "t0" (.fn (.var "t1") .int), .fn (.var "t2") .int) ⟨3⟩ ∧
    "z" ∈ (Expr.letIn ⟨0, 22⟩ (.var "f")
      (.lam ⟨8, 17⟩ (.var "x") (.var ⟨16, 17⟩ "z")) (.var ⟨21, 22⟩ "f")).freeNames ∧
    "z" ∈ NameMap.names (.ofList [("z", Scheme.mono .int)]) ∧
    (infer (.ofList [("z", .mono .int)]) (.letIn ⟨0, 27⟩ (.var "f")
      (.lam ⟨8, 22⟩ (.var "x") (.tuple ⟨16, 22⟩ [.var ⟨17, 18⟩ "f", .var ⟨20, 21⟩ "g"]))
      (.var ⟨26, 27⟩ "f"))).run {} = .error ⟨.unboundVariable "g", ⟨20, 21⟩⟩ ⟨2⟩ ∧
    "g" ∈ (Expr.letIn ⟨0, 27⟩ (.var "f")
      (.lam ⟨8, 22⟩ (.var "x") (.tuple ⟨16, 22⟩ [.var ⟨17, 18⟩ "f", .var ⟨20, 21⟩ "g"]))
      (.var ⟨26, 27⟩ "f")).freeNames ∧
    "g" ∉ NameMap.names (.ofList [("z", Scheme.mono .int)]) := by
  have hu : unify (.var "t0") (.fn (.var "t1") .int) =
    .ok (.singleton "t0" (.fn (.var "t1") .int)) := unify_var_left nofun
  have hok : (infer (.ofList [("z", .mono .int)]) (.letIn ⟨0, 22⟩ (.var "f")
      (.lam ⟨8, 17⟩ (.var "x") (.var ⟨16, 17⟩ "z")) (.var ⟨21, 22⟩ "f"))).run {} =
      .ok (.singleton "t0" (.fn (.var "t1") .int), .fn (.var "t2") .int) ⟨3⟩ :=
    infer_letIn_eq_ok_iff.mpr ⟨_, rfl, _, _, _, rfl, ⟨_, rfl⟩, _, hu, _, rfl, _, _, _, rfl, rfl,
      rfl, rfl⟩
  have hz : "z" ∈ (Expr.letIn ⟨0, 22⟩ (.var "f")
      (.lam ⟨8, 17⟩ (.var "x") (.var ⟨16, 17⟩ "z")) (.var ⟨21, 22⟩ "f")).freeNames := by
    decide
  have herr : (infer (.ofList [("z", .mono .int)]) (.letIn ⟨0, 27⟩ (.var "f")
      (.lam ⟨8, 22⟩ (.var "x") (.tuple ⟨16, 22⟩ [.var ⟨17, 18⟩ "f", .var ⟨20, 21⟩ "g"]))
      (.var ⟨26, 27⟩ "f"))).run {} = .error ⟨.unboundVariable "g", ⟨20, 21⟩⟩ ⟨2⟩ := rfl
  exact ⟨hok, hz, (infer_scope _ _ _).1 _ _ _ hok "z" hz, herr, (infer_scope _ _ _).2 _ _ _ herr⟩

end PolyLet
