import PolyLet.Proofs.Supply
import PolyLet.Proofs.Unification

/-!
# What inference speaks about

From an environment that is clean for the supply, inference speaks only about the free variables of
the environment and the variables it draws. What it settles stays settled: a settled variable is
found neither in the types that are put in the place of others nor in anything that comes later.

## Main definitions

* `Ty.Within t vs`: the type `t` mentions only variables of the list `vs`
* `Env.Clean env n`: no variable of the environment is still to be drawn, and none is both free and
  quantified
* `Env.scope env n n'`: the variables that are free in the environment or drawn on the way
* `Env.unsettled env n n' s`: those of them that `s` does not settle
* `Env.Settles env n s n'`: the substitution `s` speaks about the scope only, and is resolved

## Main results

* `Env.Clean.applyEnv`, `Env.Clean.bind`: environments stay clean
* `Env.Settles.compose`, `Env.Settles.andThen`: one step after another
* `unsettled_unify`: unification as a step
-/

namespace PolyLet

/-- Every variable of the type is one of the list. -/
def Ty.Within (t : Ty) (vs : List String) : Prop :=
  ∀ v ∈ t.vars, v ∈ vs

theorem Ty.Within.fn {p r : Ty} {vs : List String} (hp : p.Within vs) (hr : r.Within vs) :
    (Ty.fn p r).Within vs := by
  intro v hv
  rcases List.mem_append.mp hv with h | h
  · exact hp v h
  · exact hr v h

namespace Env

variable {env env' : Env} {n n' n₁ n₂ : Supply} {s s' : Subst} {v w : String} {t u : Ty}

/-! ## Clean environments -/

/-- No variable of the environment, free or quantified, is still to be drawn, and no quantified
variable is free in the environment. -/
structure Clean (env : Env) (n : Supply) : Prop where
  drawn : ∀ {x σ v}, env.get? x = some σ → v ∈ σ.freeVars ∨ v ∈ σ.vars → ¬n.Undrawn v
  apart : ∀ {x σ v}, env.get? x = some σ → v ∈ σ.vars → v ∉ env.freeVars

/-- The variables that are free in the environment or drawn on the way. -/
def scope (env : Env) (n n' : Supply) : List String :=
  env.freeVars.toList ++ n.drawn n'

/-- The variables of the scope that the substitution does not settle. -/
def unsettled (env : Env) (n n' : Supply) (s : Subst) : List String :=
  (env.scope n n').filter (· ∉ s.names)

theorem mem_scope : v ∈ env.scope n n' ↔ v ∈ env.freeVars ∨ v ∈ n.drawn n' := by
  rw [scope, List.mem_append, NameSet.mem_def]

theorem mem_unsettled : v ∈ env.unsettled n n' s ↔ v ∈ env.scope n n' ∧ v ∉ s.names := by
  simp [unsettled]

theorem apply_eq_of_unsettled (ht : t.Within (env.unsettled n n' s)) : s.apply t = t :=
  Subst.apply_of_not_mem fun v hv => (mem_unsettled.mp (ht v hv)).2

theorem scope_mono (h : v ∈ env.scope n n₁) (hle : n₁.next ≤ n₂.next) : v ∈ env.scope n n₂ := by
  rw [mem_scope] at h ⊢
  exact h.imp_right fun hd => Supply.mem_drawn_trans_left hd hle

namespace Clean

/-- An environment whose variables are never drawn; it is enough to look at its entries. -/
theorem of_entries
    (hd : ∀ e ∈ env.entries, ∀ v ∈ e.2.body.vars ++ e.2.vars.toList, v.toList.head? ≠ some 't')
    (ha : ∀ e ∈ env.entries, ∀ v ∈ e.2.vars.toList, v ∉ env.freeVars) : env.Clean n where
  drawn {x σ v} hx hv := by
    have hm := hv.imp_left fun hf => (Scheme.mem_freeVars.mp hf).1
    exact Supply.not_undrawn_of_head
      (hd (x, σ) (NameMap.mem_entries.mpr hx) v (List.mem_append.mpr hm))
  apart hx hv := ha _ (NameMap.mem_entries.mpr hx) _ hv

theorem of_le (h : env.Clean n) (hle : n.next ≤ n'.next) : env.Clean n' where
  drawn hx hv hu := h.drawn hx hv (hu.of_le hle)
  apart := h.apart

theorem not_undrawn (h : env.Clean n) (hv : v ∈ env.freeVars) : ¬n.Undrawn v := by
  obtain ⟨x, σ, hx, hvσ⟩ := Env.mem_freeVars.mp hv
  exact h.drawn hx (.inl hvσ)

theorem not_undrawn_of_mem_scope (h : env.Clean n) (hle : n.next ≤ n'.next)
    (hv : v ∈ env.scope n n') : ¬n'.Undrawn v := by
  rcases mem_scope.mp hv with hf | hd
  · exact fun hu => h.not_undrawn hf (hu.of_le hle)
  · exact (Supply.mem_drawn_iff.mp hd).2

/-- A quantified variable is not in scope. -/
theorem not_mem_scope (h : env.Clean n) {x : String} {σ : Scheme} (hx : env.get? x = some σ)
    (hv : v ∈ σ.vars) : v ∉ env.scope n n' := by
  intro hs
  rcases mem_scope.mp hs with hf | hd
  · exact h.apart hx hv hf
  · exact h.drawn hx (.inr hv) (Supply.mem_drawn_iff.mp hd).1

end Clean

/-! ## Resolved substitutions of the scope -/

/-- The substitution settles variables of the scope only, in terms of others of them. -/
structure Settles (env : Env) (n : Supply) (s : Subst) (n' : Supply) : Prop where
  le : n.next ≤ n'.next
  resolved : s.Resolved (env.scope n n')

namespace Settles

theorem start (env : Env) (n : Supply) : env.Settles n ∅ n :=
  ⟨Nat.le_refl _, .empty _⟩

theorem of_le (h : env.Settles n s n₁) (hle : n₁.next ≤ n₂.next) : env.Settles n s n₂ :=
  ⟨Nat.le_trans h.le hle, h.resolved.mono fun _ hv => scope_mono hv hle⟩

theorem image_mem (h : env.Settles n s n') (hv : v ∈ env.scope n n') (hw : w ∈ (s.image v).vars) :
    w ∈ env.unsettled n n' s := by
  obtain ⟨hm, hn⟩ := h.resolved.mem_vars_apply (t := .var v) hw
  refine mem_unsettled.mpr ⟨hm.elim id fun hvw => ?_, hn⟩
  obtain rfl : w = v := by simpa [Ty.vars] using hvw
  exact hv

/-- Nothing that the substitution puts into the environment is captured. -/
theorem avoidsEnv (h : env.Settles n s n') (hc : env.Clean n) : s.AvoidsEnv env := by
  intro x σ hx v hv w hw hσ
  have hvs : v ∈ env.scope n n' := mem_scope.mpr (.inl (Env.mem_freeVars.mpr ⟨x, σ, hx, hv⟩))
  exact hc.not_mem_scope hx hσ (mem_unsettled.mp (h.image_mem hvs hw)).1

theorem mem_freeVars_applyEnv (h : env.Settles n s n') (hc : env.Clean n)
    (hv : v ∈ (s.applyEnv env).freeVars) : v ∈ env.unsettled n n' s := by
  obtain ⟨u, hu, hvu⟩ := (Env.mem_freeVars_applyEnv (h.avoidsEnv hc)).mp hv
  exact h.image_mem (mem_scope.mpr (.inl hu)) hvu

/-- What is in scope after a substitution was in scope before it, and is not settled. -/
theorem mem_scope_applyEnv (h : env.Settles n s n₁) (hc : env.Clean n) (hle : n₁.next ≤ n₂.next)
    (hv : v ∈ (s.applyEnv env).scope n₁ n₂) : v ∈ env.unsettled n n₂ s := by
  rcases mem_scope.mp hv with hf | hd
  · obtain ⟨hs, hn⟩ := mem_unsettled.mp (h.mem_freeVars_applyEnv hc hf)
    exact mem_unsettled.mpr ⟨scope_mono hs hle, hn⟩
  · refine mem_unsettled.mpr
      ⟨mem_scope.mpr (.inr (Supply.mem_drawn_trans_right hd h.le)), fun hm => ?_⟩
    -- what is settled already was drawn before
    exact hc.not_undrawn_of_mem_scope h.le (h.resolved.name_mem hm) (Supply.mem_drawn_iff.mp hd).1

end Settles

/-- The environment stays clean under a substitution of its scope. -/
theorem Clean.applyEnv (hc : env.Clean n) (h : env.Settles n s n') :
    (s.applyEnv env).Clean n' where
  drawn {x τ v} hx hv := by
    obtain ⟨σ, hσ, rfl⟩ := Subst.get?_applyEnv_eq_some_iff.mp hx
    rcases hv with hv | hv
    · have hf : v ∈ (s.applyEnv env).freeVars := Env.mem_freeVars.mpr ⟨x, _, hx, hv⟩
      exact hc.not_undrawn_of_mem_scope h.le (mem_unsettled.mp (h.mem_freeVars_applyEnv hc hf)).1
    · exact fun hu => hc.drawn hσ (.inr hv) (hu.of_le h.le)
  apart {x τ v} hx hv hf := by
    obtain ⟨σ, hσ, rfl⟩ := Subst.get?_applyEnv_eq_some_iff.mp hx
    exact hc.not_mem_scope hσ hv (mem_unsettled.mp (h.mem_freeVars_applyEnv hc hf)).1

/-! ## One step after another -/

namespace Settles

/-- What comes next settles none of the variables that are settled already. -/
theorem disjoint (hs' : s'.Resolved (env.unsettled n n₂ s)) : ∀ v ∈ s'.names, v ∉ s.names :=
  fun _ hv => (mem_unsettled.mp (hs'.name_mem hv)).2

theorem compose (h : env.Settles n s n₁) (hle : n₁.next ≤ n₂.next)
    (hs' : s'.Resolved (env.unsettled n n₂ s)) : env.Settles n (s.compose s') n₂ :=
  ⟨Nat.le_trans h.le hle, h.resolved.compose hs' (fun _ hv => scope_mono hv hle) fun _ hw =>
    mem_unsettled.mp hw⟩

/-- A type without settled variables has none after the next step. -/
theorem unsettled_apply (hs' : s'.Resolved (env.unsettled n n₂ s)) (hle : n₁.next ≤ n₂.next)
    (ht : t.Within (env.unsettled n n₁ s)) :
    (s'.apply t).Within (env.unsettled n n₂ (s.compose s')) := by
  intro v hv
  obtain ⟨hm, hn'⟩ := hs'.mem_vars_apply hv
  have hm : v ∈ env.scope n n₂ ∧ v ∉ s.names := by
    rcases hm with hm | hm
    · exact mem_unsettled.mp hm
    · obtain ⟨hs, hn⟩ := mem_unsettled.mp (ht v hm)
      exact ⟨scope_mono hs hle, hn⟩
  exact mem_unsettled.mpr ⟨hm.1, fun h => (Subst.mem_names_compose.mp h).elim hm.2 hn'⟩

/-- The composition is one step after the other on the environment, too. -/
theorem applyEnv_compose (h : env.Settles n s n₁) (hc : env.Clean n)
    (hs' : s'.Resolved (env.unsettled n n₂ s)) :
    (s.compose s').applyEnv env = s'.applyEnv (s.applyEnv env) := by
  refine Subst.applyEnv_compose (fun v a b ha hb => ?_) (h.avoidsEnv hc)
  exact absurd (NameMap.mem_names.mpr ⟨a, ha⟩) (disjoint hs' v (NameMap.mem_names.mpr ⟨b, hb⟩))

/-- A step in the substituted environment is a next step. -/
theorem next (h : env.Settles n s n₁) (hc : env.Clean n)
    (h' : (s.applyEnv env).Settles n₁ s' n₂) : s'.Resolved (env.unsettled n n₂ s) :=
  h'.resolved.mono fun _ hv => h.mem_scope_applyEnv hc h'.le hv

theorem andThen (h : env.Settles n s n₁) (hc : env.Clean n)
    (h' : (s.applyEnv env).Settles n₁ s' n₂)
    (ht : t.Within ((s.applyEnv env).unsettled n₁ n₂ s')) :
    s'.Resolved (env.unsettled n n₂ s) ∧ env.Settles n (s.compose s') n₂ ∧
      t.Within (env.unsettled n n₂ (s.compose s')) := by
  refine ⟨h.next hc h', h.compose h'.le (h.next hc h'), fun v hv => ?_⟩
  obtain ⟨hsc, hn'⟩ := mem_unsettled.mp (ht v hv)
  obtain ⟨hsc, hn⟩ := mem_unsettled.mp (h.mem_scope_applyEnv hc h'.le hsc)
  exact mem_unsettled.mpr ⟨hsc, fun hm => (Subst.mem_names_compose.mp hm).elim hn hn'⟩

end Settles

/-- Unification of two types without settled variables is a next step. -/
theorem unsettled_unify (ht : t.Within (env.unsettled n n' s))
    (hu : u.Within (env.unsettled n n' s)) (h : unify t u = .ok s') :
    s'.Resolved (env.unsettled n n' s) :=
  (unify_resolved h).mono fun v hv => (List.mem_append.mp hv).elim (ht v) (hu v)

/-! ## Environments with new names -/

theorem Clean.bind (hc : env.Clean n) {p : Pattern} {σ : Scheme} (hb : env.bind p σ = .ok env')
    (hσ : ∀ v, v ∈ σ.freeVars ∨ v ∈ σ.vars → ¬n.Undrawn v) (hq : ∀ v ∈ σ.vars, v ∉ env.freeVars)
    (hf : ∀ x τ, env.get? x = some τ → ∀ v ∈ τ.vars, v ∉ σ.freeVars) : env'.Clean n where
  drawn {x τ v} hx hv := by
    rcases get?_bind hb hx with hx | hp
    · exact hc.drawn hx hv
    · exact hσ v (hv.imp hp.mem_freeVars (hp.vars_subset v))
  apart {x τ v} hx hv hm := by
    rcases get?_bind hb hx with hx | hp <;> rcases mem_freeVars_bind hb hm with hm | hm
    · exact hc.apart hx hv hm
    · exact hf x τ hx v hv hm
    · exact hq v (hp.vars_subset v hv) hm
    · exact (Scheme.mem_freeVars.mp hm).2 (hp.vars_subset v hv)

/-- Binding a pattern to a type of drawn variables. -/
theorem Clean.bind_freshFor (hc : env.Clean n) {p : Pattern}
    (hb : env.bind p (.mono (n.freshFor p).1) = .ok env') : env'.Clean (n.freshFor p).2 := by
  obtain ⟨hle, hvars, -⟩ := n.freshFor_spec p
  refine (hc.of_le hle).bind hb (fun v hv => ?_) (fun v hv => absurd hv (NameSet.not_mem_empty v))
    fun x τ hx v hv hm => ?_
  · have hv : v ∈ (n.freshFor p).1.vars := by simpa [Scheme.mono] using hv
    exact (Supply.mem_drawn_iff.mp (hvars v hv)).2
  · have hm : v ∈ (n.freshFor p).1.vars := (Scheme.mem_freeVars.mp hm).1
    exact hc.drawn hx (.inr hv) (Supply.mem_drawn_iff.mp (hvars v hm)).1

theorem mem_scope_bind_freshFor {p : Pattern} (hb : env.bind p (.mono (n.freshFor p).1) = .ok env')
    (hle : (n.freshFor p).2.next ≤ n₂.next) (hv : v ∈ env'.scope (n.freshFor p).2 n₂) :
    v ∈ env.scope n n₂ := by
  obtain ⟨hle', hvars, -⟩ := n.freshFor_spec p
  rcases mem_scope.mp hv with hf | hd
  · rcases mem_freeVars_bind hb hf with hf | hf
    · exact mem_scope.mpr (.inl hf)
    · have hf : v ∈ (n.freshFor p).1.vars := (Scheme.mem_freeVars.mp hf).1
      exact mem_scope.mpr (.inr (Supply.mem_drawn_trans_left (hvars v hf) hle))
  · exact mem_scope.mpr (.inr (Supply.mem_drawn_trans_right hd hle'))

theorem mem_freeVars_generalize (hv : v ∈ (generalize env t).freeVars) : v ∈ env.freeVars := by
  obtain ⟨hb, hq⟩ := Scheme.mem_freeVars.mp hv
  have hb : v ∈ t.vars := hb
  simpa [generalize, hb] using hq

/-- Binding a pattern to a generalized type. -/
theorem Clean.bind_generalize (hc : env.Clean n) {p : Pattern} (ht : ∀ v ∈ t.vars, ¬n.Undrawn v)
    (hb : env.bind p (generalize env t) = .ok env') : env'.Clean n := by
  refine hc.bind hb (fun v hv => ht v ?_) (fun v hv => ?_) fun x τ hx v hv hm => ?_
  · rcases hv with hv | hv
    · exact (Scheme.mem_freeVars.mp hv).1
    · exact Ty.mem_freeVars.mp (NameSet.mem_filter.mp hv).1
  · exact of_decide_eq_true (NameSet.mem_filter.mp hv).2
  · exact hc.apart hx hv (mem_freeVars_generalize hm)

theorem mem_scope_bind_generalize {p : Pattern} (hb : env.bind p (generalize env t) = .ok env')
    (hv : v ∈ env'.scope n n₂) : v ∈ env.scope n n₂ := by
  rcases mem_scope.mp hv with hf | hd
  · exact mem_scope.mpr (.inl ((mem_freeVars_bind hb hf).elim id mem_freeVars_generalize))
  · exact mem_scope.mpr (.inr hd)

/-- A smaller scope. -/
theorem Settles.of_scope (h : env'.Settles n₁ s n') (hle : n.next ≤ n₁.next)
    (hsc : ∀ v ∈ env'.scope n₁ n', v ∈ env.scope n n') : env.Settles n s n' :=
  ⟨Nat.le_trans hle h.le, h.resolved.mono hsc⟩

theorem Settles.of_bind_generalize {p : Pattern} (hb : env.bind p (generalize env t) = .ok env')
    (h : env'.Settles n s n') : env.Settles n s n' :=
  h.of_scope (Nat.le_refl _) fun _ hv => mem_scope_bind_generalize hb hv

theorem unsettled_of_scope (ht : t.Within (env'.unsettled n₁ n' s))
    (hsc : ∀ v ∈ env'.scope n₁ n', v ∈ env.scope n n') : t.Within (env.unsettled n n' s) := by
  intro v hv
  obtain ⟨hs, hn⟩ := mem_unsettled.mp (ht v hv)
  exact mem_unsettled.mpr ⟨hsc v hs, hn⟩

end Env

end PolyLet
