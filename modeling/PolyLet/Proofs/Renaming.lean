import PolyLet.Proofs.Binding
import PolyLet.Proofs.Unification

/-!
# Renaming type variables

The names of type variables do not matter to types, substitutions, environments, patterns and
unification: if all variables are renamed, and different ones stay different, then every operation
gives its old result with the variables renamed, errors included.

## Main definitions

* `Renames`: values on which renamings of type variables act, with `act`
* `NameSet.rename`, `Scheme.rename`, `Subst.rename`, `Env.rename`, `TypeError.rename`,
  `InferError.rename`: renaming in all of them; program names, patterns and places stay

## Main results

* `Subst.apply_rename`, `Subst.compose_rename`, `Subst.applyEnv_rename`: renaming and substitution
* `generalize_rename`, `Env.bind_rename`, `checkShape_rename`: renaming and environments
* `unify_rename`: renaming and unification
-/

namespace PolyLet

/-- Values on which renamings of type variables act. -/
class Renames (α : Type) where
  /-- The value with every type variable `v` renamed to `ρ v`. -/
  act (ρ : String → String) : α → α

open Renames (act)

variable {ρ ρ' : String → String} {α β : Type}

instance [Renames α] [Renames β] : Renames (α × β) where
  act ρ p := (act ρ p.1, act ρ p.2)

instance [Renames α] : Renames (List α) where
  act ρ as := as.map (act ρ)

/-- There is nothing to be renamed. -/
instance : Renames Unit where
  act _ u := u

/-! ## Types -/

instance : Renames Ty where
  act := Ty.rename

namespace Ty

@[simp] theorem rename_fn (ρ : String → String) (p r : Ty) :
    (fn p r).rename ρ = fn (p.rename ρ) (r.rename ρ) :=
  rfl

@[simp] theorem rename_tuple (ρ : String → String) (ts : List Ty) :
    (tuple ts).rename ρ = tuple (ts.map (Ty.rename ρ)) :=
  replace_tuple _ ts

theorem rename_congr {t : Ty} (h : ∀ v ∈ t.vars, ρ v = ρ' v) : t.rename ρ = t.rename ρ' :=
  replace_congr fun v hv => congrArg var (h v hv)

theorem rename_rename (ρ ρ' : String → String) (t : Ty) :
    (t.rename ρ).rename ρ' = t.rename (ρ' ∘ ρ) :=
  replace_replace _ _ t

theorem mem_vars_rename {t : Ty} {w : String} : w ∈ (t.rename ρ).vars ↔ ∃ v ∈ t.vars, ρ v = w := by
  rw [rename, mem_vars_replace]
  simp [vars, eq_comm]

theorem rename_injective (hρ : Function.Injective ρ) : Function.Injective (Ty.rename ρ) := by
  -- what undoes the renaming of variables undoes it in types, too
  obtain ⟨ρ', h⟩ := hρ.hasLeftInverse
  refine Function.LeftInverse.injective (g := Ty.rename ρ') fun t => ?_
  rw [rename_rename, h.comp_eq_id]
  exact replace_var t

theorem mentions_rename (hρ : Function.Injective ρ) (t : Ty) (v : String) :
    (t.rename ρ).mentions (ρ v) = t.mentions v := by
  rw [Bool.eq_iff_iff, mentions_iff, mentions_iff, mem_vars_rename]
  constructor
  · rintro ⟨w, hw, h⟩
    exact hρ h ▸ hw
  · intro hv
    exact ⟨v, hv, rfl⟩

theorem mayBeFn_rename (ρ : String → String) (t : Ty) : (t.rename ρ).mayBeFn = t.mayBeFn := by
  cases t <;> rfl

theorem Clash.rename {t u : Ty} (h : t.Clash u) (ρ : String → String) :
    (t.rename ρ).Clash (u.rename ρ) := by
  cases t <;> cases u <;> simp only [Clash] at h
  case tuple.tuple ts us => simpa [Clash] using h
  all_goals trivial

end Ty

/-! ## Sets of variables -/

/-- The set with every variable renamed. -/
def NameSet.rename (ρ : String → String) (vs : NameSet) : NameSet :=
  .ofList (vs.toList.map ρ)

namespace NameSet

theorem mem_rename {vs : NameSet} {w : String} : w ∈ vs.rename ρ ↔ ∃ v ∈ vs, ρ v = w := by
  rw [rename, mem_ofList, List.mem_map]
  rfl

theorem mem_rename_iff (hρ : Function.Injective ρ) {vs : NameSet} {v : String} :
    ρ v ∈ vs.rename ρ ↔ v ∈ vs := by
  rw [mem_rename]
  constructor
  · rintro ⟨w, hw, h⟩
    exact hρ h ▸ hw
  · intro hv
    exact ⟨v, hv, rfl⟩

theorem rename_congr {vs : NameSet} (h : ∀ v ∈ vs, ρ v = ρ' v) : vs.rename ρ = vs.rename ρ' := by
  rw [rename, rename, List.map_congr_left h]

theorem size_rename (hρ : Function.Injective ρ) (vs : NameSet) : (vs.rename ρ).size = vs.size := by
  -- the members are the renamed ones in another order
  have hnd : (vs.toList.map ρ).Nodup := List.pairwise_map.mpr (vs.nodup.imp hρ.ne)
  have hperm : (vs.rename ρ).toList.Perm (vs.toList.map ρ) :=
    (List.perm_ext_iff_of_nodup (vs.rename ρ).nodup hnd).mpr fun w => by
      rw [← mem_def, mem_rename, List.mem_map]
      rfl
  rw [size, size, hperm.length_eq, List.length_map]

theorem filter_rename {p q : String → Bool} (vs : NameSet)
    (h : ∀ v, q (ρ v) = p v) : (vs.rename ρ).filter q = (vs.filter p).rename ρ := by
  ext w
  rw [mem_filter, mem_rename, mem_rename]
  constructor
  · rintro ⟨⟨v, hv, rfl⟩, hq⟩
    exact ⟨v, mem_filter.mpr ⟨hv, (h v).symm.trans hq⟩, rfl⟩
  · rintro ⟨v, hv, rfl⟩
    obtain ⟨hv, hp⟩ := mem_filter.mp hv
    exact ⟨⟨v, hv, rfl⟩, (h v).trans hp⟩

end NameSet

theorem Ty.freeVars_rename (ρ : String → String) (t : Ty) :
    (t.rename ρ).freeVars = t.freeVars.rename ρ := by
  ext w
  rw [mem_freeVars, mem_vars_rename, NameSet.mem_rename]
  simp only [mem_freeVars]

/-! ## Substitutions -/

/-- The substitution with every variable renamed, in the keys and in the targets. -/
def Subst.rename (ρ : String → String) (s : Subst) : Subst :=
  .ofList (s.entries.map fun e => (ρ e.1, e.2.rename ρ))

instance : Renames Subst where
  act := Subst.rename

namespace Subst

theorem get?_rename_eq_some_iff (hρ : Function.Injective ρ) {s : Subst} {w : String} {u : Ty} :
    (s.rename ρ).get? w = some u ↔ ∃ v t, s.get? v = some t ∧ ρ v = w ∧ t.rename ρ = u := by
  have hnd : ((s.entries.map fun e => (ρ e.1, e.2.rename ρ)).map Prod.fst).Nodup := by
    have h : (s.names.toList.map ρ).Nodup := List.pairwise_map.mpr (s.names.nodup.imp hρ.ne)
    rw [NameMap.names, List.map_map] at h
    rwa [List.map_map]
  rw [rename, NameMap.get?_ofList hnd, NameMap.lookup_eq_some_iff hnd, List.mem_map]
  constructor
  · rintro ⟨⟨v, t⟩, hm, heq⟩
    obtain ⟨hw, hu⟩ := Prod.mk.inj heq
    exact ⟨v, t, NameMap.mem_entries.mp hm, hw, hu⟩
  · rintro ⟨v, t, hv, rfl, rfl⟩
    exact ⟨(v, t), NameMap.mem_entries.mpr hv, rfl⟩

theorem get?_rename (hρ : Function.Injective ρ) (s : Subst) (v : String) :
    (s.rename ρ).get? (ρ v) = (s.get? v).map (Ty.rename ρ) := by
  refine Option.ext fun u => ?_
  rw [get?_rename_eq_some_iff hρ, Option.map_eq_some_iff]
  constructor
  · rintro ⟨w, t, hw, h, hu⟩
    exact ⟨t, hρ h ▸ hw, hu⟩
  · rintro ⟨t, ht, hu⟩
    exact ⟨v, t, ht, rfl, hu⟩

theorem image_rename (hρ : Function.Injective ρ) (s : Subst) (v : String) :
    (s.rename ρ).image (ρ v) = (s.image v).rename ρ := by
  rw [image, image, get?_rename hρ]
  cases s.get? v <;> rfl

theorem exists_of_mem_names_rename (hρ : Function.Injective ρ) {s : Subst} {w : String}
    (hw : w ∈ (s.rename ρ).names) : ∃ v, ρ v = w := by
  obtain ⟨u, hu⟩ := NameMap.mem_names.mp hw
  obtain ⟨v, -, -, hv, -⟩ := (get?_rename_eq_some_iff hρ).mp hu
  exact ⟨v, hv⟩

/-- A renamed substitution is known by its targets for the renamed variables, if it has no
others. -/
theorem eq_rename (hρ : Function.Injective ρ) {s s' : Subst}
    (h : ∀ v, s'.get? (ρ v) = (s.get? v).map (Ty.rename ρ)) (hn : ∀ w ∈ s'.names, ∃ v, ρ v = w) :
    s' = s.rename ρ := by
  refine NameMap.ext fun w => ?_
  by_cases hw : ∃ v, ρ v = w
  · obtain ⟨v, rfl⟩ := hw
    rw [h, get?_rename hρ]
  · -- what is not the new name of any variable has no target on either side
    rw [NameMap.get?_eq_none_iff.mpr fun hm => hw (hn w hm),
      NameMap.get?_eq_none_iff.mpr fun hm => hw (exists_of_mem_names_rename hρ hm)]

theorem rename_congr {s : Subst} (hs : ∀ v t, s.get? v = some t → ρ v = ρ' v)
    (ht : ∀ v t, s.get? v = some t → ∀ w ∈ t.vars, ρ w = ρ' w) : s.rename ρ = s.rename ρ' := by
  rw [rename, rename, List.map_congr_left fun e he => ?_]
  have he := NameMap.mem_entries.mp he
  rw [hs _ _ he, Ty.rename_congr (ht _ _ he)]

theorem rename_singleton (hρ : Function.Injective ρ) (v : String) (t : Ty) :
    NameMap.singleton (ρ v) (t.rename ρ) = Subst.rename ρ (.singleton v t) := by
  refine eq_rename hρ (fun w => ?_) fun w hw => ?_
  · rw [NameMap.get?_singleton, NameMap.get?_singleton]
    by_cases h : v = w
    · rw [if_pos h, if_pos (congrArg ρ h)]
      rfl
    · rw [if_neg h, if_neg (hρ.ne h)]
      rfl
  · obtain ⟨u, hu⟩ := NameMap.mem_names.mp hw
    rw [NameMap.get?_singleton] at hu
    split at hu
    next h => exact ⟨v, h⟩
    next => cases hu

/-- **Renaming and application.** -/
theorem apply_rename (hρ : Function.Injective ρ) (s : Subst) (t : Ty) :
    (s.rename ρ).apply (t.rename ρ) = (s.apply t).rename ρ := by
  rw [apply, Ty.rename, Ty.replace_replace, apply, Ty.rename, Ty.replace_replace]
  exact Ty.replace_congr fun v _ => image_rename hρ s v

theorem map_apply_rename (hρ : Function.Injective ρ) (s : Subst) (ts : List Ty) :
    (ts.map (Ty.rename ρ)).map (s.rename ρ).apply = (ts.map s.apply).map (Ty.rename ρ) := by
  rw [List.map_map, List.map_map]
  exact List.map_congr_left fun t _ => apply_rename hρ s t

/-- **Renaming and composition.** -/
theorem compose_rename (hρ : Function.Injective ρ) (older newer : Subst) :
    (older.rename ρ).compose (newer.rename ρ) = (older.compose newer).rename ρ := by
  refine eq_rename hρ (fun v => ?_) fun w hw => ?_
  · rw [get?_compose, get?_compose, get?_rename hρ, get?_rename hρ]
    cases newer.get? v with
    | some t => rfl
    | none =>
      cases older.get? v with
      | some t => exact congrArg some (apply_rename hρ newer t)
      | none => rfl
  · exact (mem_names_compose.mp hw).elim (exists_of_mem_names_rename hρ)
      (exists_of_mem_names_rename hρ)

theorem without_rename (hρ : Function.Injective ρ) (s : Subst) (vs : NameSet) :
    (s.rename ρ).without (vs.rename ρ) = (s.without vs).rename ρ := by
  refine eq_rename hρ (fun v => ?_) fun w hw => ?_
  · rw [without, without, NameMap.get?_filterNames, NameMap.get?_filterNames, get?_rename hρ]
    simp only [NameSet.mem_rename_iff hρ]
    split <;> rfl
  · obtain ⟨u, hu⟩ := NameMap.mem_names.mp hw
    rw [without, NameMap.get?_filterNames] at hu
    split at hu
    next => exact exists_of_mem_names_rename hρ (NameMap.mem_names.mpr ⟨u, hu⟩)
    next => cases hu

end Subst

/-! ## Schemes and environments -/

/-- The scheme with every variable renamed, free or quantified. -/
def Scheme.rename (ρ : String → String) (σ : Scheme) : Scheme :=
  ⟨σ.vars.rename ρ, σ.body.rename ρ⟩

/-- The environment with every type variable renamed. -/
def Env.rename (ρ : String → String) (env : Env) : Env :=
  env.map (Scheme.rename ρ)

instance : Renames Env where
  act := Env.rename

namespace Scheme

theorem rename_congr {σ : Scheme} (h : ∀ v, v ∈ σ.freeVars ∨ v ∈ σ.vars → ρ v = ρ' v) :
    σ.rename ρ = σ.rename ρ' := by
  have hb : ∀ v ∈ σ.body.vars, ρ v = ρ' v := fun v hv => by
    by_cases hq : v ∈ σ.vars
    · exact h v (.inr hq)
    · exact h v (.inl (mem_freeVars.mpr ⟨hv, hq⟩))
  rw [rename, rename, NameSet.rename_congr fun v hv => h v (.inr hv), Ty.rename_congr hb]

theorem rename_id (σ : Scheme) : σ.rename id = σ := by
  have hvars : σ.vars.rename id = σ.vars := by
    ext v
    simp [NameSet.mem_rename]
  have hbody : σ.body.rename id = σ.body := Ty.replace_var σ.body
  rw [rename, hvars, hbody]

theorem freeVars_rename (hρ : Function.Injective ρ) (σ : Scheme) :
    (σ.rename ρ).freeVars = σ.freeVars.rename ρ := by
  rw [freeVars, freeVars, rename, Ty.freeVars_rename]
  exact NameSet.filter_rename _ fun v => by simp only [NameSet.mem_rename_iff hρ]

theorem component_rename (hρ : Function.Injective ρ) (σ : Scheme) (t : Ty) :
    (σ.rename ρ).component (t.rename ρ) = (σ.component t).rename ρ := by
  rw [component, component, rename, rename, NameSet.filter_rename _ (Ty.mentions_rename hρ t)]

end Scheme

theorem Subst.applyScheme_rename (hρ : Function.Injective ρ) (s : Subst) (σ : Scheme) :
    (s.rename ρ).applyScheme (σ.rename ρ) = (s.applyScheme σ).rename ρ := by
  rw [applyScheme, applyScheme, Scheme.rename, Scheme.rename, without_rename hρ, apply_rename hρ]

namespace Env

@[simp] theorem get?_rename (ρ : String → String) (env : Env) (x : String) :
    (env.rename ρ).get? x = (env.get? x).map (Scheme.rename ρ) :=
  NameMap.get?_map _ env x

theorem rename_congr {env : Env}
    (h : ∀ x σ, env.get? x = some σ → ∀ v, v ∈ σ.freeVars ∨ v ∈ σ.vars → ρ v = ρ' v) :
    env.rename ρ = env.rename ρ' := by
  refine NameMap.ext fun x => ?_
  rw [get?_rename, get?_rename]
  cases hx : env.get? x with
  | none => rfl
  | some σ => exact congrArg some (Scheme.rename_congr (h x σ hx))

/-- An environment whose variables all keep their names stays as it is. -/
theorem rename_of_fixed {env : Env}
    (h : ∀ x σ, env.get? x = some σ → ∀ v, v ∈ σ.freeVars ∨ v ∈ σ.vars → ρ v = v) :
    env.rename ρ = env := by
  have hid : env.rename ρ = env.rename id := rename_congr h
  rw [hid]
  refine NameMap.ext fun x => ?_
  rw [get?_rename]
  cases env.get? x with
  | none => rfl
  | some σ => exact congrArg some (Scheme.rename_id σ)

theorem freeVars_rename (hρ : Function.Injective ρ) (env : Env) :
    (env.rename ρ).freeVars = env.freeVars.rename ρ := by
  ext w
  simp only [mem_freeVars, NameSet.mem_rename, get?_rename, Option.map_eq_some_iff]
  constructor
  · rintro ⟨x, _, ⟨σ, hx, rfl⟩, hw⟩
    rw [Scheme.freeVars_rename hρ, NameSet.mem_rename] at hw
    obtain ⟨v, hv, rfl⟩ := hw
    exact ⟨v, ⟨x, σ, hx, hv⟩, rfl⟩
  · rintro ⟨v, ⟨x, σ, hx, hv⟩, rfl⟩
    refine ⟨x, _, ⟨σ, hx, rfl⟩, ?_⟩
    rw [Scheme.freeVars_rename hρ]
    exact (NameSet.mem_rename_iff hρ).mpr hv

theorem insert_rename (ρ : String → String) (env : Env) (x : String) (σ : Scheme) :
    (env.rename ρ).insert x (σ.rename ρ) = Env.rename ρ (env.insert x σ) := by
  refine NameMap.ext fun y => ?_
  rw [NameMap.get?_insert, get?_rename, get?_rename, NameMap.get?_insert]
  split <;> rfl

end Env

/-- **Renaming and substitution in environments.** -/
theorem Subst.applyEnv_rename (hρ : Function.Injective ρ) (s : Subst) (env : Env) :
    (s.rename ρ).applyEnv (env.rename ρ) = (s.applyEnv env).rename ρ := by
  refine NameMap.ext fun x => ?_
  rw [applyEnv, NameMap.get?_map, Env.get?_rename, Env.get?_rename, applyEnv, NameMap.get?_map]
  cases env.get? x with
  | none => rfl
  | some σ => exact congrArg some (applyScheme_rename hρ s σ)

/-- **Renaming and generalization.** -/
theorem generalize_rename (hρ : Function.Injective ρ) (env : Env) (t : Ty) :
    generalize (env.rename ρ) (t.rename ρ) = (generalize env t).rename ρ := by
  rw [generalize, generalize, Scheme.rename, Ty.freeVars_rename, Env.freeVars_rename hρ]
  rw [NameSet.filter_rename (p := (· ∉ env.freeVars)) _ fun v => by
    simp only [NameSet.mem_rename_iff hρ]]

/-! ## Errors -/

/-- The error with every type variable renamed. -/
def TypeError.rename (ρ : String → String) : TypeError → TypeError
  | unboundVariable x => unboundVariable x
  | mismatch expected found => mismatch (expected.rename ρ) (found.rename ρ)
  | infiniteType v t => infiniteType (ρ v) (t.rename ρ)
  | patternArity p t => patternArity p (t.rename ρ)
  | patternType p t => patternType p (t.rename ρ)

/-- The error with every type variable renamed, at the same place. -/
def InferError.rename (ρ : String → String) (e : InferError) : InferError :=
  ⟨e.cause.rename ρ, e.span⟩

instance [Renames α] : Renames (Except TypeError α) where
  act ρ
    | .ok a => .ok (act ρ a)
    | .error e => .error (e.rename ρ)

/-- One step after another under a renaming. -/
theorem act_bind [Renames α] [Renames β] {x y : Except TypeError α}
    {f g : α → Except TypeError β} (hxy : y = act ρ x)
    (hfg : ∀ a, x = .ok a → g (act ρ a) = act ρ (f a)) :
    y >>= g = act ρ (x >>= f) := by
  subst hxy
  cases x with
  | error e => rfl
  | ok a => exact hfg a rfl

/-! ## Patterns -/

theorem Env.bindAll_rename (hρ : Function.Injective ρ) {ps : List Pattern}
    (ih : ∀ p ∈ ps, ∀ (env : Env) (σ : Scheme),
      (env.rename ρ).bind p (σ.rename ρ) = act ρ (env.bind p σ))
    (env : Env) (σ : Scheme) (ts : List Ty) :
    (env.rename ρ).bindAll (σ.rename ρ) ps (ts.map (Ty.rename ρ)) =
      act ρ (env.bindAll σ ps ts) := by
  induction ps generalizing env ts with
  | nil =>
    rw [bindAll_nil_left, bindAll_nil_left]
    rfl
  | cons p ps ihs =>
    cases ts with
    | nil =>
      rw [List.map_nil, bindAll_nil_right, bindAll_nil_right]
      rfl
    | cons t ts =>
      rw [List.map_cons, Env.bindAll, Env.bindAll, Scheme.component_rename hρ]
      exact act_bind (ih p (by simp) env _) fun env' _ =>
        ihs (fun q hq => ih q (by simp [hq])) env' ts

/-- **Renaming and the binding of patterns.** -/
theorem Env.bind_rename (hρ : Function.Injective ρ) (env : Env) (p : Pattern) (σ : Scheme) :
    (env.rename ρ).bind p (σ.rename ρ) = act ρ (env.bind p σ) := by
  induction p using Pattern.ind generalizing env σ with
  | var x => exact congrArg Except.ok (insert_rename ρ env x σ)
  | tuple ps ih =>
    rw [Env.bind, Env.bind]
    have hbody : (σ.rename ρ).body = σ.body.rename ρ := rfl
    rw [hbody]
    cases σ.body with
    | tuple ts =>
      simp only [Ty.rename_tuple, List.length_map]
      by_cases hl : ts.length = ps.length
      · rw [if_pos hl, if_pos hl]
        exact bindAll_rename hρ ih env σ ts
      · rw [if_neg hl, if_neg hl, ← Ty.rename_tuple]
        rfl
    | _ => rfl

theorem checkShapeAll_rename (ρ : String → String) {ps : List Pattern}
    (ih : ∀ p ∈ ps, ∀ t : Ty, checkShape p (t.rename ρ) = act ρ (checkShape p t)) (ts : List Ty) :
    checkShapeAll ps (ts.map (Ty.rename ρ)) = act ρ (checkShapeAll ps ts) := by
  induction ps generalizing ts with
  | nil => cases ts <;> rfl
  | cons p ps ihs =>
    cases ts with
    | nil => rfl
    | cons t ts =>
      rw [List.map_cons, checkShapeAll, checkShapeAll]
      exact act_bind (ih p (by simp) t) fun _ _ => ihs (fun q hq => ih q (by simp [hq])) ts

theorem checkShape_rename (ρ : String → String) (p : Pattern) (t : Ty) :
    checkShape p (t.rename ρ) = act ρ (checkShape p t) := by
  induction p using Pattern.ind generalizing t with
  | var x =>
    rw [checkShape, checkShape]
    rfl
  | tuple ps ih =>
    cases t with
    | tuple ts =>
      rw [Ty.rename_tuple, checkShape, checkShape, List.length_map]
      by_cases hl : ps.length = ts.length
      · rw [if_pos hl, if_pos hl]
        exact checkShapeAll_rename ρ ih ts
      · rw [if_neg hl, if_neg hl, ← Ty.rename_tuple]
        rfl
    | _ => rfl

/-! ## Unification -/

/-- The case of a variable. -/
theorem rename_settle (hρ : Function.Injective ρ) (v : String) (t : Ty) :
    (if (t.rename ρ).mentions (ρ v) then .error (.infiniteType (ρ v) (t.rename ρ))
      else .ok (.singleton (ρ v) (t.rename ρ)) : Except TypeError Subst) =
    act ρ (if t.mentions v then .error (.infiniteType v t) else .ok (.singleton v t) :
      Except TypeError Subst) := by
  rw [Ty.mentions_rename hρ]
  by_cases h : t.mentions v = true
  · rw [if_pos h, if_pos h]
    rfl
  · rw [if_neg h, if_neg h, Subst.rename_singleton hρ]
    rfl

/-- **Renaming and unification.** -/
theorem unify_rename (hρ : Function.Injective ρ) (t u : Ty) :
    unify (t.rename ρ) (u.rename ρ) = act ρ (unify t u) := by
  have hne : ∀ {t u : Ty}, t ≠ u → t.rename ρ ≠ u.rename ρ := (Ty.rename_injective hρ).ne
  -- the renamed lists are given by equations, since the proof that their lengths agree depends on
  -- them
  refine unify_ind (P := fun t u => unify (t.rename ρ) (u.rename ρ) = act ρ (unify t u))
    (Q := fun ts us => ∀ ts' us' (hl : ts.length = us.length) (hl' : ts'.length = us'.length),
      ts' = ts.map (Ty.rename ρ) → us' = us.map (Ty.rename ρ) →
      unifyAll ts' us' hl' = act ρ (unifyAll ts us hl))
    ?self ?varLeft ?varRight ?fn ?tuple ?clash ?nil ?cons t u
  case self =>
    intro t
    rw [unify_self, unify_self]
    rfl
  case varLeft =>
    intro v t h
    rw [unify_var_left h, ← rename_settle hρ]
    exact unify_var_left (hne h)
  case varRight =>
    intro t v h
    rw [unify_var_right (h v) h, ← rename_settle hρ]
    refine unify_var_right (hne (h v)) fun w => ?_
    cases t with
    | var w' => exact absurd rfl (h w')
    | _ => nofun
  case fn =>
    intro p r p' r' h hp hr
    have h' := hne h
    rw [Ty.rename_fn, Ty.rename_fn] at h' ⊢
    rw [unify_fn h, unify_fn h']
    refine act_bind hp fun s hs => ?_
    have hr := hr s hs
    rw [← Subst.apply_rename hρ, ← Subst.apply_rename hρ] at hr
    exact act_bind hr fun s' _ => congrArg Except.ok (Subst.compose_rename hρ s s')
  case tuple =>
    intro ts us hl h hQ
    have hl' : (ts.map (Ty.rename ρ)).length = (us.map (Ty.rename ρ)).length := by simpa using hl
    have h' := hne h
    rw [Ty.rename_tuple, Ty.rename_tuple] at h' ⊢
    rw [unify_tuple h, unify_tuple h', dif_pos hl, dif_pos hl']
    exact hQ _ _ hl hl' rfl rfl
  case clash =>
    intro t u h
    rw [unify_clash h, unify_clash (h.rename ρ)]
    rfl
  case nil =>
    rintro _ _ hl hl' rfl rfl
    exact unifyAll_nil.trans (congrArg (act ρ) unifyAll_nil).symm
  case cons =>
    rintro t ts u us hP hQ _ _ hl hl' rfl rfl
    rw [unifyAll_cons]
    refine (unifyAll_cons hl').trans (act_bind hP fun s hs => ?_)
    have hts := Subst.map_apply_rename hρ s ts
    have hus := Subst.map_apply_rename hρ s us
    refine act_bind (hQ s hs _ _ _ _ hts hus) fun s' _ => ?_
    exact congrArg Except.ok (Subst.compose_rename hρ s s')

end PolyLet
