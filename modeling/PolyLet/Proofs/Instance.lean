import Mathlib.Logic.Function.Basic
import PolyLet.Env

/-!
# Instances of schemes

An instance of a scheme is its body with types in the place of the quantified variables. Instances
under a replacement also have the free variables replaced; this is substitution without capture,
whatever the quantified variables are called. Schemes and environments are compared by their
instances.

## Main definitions

* `Scheme.IsInstance σ t`: the type `t` is an instance of the scheme `σ`
* `Scheme.InstanceUnder σ f t`: `t` is an instance of `σ` with the free variables replaced by `f`
* `Scheme.Specializes σ f τ g`, `Env.Specializes env f env' g`: every instance on the left is one on
  the right
* `Subst.Avoids s σ`: nothing that `s` puts into `σ` is captured there

## Main results

* `Scheme.isInstance_iff`: instances are instances under the replacement that changes nothing
* `Scheme.instanceUnder_applyScheme`: without capture, a substituted scheme has the instances of the
  scheme under the substitution
* `Env.Specializes.mem_vars`: what is free in the more general environment is free in the other
* `Scheme.exists_specializes_generalize`: generalization in another environment, where the variables
  to be quantified have to be renamed
-/

namespace PolyLet

/-! ## Names -/

/-- No name of a list is longer than all of them together. -/
theorem length_le_length_join {vs : List String} {v : String} (hv : v ∈ vs) :
    v.toList.length ≤ (String.join vs).toList.length := by
  have hmem := List.mem_map_of_mem (f := String.toList) hv
  have hle := (List.sublist_flatten_of_mem hmem).length_le
  rwa [← List.flatMap_def, ← String.toList_join] at hle

/-- Every name can be renamed away from the names of a list. -/
theorem exists_renaming (avoid : List String) :
    ∃ r : String → String, Function.Injective r ∧ ∀ v, r v ∉ avoid := by
  -- a longer name than all of them in front of every name
  refine ⟨fun v => String.join avoid ++ "x" ++ v, fun v w h => ?_, fun v hv => ?_⟩
  · exact (String.append_right_inj _).mp h
  · have hle := length_le_length_join hv
    simp only [String.toList_append, List.length_append] at hle
    have hx : "x".toList.length = 1 := rfl
    omega

/-- A renaming is injective if it is so on some names and on all others, and keeps the two apart. -/
theorem injective_of_parts {ρ : String → String} {p : String → Prop}
    (hin : ∀ v w, p v → p w → ρ v = ρ w → v = w) (hout : ∀ v w, ¬p v → ¬p w → ρ v = ρ w → v = w)
    (hapart : ∀ v w, p v → ¬p w → ρ v ≠ ρ w) : Function.Injective ρ := by
  intro v w heq
  by_cases hv : p v <;> by_cases hw : p w
  · exact hin v w hv hw heq
  · exact absurd heq (hapart v w hv hw)
  · exact absurd heq.symm (hapart w v hw hv)
  · exact hout v w hv hw heq

/-- The map that gives the value `f x` to each name `x` of a set. -/
def NameMap.onNames {α : Type} (xs : NameSet) (f : String → α) : NameMap α :=
  ⟨xs.toList.map fun x => (x, f x), List.pairwise_map.mpr xs.sorted⟩

theorem NameMap.get?_onNames {α : Type} (xs : NameSet) (f : String → α) (x : String) :
    (onNames xs f).get? x = if x ∈ xs then some (f x) else none := by
  have h : ∀ l : List String, lookup x (l.map fun x => (x, f x)) =
      if x ∈ l then some (f x) else none := by
    intro l
    induction l with
    | nil => rfl
    | cons y ys ih =>
      by_cases hy : y = x
      · simp [lookup, hy]
      · simp [lookup, hy, Ne.symm hy, ih]
  exact h xs.toList

/-! ## Instances -/

namespace Scheme

/-- The type is an instance of the scheme: the body with its quantified variables replaced by some
types. -/
def IsInstance (σ : Scheme) (t : Ty) : Prop :=
  ∃ r : Subst, (∀ v ∈ r.names, v ∈ σ.vars) ∧ r.apply σ.body = t

/-- The type is an instance of the scheme with the free variables replaced by `f`. -/
def InstanceUnder (σ : Scheme) (f : String → Ty) (t : Ty) : Prop :=
  ∃ g : String → Ty, (∀ v, v ∉ σ.vars → g v = f v) ∧ σ.body.replace g = t

variable {σ τ : Scheme} {f g : String → Ty} {t u : Ty}

theorem isInstance_iff : σ.IsInstance t ↔ σ.InstanceUnder Ty.var t := by
  constructor
  · rintro ⟨r, hr, rfl⟩
    exact ⟨r.image, fun v hv => Subst.image_of_not_mem fun h => hv (hr v h), rfl⟩
  · rintro ⟨g, hg, rfl⟩
    refine ⟨.onNames σ.vars g, fun v hv => ?_, Ty.replace_congr fun v _ => ?_⟩
    · obtain ⟨a, ha⟩ := NameMap.mem_names.mp hv
      rw [NameMap.get?_onNames] at ha
      split at ha
      next h => exact h
      next => simp at ha
    · rw [Subst.image, NameMap.get?_onNames]
      split
      next => rfl
      next h => exact (hg v h).symm

/-- Quantified variables that the body does not mention do not matter. -/
theorem instanceUnder_of_vars (hb : σ.body = τ.body)
    (h : ∀ v ∈ σ.body.vars, v ∈ σ.vars → v ∈ τ.vars) (ht : σ.InstanceUnder f t) :
    τ.InstanceUnder f t := by
  obtain ⟨g, hg, rfl⟩ := ht
  refine ⟨fun v => if v ∈ τ.vars then g v else f v, fun v hv => if_neg hv, ?_⟩
  rw [← hb]
  refine Ty.replace_congr fun v hv => ?_
  by_cases hτ : v ∈ τ.vars
  · exact if_pos hτ
  · rw [if_neg hτ, hg v fun hσ => hτ (h v hv hσ)]

/-- Instances depend only on what happens to the free variables. -/
theorem InstanceUnder.congr (h : ∀ v ∈ σ.freeVars, f v = g v) (ht : σ.InstanceUnder f t) :
    σ.InstanceUnder g t := by
  obtain ⟨k, hk, rfl⟩ := ht
  refine ⟨fun v => if v ∈ σ.vars then k v else g v, fun v hv => if_neg hv, ?_⟩
  refine Ty.replace_congr fun v hv => ?_
  by_cases hσ : v ∈ σ.vars
  · exact if_pos hσ
  · rw [if_neg hσ, hk v hσ, h v (mem_freeVars.mpr ⟨hv, hσ⟩)]

theorem instanceUnder_mono_iff : (mono t).InstanceUnder f u ↔ t.replace f = u := by
  constructor
  · rintro ⟨g, hg, rfl⟩
    exact Ty.replace_congr fun v _ => (hg v (NameSet.not_mem_empty v)).symm
  · exact fun h => ⟨f, fun _ _ => rfl, h⟩

theorem InstanceUnder.replace (ht : σ.InstanceUnder f t) :
    σ.InstanceUnder (fun v => (f v).replace g) (t.replace g) := by
  obtain ⟨k, hk, rfl⟩ := ht
  exact ⟨fun v => (k v).replace g, fun v hv => congrArg (Ty.replace g) (hk v hv),
    (Ty.replace_replace k g σ.body).symm⟩

/-- Every instance mentions what is put in the place of the free variables. -/
theorem InstanceUnder.mem_vars (ht : σ.InstanceUnder f t) {v w : String} (hv : v ∈ σ.freeVars)
    (hw : w ∈ (f v).vars) : w ∈ t.vars := by
  obtain ⟨g, hg, rfl⟩ := ht
  obtain ⟨hb, hq⟩ := mem_freeVars.mp hv
  exact Ty.mem_vars_replace.mpr ⟨v, hb, hg v hq ▸ hw⟩

/-- Some instance mentions nothing else. -/
theorem exists_instanceUnder (σ : Scheme) (f : String → Ty) :
    ∃ t, σ.InstanceUnder f t ∧ ∀ w ∈ t.vars, ∃ v ∈ σ.freeVars, w ∈ (f v).vars := by
  refine ⟨_, ⟨fun v => if v ∈ σ.vars then .int else f v, fun v hv => if_neg hv, rfl⟩, ?_⟩
  intro w hw
  obtain ⟨v, hv, hvw⟩ := Ty.mem_vars_replace.mp hw
  by_cases hσ : v ∈ σ.vars
  · simp [hσ, Ty.vars] at hvw
  · exact ⟨v, mem_freeVars.mpr ⟨hv, hσ⟩, by simpa [hσ] using hvw⟩

end Scheme

/-! ## Substitution without capture -/

/-- What the substitution puts in the place of the free variables is not quantified in the
scheme. -/
def Subst.Avoids (s : Subst) (σ : Scheme) : Prop :=
  ∀ v ∈ σ.freeVars, ∀ w ∈ (s.image v).vars, w ∉ σ.vars

/-- The substitution avoids every scheme of the environment. -/
def Subst.AvoidsEnv (s : Subst) (env : Env) : Prop :=
  ∀ x σ, env.get? x = some σ → s.Avoids σ

theorem Subst.image_without (s : Subst) (vars : NameSet) (v : String) :
    (s.without vars).image v = if v ∈ vars then .var v else s.image v := by
  rw [image, without, NameMap.get?_filterNames]
  by_cases h : v ∈ vars
  · simp [h]
  · simp [h, image]

/-- Without capture, a substituted scheme has the instances of the scheme under the
substitution. -/
theorem Scheme.instanceUnder_applyScheme {s : Subst} {σ : Scheme} {f : String → Ty} {t : Ty}
    (h : s.Avoids σ) :
    (s.applyScheme σ).InstanceUnder f t ↔
      σ.InstanceUnder (fun v => (s.image v).replace f) t := by
  -- both bodies agree as soon as the quantified variables are replaced alike
  have hbody : ∀ g k : String → Ty, (∀ v ∈ σ.vars, g v = k v) → (∀ v, v ∉ σ.vars → g v = f v) →
      (∀ v, v ∉ σ.vars → k v = (s.image v).replace f) →
      (s.applyScheme σ).body.replace g = σ.body.replace k := by
    intro g k hgk hg hk
    rw [Subst.applyScheme, Subst.apply, Ty.replace_replace]
    refine Ty.replace_congr fun v hv => ?_
    rw [Subst.image_without]
    by_cases hσ : v ∈ σ.vars
    · rw [if_pos hσ, ← hgk v hσ]; rfl
    · rw [if_neg hσ, hk v hσ]
      exact Ty.replace_congr fun w hw => hg w (h v (mem_freeVars.mpr ⟨hv, hσ⟩) w hw)
  constructor
  · rintro ⟨g, hg, rfl⟩
    refine ⟨fun v => if v ∈ σ.vars then g v else (s.image v).replace f, fun v hv => if_neg hv, ?_⟩
    exact (hbody g _ (fun v hv => (if_pos hv).symm) hg fun v hv => if_neg hv).symm
  · rintro ⟨k, hk, rfl⟩
    refine ⟨fun v => if v ∈ σ.vars then k v else f v, fun v hv => if_neg hv, ?_⟩
    exact hbody _ k (fun v hv => if_pos hv) (fun v hv => if_neg hv) hk

/-! ## Comparing schemes and environments -/

namespace Scheme

/-- Every instance of `σ` under `f` is an instance of `τ` under `g`. -/
def Specializes (σ : Scheme) (f : String → Ty) (τ : Scheme) (g : String → Ty) : Prop :=
  ∀ t, σ.InstanceUnder f t → τ.InstanceUnder g t

variable {σ τ : Scheme} {f g : String → Ty}

theorem specializes_mono {t u : Ty} (h : t.replace f = u.replace g) :
    (mono t).Specializes f (mono u) g := by
  intro w hw
  rw [instanceUnder_mono_iff] at hw ⊢
  rw [← h, hw]

end Scheme

/-- Both environments have schemes for the same names, and every instance in `env` under `f` is an
instance in `env'` under `g`. -/
structure Env.Specializes (env : Env) (f : String → Ty) (env' : Env) (g : String → Ty) : Prop where
  of_left : ∀ {x σ}, env.get? x = some σ → ∃ τ, env'.get? x = some τ ∧ σ.Specializes f τ g
  of_right : ∀ {x τ}, env'.get? x = some τ → ∃ σ, env.get? x = some σ ∧ σ.Specializes f τ g

namespace Env.Specializes

variable {env env' env'' : Env} {f g k : String → Ty}

theorem refl (env : Env) (f : String → Ty) : env.Specializes f env f where
  of_left {_ σ} hx := ⟨σ, hx, fun _ ht => ht⟩
  of_right {_ σ} hx := ⟨σ, hx, fun _ ht => ht⟩

theorem trans (h : env.Specializes f env' g) (h' : env'.Specializes g env'' k) :
    env.Specializes f env'' k where
  of_left hx := by
    obtain ⟨τ, hτ, h₁⟩ := h.of_left hx
    obtain ⟨ρ, hρ, h₂⟩ := h'.of_left hτ
    exact ⟨ρ, hρ, fun t ht => h₂ t (h₁ t ht)⟩
  of_right hx := by
    obtain ⟨τ, hτ, h₂⟩ := h'.of_right hx
    obtain ⟨σ, hσ, h₁⟩ := h.of_right hτ
    exact ⟨σ, hσ, fun t ht => h₂ t (h₁ t ht)⟩

/-- Replacements that agree on the free variables give the same instances. -/
theorem of_agree (h : ∀ v ∈ env.freeVars, f v = g v) : env.Specializes f env g where
  of_left {x σ} hx :=
    ⟨σ, hx, fun _ ht => ht.congr fun v hv => h v (Env.mem_freeVars.mpr ⟨x, σ, hx, hv⟩)⟩
  of_right {x σ} hx :=
    ⟨σ, hx, fun _ ht => ht.congr fun v hv => h v (Env.mem_freeVars.mpr ⟨x, σ, hx, hv⟩)⟩

theorem insert (h : env.Specializes f env' g) {σ τ : Scheme} (hστ : σ.Specializes f τ g)
    (x : String) : Env.Specializes (env.insert x σ) f (env'.insert x τ) g where
  of_left {y ρ} hy := by
    rw [NameMap.get?_insert] at hy ⊢
    split at hy
    next heq => exact ⟨τ, if_pos heq, Option.some.inj hy ▸ hστ⟩
    next hne => rw [if_neg hne]; exact h.of_left hy
  of_right {y ρ} hy := by
    rw [NameMap.get?_insert] at hy ⊢
    split at hy
    next heq => exact ⟨σ, if_pos heq, Option.some.inj hy ▸ hστ⟩
    next hne => rw [if_neg hne]; exact h.of_right hy

/-- What is free in the more general environment is free in the other. -/
theorem mem_vars (h : env.Specializes f env' g) {v w : String} (hv : v ∈ env'.freeVars)
    (hw : w ∈ (g v).vars) : ∃ u ∈ env.freeVars, w ∈ (f u).vars := by
  obtain ⟨x, τ, hx, hvτ⟩ := Env.mem_freeVars.mp hv
  obtain ⟨σ, hσ, hrel⟩ := h.of_right hx
  -- some instance on the left mentions nothing but what is free there
  obtain ⟨t, ht, hvars⟩ := σ.exists_instanceUnder f
  obtain ⟨u, hu, hwu⟩ := hvars w ((hrel t ht).mem_vars hvτ hw)
  exact ⟨u, Env.mem_freeVars.mpr ⟨x, σ, hσ, hu⟩, hwu⟩

end Env.Specializes

/-! ## Substituted environments -/

section ApplyEnv

variable {s s' : Subst} {env : Env} {f : String → Ty}

theorem Subst.get?_applyEnv (s : Subst) (env : Env) (x : String) :
    (s.applyEnv env).get? x = (env.get? x).map s.applyScheme :=
  NameMap.get?_map s.applyScheme env x

theorem Subst.get?_applyEnv_eq_some_iff {x : String} {τ : Scheme} :
    (s.applyEnv env).get? x = some τ ↔ ∃ σ, env.get? x = some σ ∧ s.applyScheme σ = τ := by
  rw [get?_applyEnv, Option.map_eq_some_iff]

theorem Subst.applyEnv_empty (env : Env) : Subst.applyEnv ∅ env = env := by
  refine NameMap.ext fun x => ?_
  rw [Subst.get?_applyEnv]
  cases env.get? x with
  | none => rfl
  | some σ =>
    have hb : (Subst.without ∅ σ.vars).apply σ.body = σ.body.replace Ty.var :=
      Ty.replace_congr fun v _ => by rw [Subst.image_without]; exact ite_self _
    rw [Option.map_some, Subst.applyScheme, hb, Ty.replace_var]

/-- A substituted environment is at most as general as the environment under the substitution ... -/
theorem Env.specializes_of_applyEnv (h : s.AvoidsEnv env) :
    (s.applyEnv env).Specializes f env fun v => (s.image v).replace f where
  of_left hx := by
    obtain ⟨σ, hσ, rfl⟩ := Subst.get?_applyEnv_eq_some_iff.mp hx
    exact ⟨σ, hσ, fun t ht => (Scheme.instanceUnder_applyScheme (h _ σ hσ)).mp ht⟩
  of_right {x σ} hx :=
    ⟨s.applyScheme σ, Subst.get?_applyEnv_eq_some_iff.mpr ⟨σ, hx, rfl⟩,
      fun t ht => (Scheme.instanceUnder_applyScheme (h _ σ hx)).mp ht⟩

/-- ... and at least as general. -/
theorem Env.specializes_applyEnv (h : s.AvoidsEnv env) :
    env.Specializes (fun v => (s.image v).replace f) (s.applyEnv env) f where
  of_left {x σ} hx :=
    ⟨s.applyScheme σ, Subst.get?_applyEnv_eq_some_iff.mpr ⟨σ, hx, rfl⟩,
      fun t ht => (Scheme.instanceUnder_applyScheme (h _ σ hx)).mpr ht⟩
  of_right hx := by
    obtain ⟨σ, hσ, rfl⟩ := Subst.get?_applyEnv_eq_some_iff.mp hx
    exact ⟨σ, hσ, fun t ht => (Scheme.instanceUnder_applyScheme (h _ σ hσ)).mpr ht⟩

/-- Without capture, the free variables after a substitution are those put in the place of the free
variables before it. -/
theorem Env.mem_freeVars_applyEnv (h : s.AvoidsEnv env) {w : String} :
    w ∈ (s.applyEnv env).freeVars ↔ ∃ v ∈ env.freeVars, w ∈ (s.image v).vars := by
  constructor
  · intro hw
    simpa using (Env.specializes_applyEnv (f := Ty.var) h).mem_vars hw (by simp [Ty.vars])
  · rintro ⟨v, hv, hw⟩
    obtain ⟨u, hu, hwu⟩ :=
      (Env.specializes_of_applyEnv (f := Ty.var) h).mem_vars hv (by simpa using hw)
    obtain rfl : w = u := by simpa [Ty.vars] using hwu
    exact hu

/-- Without a shared variable and without capture, applying a composition is applying one
substitution after the other. -/
theorem Subst.applyEnv_compose
    (hd : ∀ v t u, s.get? v = some t → s'.get? v = some u → u = s'.apply t)
    (h : s.AvoidsEnv env) : (s.compose s').applyEnv env = s'.applyEnv (s.applyEnv env) := by
  refine NameMap.ext fun x => ?_
  simp only [Subst.get?_applyEnv, Option.map_map]
  cases hx : env.get? x with
  | none => rfl
  | some σ =>
    simp only [Option.map_some, Function.comp_apply, Option.some.injEq]
    simp only [Subst.applyScheme, Subst.apply, Ty.replace_replace, Scheme.mk.injEq, true_and]
    refine Ty.replace_congr fun v hv => ?_
    simp only [Subst.image_without]
    by_cases hσ : v ∈ σ.vars
    · simp only [if_pos hσ, Ty.replace, Subst.image_without]
    · rw [if_neg hσ, if_neg hσ, Subst.image_compose hd v, Subst.apply]
      refine Ty.replace_congr fun w hw => ?_
      rw [Subst.image_without, if_neg (h x σ hx v (Scheme.mem_freeVars.mpr ⟨hv, hσ⟩) w hw)]

end ApplyEnv

/-! ## Generalization -/

/-- An instance of a generalized type replaces all its variables but those that are free in the
environment. -/
theorem instanceUnder_generalize_iff {env : Env} {t u : Ty} {f : String → Ty} :
    (generalize env t).InstanceUnder f u ↔
      ∃ g : String → Ty, (∀ v ∈ env.freeVars, g v = f v) ∧ t.replace g = u := by
  constructor
  · rintro ⟨g, hg, rfl⟩
    exact ⟨g, fun v hv => hg v (by simp [generalize, hv]), rfl⟩
  · rintro ⟨g, hg, rfl⟩
    refine ⟨fun v => if v ∈ (generalize env t).vars then g v else f v, fun v hv => if_neg hv,
      Ty.replace_congr fun v hv => ?_⟩
    by_cases hm : v ∈ (generalize env t).vars
    · exact if_pos hm
    · have hvt : v ∈ t.vars := hv
      rw [if_neg hm, hg v (by simpa [generalize, hvt] using hm)]

/-- **Generalization in another environment.** If the variables that are quantified are renamed
first, every instance of a generalized type is one of the type generalized elsewhere. -/
theorem Scheme.exists_specializes_generalize (env env' : Env) (f : String → Ty) (t : Ty) :
    ∃ f₁ : String → Ty, (∀ v ∈ env.freeVars, f₁ v = f v) ∧
      (generalize env t).Specializes f (generalize env' (t.replace f₁)) Ty.var := by
  obtain ⟨r, hr, havoid⟩ := exists_renaming (env'.freeVars.toList ++ (t.replace f).vars)
  refine ⟨fun v => if v ∈ env.freeVars then f v else .var (r v), fun v hv => if_pos hv, ?_⟩
  intro u hu
  obtain ⟨g, hg, rfl⟩ := instanceUnder_generalize_iff.mp hu
  -- what was renamed is replaced by `g`, and nothing else is
  have hfix : ∀ w ∈ env'.freeVars.toList ++ (t.replace f).vars,
      Function.extend r g Ty.var w = .var w := by
    intro w hw
    refine Function.extend_apply' g Ty.var w ?_
    rintro ⟨v, rfl⟩
    exact havoid v hw
  refine instanceUnder_generalize_iff.mpr ⟨Function.extend r g Ty.var, fun v hv => ?_, ?_⟩
  · exact hfix v (List.mem_append.mpr (.inl hv))
  rw [Ty.replace_replace]
  refine Ty.replace_congr fun v hv => ?_
  by_cases hf : v ∈ env.freeVars
  · have hid : (f v).replace (Function.extend r g Ty.var) = (f v).replace Ty.var :=
      Ty.replace_congr fun w hw =>
        hfix w (List.mem_append.mpr (.inr (Ty.mem_vars_replace.mpr ⟨v, hv, hw⟩)))
    rw [if_pos hf, hid, Ty.replace_var, hg v hf]
  · rw [if_neg hf]
    exact hr.extend_apply g Ty.var v

end PolyLet
