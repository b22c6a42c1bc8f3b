import PolyLet.Proofs.Inference.Run
import PolyLet.Proofs.Instance

/-!
# Binding patterns to schemes

Binding a pattern succeeds exactly on the types that have a tuple of the right length wherever the
pattern has one, and then adds parts of the scheme to the environment. It respects the comparison of
environments by their instances.

## Main definitions

* `Pattern.Fits p t`: the type `t` has a tuple wherever the pattern `p` has one
* `Scheme.PartOf τ σ`: the scheme `τ` is `σ` or belongs to a component of `σ`

## Main results

* `Env.exists_bind_iff`: binding succeeds exactly on the types that fit
* `Env.bind_preserves`: what every new part of the scheme preserves, binding preserves
* `Env.get?_bind`: the look-ups after binding
* `Env.Specializes.bind`: binding respects the comparison of environments
* `checkShape_of_fits`: a type passes the check if one of its instances fits
-/

namespace PolyLet

theorem mem_zip_map_right {α β γ : Type} {as : List α} {bs : List β} {f : β → γ} {a : α} {c : γ} :
    (a, c) ∈ as.zip (bs.map f) ↔ ∃ b, (a, b) ∈ as.zip bs ∧ f b = c := by
  simp only [List.zip_map_right, List.mem_map, Prod.exists, Prod.map_apply, id_eq, Prod.mk.injEq]
  constructor
  · rintro ⟨_, b, hb, rfl, rfl⟩
    exact ⟨b, hb, rfl⟩
  · rintro ⟨b, hb, rfl⟩
    exact ⟨a, b, hb, rfl, rfl⟩

/-! ## Types that fit a pattern -/

namespace Pattern

/-- Induction on patterns, where the hypothesis is given for every component of a tuple. -/
@[elab_as_elim] theorem ind {motive : Pattern → Prop} (var : ∀ x, motive (var x))
    (tuple : ∀ ps, (∀ p ∈ ps, motive p) → motive (tuple ps)) (p : Pattern) : motive p :=
  @Pattern.rec motive (fun ps => ∀ p ∈ ps, motive p) var tuple (by simp)
    (fun _ _ hp hps => List.forall_mem_cons.mpr ⟨hp, hps⟩) p

/-- The type has a tuple of the right length wherever the pattern has a tuple. -/
inductive Fits : Pattern → Ty → Prop
  | var (x : String) (t : Ty) : Fits (var x) t
  | tuple {ps : List Pattern} {ts : List Ty} (hl : ts.length = ps.length)
      (h : ∀ p t, (p, t) ∈ ps.zip ts → Fits p t) : Fits (tuple ps) (.tuple ts)

theorem fits_tuple_iff {ps : List Pattern} {t : Ty} :
    (tuple ps).Fits t ↔
      ∃ ts, t = .tuple ts ∧ ts.length = ps.length ∧ ∀ p t, (p, t) ∈ ps.zip ts → p.Fits t := by
  constructor
  · rintro ⟨⟩
    exact ⟨_, rfl, ‹_›, ‹_›⟩
  · rintro ⟨ts, rfl, hl, h⟩
    exact .tuple hl h

/-- Replacing variables keeps the shape that a pattern needs. -/
theorem Fits.replace {p : Pattern} {t : Ty} (h : p.Fits t) (f : String → Ty) :
    p.Fits (t.replace f) := by
  induction h with
  | var x t => exact .var x _
  | @tuple ps ts hl _ ih =>
    rw [Ty.replace_tuple]
    refine .tuple (by simpa using hl) fun p u hpu => ?_
    obtain ⟨t, hpt, rfl⟩ := mem_zip_map_right.mp hpu
    exact ih p t hpt

end Pattern

/-! ## Success -/

namespace Env

variable {env env' : Env} {σ : Scheme}

theorem bind_tuple_eq_ok_iff {ps : List Pattern} :
    env.bind (.tuple ps) σ = .ok env' ↔
      ∃ ts, σ.body = .tuple ts ∧ ts.length = ps.length ∧ env.bindAll σ ps ts = .ok env' := by
  rw [Env.bind]
  cases hb : σ.body with
  | tuple ts =>
    simp only [ite_error_eq_ok_iff, Ty.tuple.injEq]
    constructor
    · rintro ⟨hl, h⟩
      exact ⟨ts, rfl, hl, h⟩
    · rintro ⟨_, rfl, hl, h⟩
      exact ⟨hl, h⟩
  | _ => simp

@[simp] theorem bindAll_nil_left {ts : List Ty} : env.bindAll σ [] ts = .ok env := by
  rw [Env.bindAll]
  simp

@[simp] theorem bindAll_nil_right {ps : List Pattern} : env.bindAll σ ps [] = .ok env := by
  cases ps <;> rw [Env.bindAll] <;> simp

theorem bindAll_cons_eq_ok_iff {p : Pattern} {ps : List Pattern} {t : Ty} {ts : List Ty} :
    env.bindAll σ (p :: ps) (t :: ts) = .ok env' ↔
      ∃ env₁, env.bind p (σ.component t) = .ok env₁ ∧ env₁.bindAll σ ps ts = .ok env' := by
  rw [Env.bindAll, except_bind_eq_ok_iff]

/-- **Binding succeeds exactly on the types that fit.** -/
theorem exists_bind_iff {p : Pattern} : (∃ env', env.bind p σ = .ok env') ↔ p.Fits σ.body := by
  induction p using Pattern.ind generalizing env σ with
  | var x => exact iff_of_true ⟨_, rfl⟩ (.var x _)
  | tuple ps ih =>
    -- the components one after the other, in whatever environment the ones before leave
    have hall : ∀ (ts : List Ty) (env : Env), ts.length = ps.length →
        ((∃ env', env.bindAll σ ps ts = .ok env') ↔ ∀ p t, (p, t) ∈ ps.zip ts → p.Fits t) := by
      induction ps with
      | nil => exact fun _ env _ => iff_of_true ⟨env, bindAll_nil_left⟩ (by simp)
      | cons p ps ihs =>
        rintro (_ | ⟨t, ts⟩) env hl
        · simp at hl
        have hp : ∀ env : Env, (∃ env', env.bind p (σ.component t) = .ok env') ↔ p.Fits t :=
          fun env => ih p (by simp)
        have hps := fun env : Env =>
          ihs (fun q hq => ih q (by simp [hq])) ts env (by simpa using hl)
        simp only [bindAll_cons_eq_ok_iff, List.zip_cons_cons, List.mem_cons, Prod.mk.injEq]
        constructor
        · rintro ⟨env', env₁, h₁, h₂⟩ q u (⟨rfl, rfl⟩ | hqu)
          · exact (hp env).mp ⟨env₁, h₁⟩
          · exact (hps env₁).mp ⟨env', h₂⟩ q u hqu
        · intro h
          obtain ⟨env₁, h₁⟩ := (hp env).mpr (h p t (.inl ⟨rfl, rfl⟩))
          obtain ⟨env', h₂⟩ := (hps env₁).mpr fun q u hqu => h q u (.inr hqu)
          exact ⟨env', env₁, h₁, h₂⟩
    simp only [bind_tuple_eq_ok_iff, Pattern.fits_tuple_iff]
    constructor
    · rintro ⟨env', ts, hb, hl, h⟩
      exact ⟨ts, hb, hl, (hall ts env hl).mp ⟨env', h⟩⟩
    · rintro ⟨ts, hb, hl, h⟩
      obtain ⟨env', h'⟩ := (hall ts env hl).mpr h
      exact ⟨env', ts, hb, hl, h'⟩

/-- A pattern that binds to a type also binds, in any environment, to what the type becomes. -/
theorem exists_bind_of_replace {p : Pattern} {τ : Scheme} {f : String → Ty} {env₁ : Env}
    (hb : env.bind p σ = .ok env') (hτ : τ.body = σ.body.replace f) :
    ∃ env₁', env₁.bind p τ = .ok env₁' := by
  rw [exists_bind_iff, hτ]
  exact (exists_bind_iff.mp ⟨env', hb⟩).replace f

end Env

/-! ## What binding adds -/

/-- The scheme `τ` is a part of `σ`: it mentions nothing else, and of the variables it mentions the
quantified ones are those that `σ` quantifies. -/
structure Scheme.PartOf (τ σ : Scheme) : Prop where
  body_subset : ∀ v ∈ τ.body.vars, v ∈ σ.body.vars
  vars_subset : ∀ v ∈ τ.vars, v ∈ σ.vars
  quantified : ∀ v ∈ τ.body.vars, v ∈ σ.vars → v ∈ τ.vars

namespace Scheme.PartOf

variable {σ τ ρ : Scheme}

theorem refl (σ : Scheme) : σ.PartOf σ :=
  ⟨fun _ h => h, fun _ h => h, fun _ _ h => h⟩

theorem trans (h : ρ.PartOf τ) (h' : τ.PartOf σ) : ρ.PartOf σ where
  body_subset v hv := h'.body_subset v (h.body_subset v hv)
  vars_subset v hv := h'.vars_subset v (h.vars_subset v hv)
  quantified v hv hσ := h.quantified v hv (h'.quantified v (h.body_subset v hv) hσ)

theorem component_of_vars {t : Ty} (ht : ∀ v ∈ t.vars, v ∈ σ.body.vars) :
    (σ.component t).PartOf σ where
  body_subset := ht
  vars_subset _ hv := (NameSet.mem_filter.mp hv).1
  quantified _ hv hσ := NameSet.mem_filter.mpr ⟨hσ, Ty.mentions_iff.mpr hv⟩

theorem component {ts : List Ty} {t : Ty} (hb : σ.body = .tuple ts) (ht : t ∈ ts) :
    (σ.component t).PartOf σ := by
  refine component_of_vars fun v hv => ?_
  rw [hb, Ty.vars]
  exact Ty.mem_varsAll.mpr ⟨t, ht, hv⟩

/-- A free variable of a part is free in the whole. -/
theorem mem_freeVars (h : τ.PartOf σ) {v : String} (hv : v ∈ τ.freeVars) : v ∈ σ.freeVars := by
  obtain ⟨hb, hq⟩ := Scheme.mem_freeVars.mp hv
  exact Scheme.mem_freeVars.mpr ⟨h.body_subset v hb, fun hσ => hq (h.quantified v hb hσ)⟩

end Scheme.PartOf

/-! ## Components of compared schemes -/

namespace Scheme

variable {σ τ : Scheme} {f g : String → Ty}

theorem specializes_tuple_cons {vs ws : NameSet} {t u : Ty} {ts us : List Ty}
    (h : Specializes ⟨vs, .tuple (t :: ts)⟩ f ⟨ws, .tuple (u :: us)⟩ g) :
    Specializes ⟨vs, t⟩ f ⟨ws, u⟩ g ∧
      Specializes ⟨vs, .tuple ts⟩ f ⟨ws, .tuple us⟩ g := by
  -- what replaces the variables of a part replaces those of the whole
  have hpair : ∀ k : String → Ty, (∀ v, v ∉ vs → k v = f v) → ∃ k' : String → Ty,
      (∀ v, v ∉ ws → k' v = g v) ∧ u.replace k' = t.replace k ∧
        us.map (Ty.replace k') = ts.map (Ty.replace k) := by
    intro k hk
    obtain ⟨k', hk', heq⟩ := h _ ⟨k, hk, rfl⟩
    simp only [Ty.replace_tuple, List.map_cons, Ty.tuple.injEq, List.cons.injEq] at heq
    exact ⟨k', hk', heq⟩
  constructor
  · rintro _ ⟨k, hk, rfl⟩
    obtain ⟨k', hk', heq, -⟩ := hpair k hk
    exact ⟨k', hk', heq⟩
  · rintro _ ⟨k, hk, rfl⟩
    obtain ⟨k', hk', -, heq⟩ := hpair k hk
    exact ⟨k', hk', by simp only [Ty.replace_tuple, heq]⟩

/-- The quantifiers that a component drops do not matter. -/
theorem specializes_component {t u : Ty} (h : Specializes ⟨σ.vars, t⟩ f ⟨τ.vars, u⟩ g) :
    (σ.component t).Specializes f (τ.component u) g := by
  intro w hw
  have hw' : Scheme.InstanceUnder ⟨σ.vars, t⟩ f w :=
    instanceUnder_of_vars (σ := σ.component t) rfl (fun v _ hv => (NameSet.mem_filter.mp hv).1) hw
  refine instanceUnder_of_vars (σ := ⟨τ.vars, u⟩) rfl (fun v hv hτ => ?_) (h w hw')
  exact NameSet.mem_filter.mpr ⟨hτ, Ty.mentions_iff.mpr hv⟩

end Scheme

namespace Env

/-- What is preserved by adding any part of the scheme is preserved by binding a pattern to it. -/
theorem bind_preserves {P : Env → Prop} {σ : Scheme} {p : Pattern} {env env' : Env}
    (hP : ∀ env x τ, τ.PartOf σ → P env → P (env.insert x τ)) (h : env.bind p σ = .ok env')
    (henv : P env) : P env' := by
  induction p using Pattern.ind generalizing env env' σ with
  | var x =>
    obtain rfl := Except.ok.inj h
    exact hP env x σ (.refl σ) henv
  | tuple ps ih =>
    rw [bind_tuple_eq_ok_iff] at h
    obtain ⟨ts, hb, -, h⟩ := h
    -- the components that are left are components of the scheme
    have hall : ∀ (us : List Ty) (env : Env), (∀ u ∈ us, u ∈ ts) →
        env.bindAll σ ps us = .ok env' → P env → P env' := by
      clear h henv
      induction ps with
      | nil =>
        intro us env _ h henv
        rw [bindAll_nil_left] at h
        exact Except.ok.inj h ▸ henv
      | cons p ps ihs =>
        rintro (_ | ⟨u, us⟩) env hus h henv
        · rw [bindAll_nil_right] at h
          exact Except.ok.inj h ▸ henv
        · obtain ⟨env₁, h₁, h₂⟩ := bindAll_cons_eq_ok_iff.mp h
          have hpart := Scheme.PartOf.component hb (hus u (by simp))
          refine ihs (fun q hq => ih q (by simp [hq])) us env₁ (fun t ht => hus t (by simp [ht]))
            h₂ ?_
          exact ih p (by simp) (fun env x τ hτ => hP env x τ (hτ.trans hpart)) h₁ henv
    exact hall ts env (fun _ ht => ht) h henv

/-- After binding, a name has its old scheme or a part of the new one. -/
theorem get?_bind {σ τ : Scheme} {p : Pattern} {env env' : Env} {x : String}
    (h : env.bind p σ = .ok env') (hx : env'.get? x = some τ) :
    env.get? x = some τ ∨ τ.PartOf σ := by
  refine bind_preserves
    (P := fun e => ∀ x τ, e.get? x = some τ → env.get? x = some τ ∨ τ.PartOf σ) ?_ h
    (fun _ _ hx => .inl hx) x τ hx
  intro e y ρ hρ he x τ hx
  rw [NameMap.get?_insert] at hx
  split at hx
  next => exact .inr (Option.some.inj hx ▸ hρ)
  next => exact he x τ hx

theorem mem_freeVars_bind {σ : Scheme} {p : Pattern} {env env' : Env} {v : String}
    (h : env.bind p σ = .ok env') (hv : v ∈ env'.freeVars) : v ∈ env.freeVars ∨ v ∈ σ.freeVars := by
  obtain ⟨x, τ, hx, hvτ⟩ := Env.mem_freeVars.mp hv
  rcases get?_bind h hx with hx | hp
  · exact .inl (Env.mem_freeVars.mpr ⟨x, τ, hx, hvτ⟩)
  · exact .inr (hp.mem_freeVars hvτ)

/-- **Binding respects the comparison of environments.** -/
theorem Specializes.bind {p : Pattern} {σ τ : Scheme} {env env₁ env' env₁' : Env}
    {f g : String → Ty} (h : env.Specializes f env' g) (hστ : σ.Specializes f τ g)
    (hb : env.bind p σ = .ok env₁) (hb' : env'.bind p τ = .ok env₁') :
    env₁.Specializes f env₁' g := by
  induction p using Pattern.ind generalizing env env₁ env' env₁' σ τ with
  | var x =>
    obtain rfl := Except.ok.inj hb
    obtain rfl := Except.ok.inj hb'
    exact h.insert hστ x
  | tuple ps ih =>
    rw [bind_tuple_eq_ok_iff] at hb hb'
    obtain ⟨ts, hts, hl, hb⟩ := hb
    obtain ⟨us, hus, hl', hb'⟩ := hb'
    -- the tuples of the components that are left are related like the schemes
    have hall : ∀ (ts us : List Ty) (env env' : Env), ts.length = ps.length →
        us.length = ps.length → env.Specializes f env' g →
        Scheme.Specializes ⟨σ.vars, .tuple ts⟩ f ⟨τ.vars, .tuple us⟩ g →
        env.bindAll σ ps ts = .ok env₁ → env'.bindAll τ ps us = .ok env₁' →
        env₁.Specializes f env₁' g := by
      clear hb hb' hl hl' hts hus
      induction ps with
      | nil =>
        intro ts us env env' _ _ h _ hb hb'
        rw [bindAll_nil_left] at hb hb'
        exact Except.ok.inj hb ▸ Except.ok.inj hb' ▸ h
      | cons p ps ihs =>
        rintro (_ | ⟨t, ts⟩) (_ | ⟨u, us⟩) env env' hl hl' h hrel hb hb'
        · simp at hl
        · simp at hl
        · simp at hl'
        · obtain ⟨env₂, h₁, h₂⟩ := bindAll_cons_eq_ok_iff.mp hb
          obtain ⟨env₂', h₁', h₂'⟩ := bindAll_cons_eq_ok_iff.mp hb'
          obtain ⟨hhead, htail⟩ := Scheme.specializes_tuple_cons hrel
          refine ihs (fun q hq => ih q (by simp [hq])) ts us env₂ env₂' (by simpa using hl)
            (by simpa using hl') ?_ htail h₂ h₂'
          exact ih p (by simp) h (Scheme.specializes_component hhead) h₁ h₁'
    refine hall ts us env env' hl hl' h ?_ hb hb'
    rw [← hts, ← hus]
    exact hστ

end Env

/-! ## The check before unification -/

/-- **A type passes the check if one of its instances fits the pattern.** -/
theorem checkShape_of_fits {p : Pattern} {t : Ty} {f : String → Ty} (h : p.Fits (t.replace f)) :
    ∃ u, checkShape p t = .ok u := by
  induction p using Pattern.ind generalizing t with
  | var x => exact ⟨(), by rw [checkShape]⟩
  | tuple ps ih =>
    obtain ⟨us, hus, hl, hfit⟩ := Pattern.fits_tuple_iff.mp h
    cases t with
    | var v => exact ⟨(), by rw [checkShape]⟩
    | tuple ts =>
      rw [Ty.replace_tuple, Ty.tuple.injEq] at hus
      subst hus
      rw [List.length_map] at hl
      rw [checkShape, if_pos hl.symm]
      clear h
      induction ps generalizing ts with
      | nil => exact ⟨(), by simp [checkShapeAll]⟩
      | cons p ps ihs =>
        cases ts with
        | nil => simp at hl
        | cons t ts =>
          obtain ⟨u, hu⟩ := ih p (by simp) (hfit p (t.replace f) (by simp))
          obtain ⟨u', hu'⟩ := ihs (fun q hq => ih q (by simp [hq])) ts (by simpa using hl)
            fun q t hqt => hfit q t (by simp [hqt])
          exact ⟨u', by rw [checkShapeAll, hu]; exact hu'⟩
    | _ => simp [Ty.replace] at hus

end PolyLet
