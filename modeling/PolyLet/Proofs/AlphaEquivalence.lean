import Mathlib.Tactic.Choose
import PolyLet.Proofs.Composition
import PolyLet.Proofs.Principality
import PolyLet.Proofs.Renaming

/-!
# Schemes up to the names of their quantified variables

Two schemes that differ in the names of their quantified variables only have the same instances. The
converse holds for schemes that quantify nothing in vain: each body is an instance of the other
scheme, so each is the other one with its variables renamed.

## Main definitions

* `Scheme.AlphaEq σ τ`: the schemes differ only in the names of their quantified variables
* `ChecksAlike e e'`: both programs fail the check, or both have one scheme up to these names

## Main results

* `Ty.exists_rename_of_replace`: types that are instances of each other differ by a renaming
* `Scheme.alphaEq_of_isInstance_iff`: schemes with the same instances are equal up to names
* `checksAlike_of_hasType_iff`: programs with the same types are checked alike
-/

namespace PolyLet

variable {σ τ : Scheme} {v : String}

/-- The scheme `τ` is the scheme `σ` with its quantified variables renamed. Free variables keep
their names, and different variables stay different. -/
def Scheme.AlphaEq (σ τ : Scheme) : Prop :=
  ∃ ρ : String → String, (∀ v ∈ σ.freeVars, ρ v = v) ∧
    (∀ v w, v ∈ σ.freeVars ∨ v ∈ σ.vars → w ∈ σ.freeVars ∨ w ∈ σ.vars → ρ v = ρ w → v = w) ∧
    σ.rename ρ = τ

/-- What undoes a replacement undoes it at each variable. -/
theorem Ty.replace_eq_self_iff {t : Ty} {f : String → Ty} :
    t.replace f = t ↔ ∀ v ∈ t.vars, f v = .var v := by
  have h := replace_eq_replace_iff (f := f) (g := var) (t := t)
  rwa [replace_var] at h

/-- If two types are instances of each other, then one is the other with its variables renamed, and
each replacement undoes the other. -/
theorem Ty.exists_rename_of_replace {t u : Ty} {f g : String → Ty} (hf : t.replace f = u)
    (hg : u.replace g = t) :
    ∃ ρ : String → String, t.rename ρ = u ∧ ∀ v ∈ t.vars, f v = .var (ρ v) ∧ g (ρ v) = .var v := by
  have hback : ∀ v ∈ t.vars, (f v).replace g = .var v := by
    rw [← hf, replace_replace] at hg
    exact replace_eq_self_iff.mp hg
  -- only a variable becomes a variable
  have hvar : ∀ v ∈ t.vars, ∃ w, f v = .var w := by
    intro v hv
    have h := hback v hv
    cases hfv : f v with
    | var w => exact ⟨w, rfl⟩
    | _ => rw [hfv] at h; cases h
  choose! ρ hρ using hvar
  refine ⟨ρ, ?_, fun v hv => ⟨hρ v hv, ?_⟩⟩
  · rw [← hf]
    exact replace_congr fun v hv => (hρ v hv).symm
  · have h := hback v hv
    rwa [hρ v hv] at h

namespace Scheme

/-- If every instance of `τ` is one of `σ`, then what is free in `σ` is free in `τ`. -/
theorem mem_freeVars_of_isInstance (h : ∀ t, τ.IsInstance t → σ.IsInstance t)
    (hv : v ∈ σ.freeVars) : v ∈ τ.freeVars := by
  -- some instance of `τ` mentions only what is free in `τ`
  obtain ⟨t, ht, hvars⟩ := τ.exists_instanceUnder Ty.var
  have hinst := isInstance_iff.mp (h t (isInstance_iff.mpr ht))
  obtain ⟨w, hw, hvw⟩ := hvars v (hinst.mem_vars hv (List.mem_singleton_self v))
  obtain rfl : v = w := List.mem_singleton.mp hvw
  exact hw

theorem isInstance_body (σ : Scheme) : σ.IsInstance σ.body :=
  isInstance_iff.mpr ⟨Ty.var, fun _ _ => rfl, Ty.replace_var σ.body⟩

/-- A renaming of the body that keeps the free variables is a renaming of the quantified ones. -/
theorem rename_eq_of_body {ρ : String → String} (hσ : ∀ v ∈ σ.vars, v ∈ σ.body.vars)
    (hτ : ∀ v ∈ τ.vars, v ∈ τ.body.vars) (hfree : ∀ v, v ∈ σ.freeVars ↔ v ∈ τ.freeVars)
    (hfix : ∀ v ∈ σ.freeVars, ρ v = v)
    (hinj : ∀ v w, v ∈ σ.body.vars → w ∈ σ.body.vars → ρ v = ρ w → v = w)
    (hbody : σ.body.rename ρ = τ.body) : σ.rename ρ = τ := by
  have hvars : σ.vars.rename ρ = τ.vars := by
    ext w
    rw [NameSet.mem_rename]
    constructor
    · rintro ⟨v, hv, rfl⟩
      -- if the new name were free, it would be the old one
      by_contra hq
      have hmem : ρ v ∈ τ.body.vars := hbody ▸ Ty.mem_vars_rename.mpr ⟨v, hσ v hv, rfl⟩
      have hw := (hfree (ρ v)).mpr (mem_freeVars.mpr ⟨hmem, hq⟩)
      have heq := hinj (ρ v) v (mem_freeVars.mp hw).1 (hσ v hv) (hfix (ρ v) hw)
      rw [heq] at hw
      exact (mem_freeVars.mp hw).2 hv
    · intro hw
      have hmem := hτ w hw
      rw [← hbody] at hmem
      obtain ⟨v, hv, rfl⟩ := Ty.mem_vars_rename.mp hmem
      refine ⟨v, ?_, rfl⟩
      by_contra hq
      have hv := mem_freeVars.mpr ⟨hv, hq⟩
      rw [hfix v hv] at hw
      exact (mem_freeVars.mp ((hfree v).mp hv)).2 hw
  rw [rename, hvars, hbody]

/-- **Schemes with the same instances are equal up to the names of their quantified variables,** if
they quantify nothing in vain. -/
theorem alphaEq_of_isInstance_iff (hσ : ∀ v ∈ σ.vars, v ∈ σ.body.vars)
    (hτ : ∀ v ∈ τ.vars, v ∈ τ.body.vars) (h : ∀ t, σ.IsInstance t ↔ τ.IsInstance t) :
    σ.AlphaEq τ := by
  -- each body is an instance of the other scheme
  obtain ⟨f, hf, hfbody⟩ := isInstance_iff.mp ((h τ.body).mpr τ.isInstance_body)
  obtain ⟨g, -, hgbody⟩ := isInstance_iff.mp ((h σ.body).mp σ.isInstance_body)
  obtain ⟨ρ, hbody, hρ⟩ := Ty.exists_rename_of_replace hfbody hgbody
  have hfree : ∀ v, v ∈ σ.freeVars ↔ v ∈ τ.freeVars := fun v =>
    ⟨mem_freeVars_of_isInstance fun t => (h t).mpr, mem_freeVars_of_isInstance fun t => (h t).mp⟩
  have hmem : ∀ v, v ∈ σ.freeVars ∨ v ∈ σ.vars → v ∈ σ.body.vars := by
    rintro v (hv | hv)
    · exact (mem_freeVars.mp hv).1
    · exact hσ v hv
  have hfix : ∀ v ∈ σ.freeVars, ρ v = v := by
    intro v hv
    obtain ⟨hb, hq⟩ := mem_freeVars.mp hv
    have hfv := hf v hq
    rw [(hρ v hb).1] at hfv
    exact Ty.var.inj hfv
  have hinj : ∀ v w, v ∈ σ.body.vars → w ∈ σ.body.vars → ρ v = ρ w → v = w := by
    intro v w hv hw heq
    have hgv := (hρ v hv).2
    rw [heq, (hρ w hw).2] at hgv
    exact (Ty.var.inj hgv).symm
  refine ⟨ρ, hfix, fun v w hv hw => hinj v w (hmem v hv) (hmem w hw), ?_⟩
  exact rename_eq_of_body hσ hτ hfree hfix hinj hbody

end Scheme

/-! ## Programs -/

/-- The checks of both programs fail, or both succeed with schemes that are equal up to the names of
their quantified variables. -/
def ChecksAlike (e e' : Expr) : Prop :=
  (∃ err err', check e = .error err ∧ check e' = .error err') ∨
    ∃ σ τ, check e = .ok σ ∧ check e' = .ok τ ∧ σ.AlphaEq τ

/-- **Programs with the same types are checked alike.** -/
theorem checksAlike_of_hasType_iff {e e' : Expr}
    (h : ∀ t, HasType builtinEnv e t ↔ HasType builtinEnv e' t) : ChecksAlike e e' := by
  -- a check that succeeds gives a type, which the other program has as well
  have hok : ∀ {e e' : Expr} {σ : Scheme},
      (∀ t, HasType builtinEnv e t ↔ HasType builtinEnv e' t) → check e = .ok σ →
      ∃ τ, check e' = .ok τ := by
    intro e e' σ h hσ
    exact exists_check_of_hasType ((h σ.body).mp ((hasType_iff_of_check hσ).mpr σ.isInstance_body))
  cases hσ : check e with
  | ok σ =>
    obtain ⟨τ, hτ⟩ := hok h hσ
    refine .inr ⟨σ, τ, hσ, hτ, Scheme.alphaEq_of_isInstance_iff ?_ ?_ fun t => ?_⟩
    · exact fun v => mem_vars_of_check hσ
    · exact fun v => mem_vars_of_check hτ
    · rw [← hasType_iff_of_check hσ, ← hasType_iff_of_check hτ]
      exact h t
  | error err =>
    cases hτ : check e' with
    | ok τ =>
      obtain ⟨σ, hσ'⟩ := hok (fun t => (h t).symm) hτ
      rw [hσ] at hσ'
      cases hσ'
    | error err' => exact .inl ⟨err, err', hσ, hτ⟩

end PolyLet
