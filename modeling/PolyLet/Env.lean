import PolyLet.Scheme

/-!
# Environments

An environment gives type schemes to the names in scope.

## Main definitions

* `Env`: a finite map from names to schemes
* `Env.freeVars`: the free type variables of all schemes
* `Subst.applyEnv`: a substitution of the free variables
* `generalize env t`: the type `t` with all variables quantified that are not free in `env`
-/

namespace PolyLet

/-- A finite map from names to schemes. -/
abbrev Env := NameMap Scheme

namespace Env

/-- The free type variables of all schemes of an environment. -/
def freeVars (env : Env) : NameSet :=
  env.entries.foldr (fun e vs => e.2.freeVars ∪ vs) ∅

theorem mem_freeVars {env : Env} {v : String} :
    v ∈ env.freeVars ↔ ∃ x σ, env.get? x = some σ ∧ v ∈ σ.freeVars := by
  -- The union over any list of entries.
  suffices h : ∀ es : List (String × Scheme),
      v ∈ es.foldr (fun e vs => e.2.freeVars ∪ vs) ∅ ↔ ∃ x σ, (x, σ) ∈ es ∧ v ∈ σ.freeVars by
    simpa only [freeVars, NameMap.mem_entries] using h env.entries
  intro es
  induction es with
  | nil => simp
  | cons e es ih =>
    rw [List.foldr_cons, NameSet.mem_union, ih]
    constructor
    · rintro (h | ⟨x, σ, hm, hv⟩)
      · exact ⟨e.1, e.2, by simp, h⟩
      · exact ⟨x, σ, List.mem_cons_of_mem e hm, hv⟩
    · rintro ⟨x, σ, hm, hv⟩
      rcases List.mem_cons.mp hm with rfl | hm
      · exact .inl hv
      · exact .inr ⟨x, σ, hm, hv⟩

end Env

/-- The environment with the free variables of the substitution replaced in every scheme. -/
def Subst.applyEnv (s : Subst) (env : Env) : Env :=
  env.map s.applyScheme

/-- The scheme of a type in an environment: what is not free in the environment is quantified. -/
def generalize (env : Env) (t : Ty) : Scheme :=
  ⟨t.freeVars.filter (· ∉ env.freeVars), t⟩

end PolyLet
