import PolyLet.Proofs.Inference.Independence
import PolyLet.Proofs.NormalForm

/-!
# Instances of generalized types

A type is generalized in an environment, and the scheme is instantiated right away. The outcome is
the type again with other names: the variables that are free in the environment stay, and each of the
others becomes a variable drawn for it. These may be names that occur in the type already. All are put
in place at once, so none of them is replaced a second time.

## Main results

* `Supply.map_copy`: the quantified variables in increasing order become the next ones to be drawn
* `Supply.injOn_instantiate`: an instance is the body of the scheme up to names
* `instantiate_generalize`: a type that was generalized comes back up to names
-/

namespace PolyLet

namespace Supply

theorem undrawn_copy (n : Supply) (vs : NameSet) (v : String) : n.Undrawn (n.copy vs v) :=
  ⟨_, Nat.le_add_right _ _, rfl⟩

theorem map_copy (n : Supply) (vs : NameSet) :
    vs.toList.map (n.copy vs) = (List.range vs.toList.length).map fun i => freshName (n.next + i) := by
  refine List.ext_getElem (by simp) fun i hi hi' => ?_
  rw [List.getElem_map, List.getElem_map, List.getElem_range, copy,
    List.Nodup.idxOf_getElem vs.nodup]

/-- An instance is the body of the scheme up to names, if no free variable is still to be drawn. -/
theorem injOn_instantiate {n : Supply} {σ : Scheme} (h : ∀ v ∈ σ.freeVars, ¬n.Undrawn v) :
    Set.InjOn (fun v => if v ∈ σ.vars then n.copy σ.vars v else v) {v | v ∈ σ.body.vars} := by
  -- the copy of a quantified variable is not a variable that stays
  have hne : ∀ v w, w ∈ σ.body.vars → w ∉ σ.vars → n.copy σ.vars v ≠ w := by
    rintro v w hw hfree rfl
    exact h _ (Scheme.mem_freeVars.mpr ⟨hw, hfree⟩) (n.undrawn_copy σ.vars v)
  intro v hv w hw heq
  by_cases hvq : v ∈ σ.vars <;> by_cases hwq : w ∈ σ.vars <;>
    simp only [hvq, hwq, ↓reduceIte] at heq
  · exact copy_injOn hvq hwq heq
  · exact absurd heq (hne v w hw hwq)
  · exact absurd heq.symm (hne w v hv hvq)
  · exact heq

end Supply

theorem mem_vars_generalize {env : Env} {t : Ty} {v : String} :
    v ∈ (generalize env t).vars ↔ v ∈ t.vars ∧ v ∉ env.freeVars := by
  simp [generalize]

theorem mem_freeVars_of_generalize {env : Env} {t : Ty} {v : String}
    (hv : v ∈ (generalize env t).freeVars) : v ∈ t.vars ∧ v ∈ env.freeVars := by
  obtain ⟨hv, hq⟩ := Scheme.mem_freeVars.mp hv
  refine ⟨hv, ?_⟩
  by_contra henv
  exact hq (mem_vars_generalize.mpr ⟨hv, henv⟩)

/-- **A type that was generalized comes back up to names.** Let no variable of the type that is free
in the environment be still to be drawn. Then the instance of the generalized type is the type under
a renaming that keeps different names apart: the variables that are free in the environment keep
their names, and the others become the next variables to be drawn, one for each. If no variable of
the type is free in the environment, then the instance has the normal form of the type, whatever the
variables are called and whichever is drawn next. -/
theorem instantiate_generalize (env : Env) (t : Ty) (n : Supply) :
    ((∀ v ∈ t.vars, v ∈ env.freeVars → ¬n.Undrawn v) →
      ∃ ρ : String → String, Function.Injective ρ ∧
        (n.instantiate (generalize env t)).1 = t.rename ρ ∧
        (∀ v ∈ t.vars, v ∈ env.freeVars → ρ v = v) ∧
        ∃ others : List String, others.Nodup ∧
          (∀ v, v ∈ others ↔ v ∈ t.vars ∧ v ∉ env.freeVars) ∧
          others.map ρ = (List.range others.length).map (fun i => freshName (n.next + i)) ∧
          (n.instantiate (generalize env t)).2 = ⟨n.next + others.length⟩) ∧
    ((∀ v ∈ t.vars, v ∉ env.freeVars) →
      (n.instantiate (generalize env t)).1.normalize = t.normalize) := by
  have hinstance := n.instantiate_eq_rename (generalize env t)
  refine ⟨fun h => ?_, fun h => ?_⟩
  · have hinj := Supply.injOn_instantiate (σ := generalize env t) fun v hv =>
      h v (mem_freeVars_of_generalize hv).1 (mem_freeVars_of_generalize hv).2
    obtain ⟨ρ, hρ, hag⟩ := exists_injective_extension hinj
    refine ⟨ρ, hρ, hinstance.trans (Ty.rename_congr fun v hv => (hag v hv).symm), ?_,
      (generalize env t).vars.toList, (generalize env t).vars.nodup,
      fun v => mem_vars_generalize, ?_, rfl⟩
    · intro v hv henv
      rw [hag v hv, if_neg fun hq => (mem_vars_generalize.mp hq).2 henv]
    · have hothers : ∀ v ∈ (generalize env t).vars.toList, ρ v = n.copy (generalize env t).vars v :=
        fun v hv => (hag v (mem_vars_generalize.mp hv).1).trans (if_pos hv)
      rw [List.map_congr_left hothers, n.map_copy]
  · -- no variable stays
    have hinj := Supply.injOn_instantiate (n := n) (σ := generalize env t) fun v hv =>
      absurd (mem_freeVars_of_generalize hv).2 (h v (mem_freeVars_of_generalize hv).1)
    obtain ⟨ρ, hρ, hag⟩ := exists_injective_extension hinj
    rw [hinstance, ← Ty.rename_congr hag]
    exact Ty.normalize_rename hρ t

/-- The variable `t0` stays, `a` becomes `t2`, and the `t2` that was there becomes `t3`. -/
theorem instantiate_generalize_drawn :
    (∀ v ∈ (Ty.fn (.var "t0") (.fn (.var "t2") (.var "a"))).vars,
      v ∈ Env.freeVars (NameMap.insert ∅ "f" (.mono (.var "t0"))) → ¬(⟨2⟩ : Supply).Undrawn v) ∧
    ∃ ρ : String → String, Function.Injective ρ ∧
      (Ty.fn (.var "t0") (.fn (.var "t2") (.var "a"))).rename ρ =
        .fn (.var "t0") (.fn (.var "t3") (.var "t2")) ∧
      ρ "t0" = "t0" := by
  have hold : ∀ v ∈ (Ty.fn (.var "t0") (.fn (.var "t2") (.var "a"))).vars,
      v ∈ Env.freeVars (NameMap.insert ∅ "f" (.mono (.var "t0"))) → ¬(⟨2⟩ : Supply).Undrawn v := by
    intro v _ henv
    obtain rfl : v = "t0" := List.mem_singleton.mp henv
    exact Supply.not_undrawn_freshName (k := 0) Nat.zero_lt_two
  obtain ⟨ρ, hρ, hinstance, hstays, -⟩ := (instantiate_generalize _ _ _).1 hold
  have hvalue : ((⟨2⟩ : Supply).instantiate (generalize (NameMap.insert ∅ "f" (.mono (.var "t0")))
      (.fn (.var "t0") (.fn (.var "t2") (.var "a"))))).1 =
        .fn (.var "t0") (.fn (.var "t3") (.var "t2")) :=
    rfl
  exact ⟨hold, ρ, hρ, hinstance.symm.trans hvalue,
    hstays "t0" List.mem_cons_self (List.mem_singleton_self "t0")⟩

end PolyLet
