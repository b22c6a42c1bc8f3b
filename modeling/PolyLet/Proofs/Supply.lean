import Mathlib
import PolyLet.Proofs.Binding
import PolyLet.Supply

/-!
# Drawing variables

Different numbers give different variables, so a variable is drawn once. The types that a supply
builds for patterns and schemes hold nothing but variables drawn for them, apart from the free
variables of the scheme, and they can be made equal to any type of the right shape by replacing
these.

## Main definitions

* `Supply.Undrawn n v`: the variable `v` is still to be drawn
* `Supply.Agree n f g`: the replacements `f` and `g` agree on all other variables
* `Supply.drawn n n'`: the variables drawn on the way from the supply `n` to `n'`

## Main results

* `freshName_injective`: the names of variables with different numbers differ
* `Supply.mem_drawn_iff`: a variable is drawn on the way if it is there before and gone afterwards
* `Supply.exists_replace_freshFor`: the type for a pattern covers every type that fits the pattern
* `Supply.exists_replace_instantiate`: the instance of a scheme covers every other instance
-/

namespace PolyLet

theorem freshName_injective {j k : Nat} (h : freshName j = freshName k) : j = k :=
  Nat.repr_inj.mp ((String.append_right_inj _).mp h)

namespace Supply

variable {n n' n₁ : Supply} {v : String}

/-! ## Variables before and after -/

/-- The variable is still to be drawn. -/
def Undrawn (n : Supply) (v : String) : Prop :=
  ∃ k, n.next ≤ k ∧ v = freshName k

/-- The replacements agree on all but the variables that are still to be drawn. -/
def Agree {α : Type} (n : Supply) (f g : String → α) : Prop :=
  ∀ v, ¬n.Undrawn v → g v = f v

/-- The variables drawn on the way from one supply to another. -/
def drawn (n n' : Supply) : List String :=
  (List.range' n.next (n'.next - n.next)).map freshName

theorem mem_drawn : v ∈ n.drawn n' ↔ ∃ k, n.next ≤ k ∧ k < n'.next ∧ v = freshName k := by
  simp only [drawn, List.mem_map, List.mem_range'_1]
  constructor
  · rintro ⟨k, hk, rfl⟩
    exact ⟨k, hk.1, by omega, rfl⟩
  · rintro ⟨k, hle, hlt, rfl⟩
    exact ⟨k, ⟨hle, by omega⟩, rfl⟩

theorem Undrawn.of_le (h : n'.Undrawn v) (hle : n.next ≤ n'.next) : n.Undrawn v := by
  obtain ⟨k, hk, rfl⟩ := h
  exact ⟨k, Nat.le_trans hle hk, rfl⟩

/-- Other names are never drawn. -/
theorem not_undrawn_of_head (h : v.toList.head? ≠ some 't') : ¬n.Undrawn v := by
  rintro ⟨k, -, rfl⟩
  exact h (by simp [freshName])

theorem not_undrawn_freshName {k : Nat} (hk : k < n.next) : ¬n.Undrawn (freshName k) := by
  rintro ⟨j, hj, heq⟩
  have := freshName_injective heq
  omega

/-- A variable is drawn on the way if it is there before and gone afterwards. -/
theorem mem_drawn_iff : v ∈ n.drawn n' ↔ n.Undrawn v ∧ ¬n'.Undrawn v := by
  rw [mem_drawn]
  constructor
  · rintro ⟨k, hle, hlt, rfl⟩
    exact ⟨⟨k, hle, rfl⟩, not_undrawn_freshName hlt⟩
  · rintro ⟨⟨k, hle, rfl⟩, hn⟩
    refine ⟨k, hle, Nat.lt_of_not_le fun hk => hn ⟨k, hk, rfl⟩, rfl⟩

theorem mem_drawn_trans_left (h : v ∈ n.drawn n₁) (hle : n₁.next ≤ n'.next) : v ∈ n.drawn n' := by
  rw [mem_drawn_iff] at h ⊢
  exact ⟨h.1, fun hu => h.2 (hu.of_le hle)⟩

theorem mem_drawn_trans_right (h : v ∈ n₁.drawn n') (hle : n.next ≤ n₁.next) : v ∈ n.drawn n' := by
  rw [mem_drawn_iff] at h ⊢
  exact ⟨h.1.of_le hle, h.2⟩

namespace Agree

variable {f g k : String → Ty}

theorem trans {α : Type} {f g k : String → α} (h : n.Agree f g) (hle : n.next ≤ n₁.next)
    (h' : n₁.Agree g k) : n.Agree f k :=
  fun v hv => (h' v fun hu => hv (hu.of_le hle)).trans (h v hv)

theorem replace_eq (h : n.Agree f g) {t : Ty} (ht : ∀ v ∈ t.vars, ¬n.Undrawn v) :
    t.replace g = t.replace f :=
  Ty.replace_congr fun v hv => h v (ht v hv)

end Agree

/-! ## One variable -/

theorem fresh_le (n : Supply) : n.next ≤ n.fresh.2.next :=
  Nat.le_succ n.next

theorem mem_vars_fresh (h : v ∈ n.fresh.1.vars) : v ∈ n.drawn n.fresh.2 := by
  obtain rfl : v = freshName n.next := by simpa [fresh, Ty.vars] using h
  exact mem_drawn.mpr ⟨n.next, Nat.le_refl _, Nat.lt_succ_self _, rfl⟩

theorem exists_replace_fresh (f : String → Ty) (t : Ty) :
    ∃ g : String → Ty, n.Agree f g ∧ n.fresh.1.replace g = t := by
  refine ⟨fun v => if v = freshName n.next then t else f v, fun v hv => if_neg ?_, if_pos rfl⟩
  rintro rfl
  exact hv ⟨n.next, Nat.le_refl _, rfl⟩

/-! ## Types for patterns -/

theorem freshFor_tuple (n : Supply) (ps : List Pattern) :
    n.freshFor (.tuple ps) = (.tuple (n.freshForAll ps).1, (n.freshForAll ps).2) := by
  rw [freshFor]

theorem freshForAll_cons (n : Supply) (p : Pattern) (ps : List Pattern) :
    n.freshForAll (p :: ps) = ((n.freshFor p).1 :: ((n.freshFor p).2.freshForAll ps).1,
      ((n.freshFor p).2.freshForAll ps).2) := by
  rw [freshForAll]

/-- The type for a pattern holds variables drawn for it, and fits. -/
theorem freshFor_spec (n : Supply) (p : Pattern) :
    n.next ≤ (n.freshFor p).2.next ∧ (∀ v ∈ (n.freshFor p).1.vars, v ∈ n.drawn (n.freshFor p).2) ∧
      p.Fits (n.freshFor p).1 := by
  induction p using Pattern.ind generalizing n with
  | var x => exact ⟨n.fresh_le, fun v hv => mem_vars_fresh hv, .var x _⟩
  | tuple ps ih =>
    have hall : n.next ≤ (n.freshForAll ps).2.next ∧
        (∀ v ∈ Ty.varsAll (n.freshForAll ps).1, v ∈ n.drawn (n.freshForAll ps).2) ∧
        (n.freshForAll ps).1.length = ps.length ∧
        ∀ p t, (p, t) ∈ ps.zip (n.freshForAll ps).1 → p.Fits t := by
      induction ps generalizing n with
      | nil => simp [freshForAll, Ty.varsAll]
      | cons p ps ihs =>
        obtain ⟨hle, hvars, hfit⟩ := ih p (by simp) n
        obtain ⟨hle', hvars', hl, hfit'⟩ :=
          ihs (fun q hq => ih q (by simp [hq])) (n.freshFor p).2
        rw [freshForAll_cons]
        refine ⟨Nat.le_trans hle hle', fun v hv => ?_, by simpa using hl, fun q t hqt => ?_⟩
        · rcases List.mem_append.mp hv with h | h
          · exact mem_drawn_trans_left (hvars v h) hle'
          · exact mem_drawn_trans_right (hvars' v h) hle
        · rcases List.mem_cons.mp hqt with heq | h
          · obtain ⟨rfl, rfl⟩ := Prod.mk.inj heq
            exact hfit
          · exact hfit' q t h
    rw [freshFor_tuple]
    exact ⟨hall.1, hall.2.1, .tuple hall.2.2.1 hall.2.2.2⟩

/-- The type for a pattern covers every type that fits the pattern. -/
theorem exists_replace_freshFor {p : Pattern} {t : Ty} (h : p.Fits t) (n : Supply)
    (f : String → Ty) :
    ∃ g : String → Ty, n.Agree f g ∧ (n.freshFor p).1.replace g = t := by
  induction p using Pattern.ind generalizing n f t with
  | var x => exact exists_replace_fresh f t
  | tuple ps ih =>
    obtain ⟨ts, rfl, hl, hfit⟩ := Pattern.fits_tuple_iff.mp h
    suffices hall : ∃ g : String → Ty, n.Agree f g ∧
        (n.freshForAll ps).1.map (Ty.replace g) = ts by
      obtain ⟨g, hg, hts⟩ := hall
      exact ⟨g, hg, by rw [freshFor_tuple, Ty.replace_tuple, hts]⟩
    clear h
    induction ps generalizing n f ts with
    | nil =>
      obtain rfl : ts = [] := List.length_eq_zero_iff.mp hl
      exact ⟨f, fun _ _ => rfl, by simp [freshForAll]⟩
    | cons p ps ihs =>
      cases ts with
      | nil => simp at hl
      | cons t ts =>
        obtain ⟨g, hg, ht⟩ := ih p (by simp) (hfit p t (by simp)) n f
        obtain ⟨g', hg', hts⟩ := ihs (fun q hq => ih q (by simp [hq])) (n.freshFor p).2 g ts
          (by simpa using hl) fun q u hqu => hfit q u (by simp [hqu])
        obtain ⟨hle, hvars, -⟩ := n.freshFor_spec p
        refine ⟨g', hg.trans hle hg', ?_⟩
        rw [freshForAll_cons, List.map_cons, hts, ← ht]
        -- the variables of the first component are no longer to be drawn
        rw [hg'.replace_eq fun v hv => (mem_drawn_iff.mp (hvars v hv)).2]

/-! ## Instances of schemes -/

/-- What instantiation puts in the place of each variable: the quantified ones get the next
variables in increasing order of their names, the others stay. -/
theorem instantiate_spec (n : Supply) (σ : Scheme) :
    ∃ g : String → Ty, (∀ v, v ∉ σ.vars → g v = .var v) ∧
      (∀ i (hi : i < σ.vars.toList.length), g σ.vars.toList[i] = .var (freshName (n.next + i))) ∧
      (n.instantiate σ).1 = σ.body.replace g := by
  let es := σ.vars.toList.zip (n.freshVars σ.vars.size)
  have hlen : (n.freshVars σ.vars.size).length = σ.vars.toList.length := by
    simp [freshVars, NameSet.size]
  have hfst : es.map Prod.fst = σ.vars.toList := List.map_fst_zip (Nat.le_of_eq hlen.symm)
  have hnodup : (es.map Prod.fst).Nodup := hfst ▸ σ.vars.nodup
  refine ⟨Subst.image (.ofList es), fun v hv => ?_, fun i hi => ?_, rfl⟩
  · refine Subst.image_of_not_mem fun hm => hv ?_
    obtain ⟨t, ht⟩ := NameMap.mem_names.mp hm
    rw [NameMap.get?_ofList hnodup] at ht
    rw [NameSet.mem_def, ← hfst, ← NameMap.lookup_isSome, ht, Option.isSome_some]
  · refine Subst.image_of_get? ?_
    rw [NameMap.get?_ofList hnodup, NameMap.lookup_eq_some_iff hnodup]
    refine List.mem_iff_getElem.mpr ⟨i, by simpa [es, hlen] using hi, ?_⟩
    simp [es, freshVars]

theorem instantiate_le (n : Supply) (σ : Scheme) : n.next ≤ (n.instantiate σ).2.next :=
  Nat.le_add_right _ _

/-- The variables of an instance are free in the scheme or drawn for it. -/
theorem mem_vars_instantiate {σ : Scheme} (h : v ∈ (n.instantiate σ).1.vars) :
    v ∈ σ.freeVars ∨ v ∈ n.drawn (n.instantiate σ).2 := by
  obtain ⟨g, hfree, hbound, heq⟩ := n.instantiate_spec σ
  rw [heq] at h
  obtain ⟨w, hw, hvw⟩ := Ty.mem_vars_replace.mp h
  by_cases hσ : w ∈ σ.vars
  · obtain ⟨i, hi, rfl⟩ := List.mem_iff_getElem.mp (NameSet.mem_def.mp hσ)
    rw [hbound i hi] at hvw
    obtain rfl : v = freshName (n.next + i) := by simpa [Ty.vars] using hvw
    exact .inr (mem_drawn.mpr ⟨_, Nat.le_add_right _ _, Nat.add_lt_add_left hi n.next, rfl⟩)
  · rw [hfree w hσ] at hvw
    obtain rfl : v = w := by simpa [Ty.vars] using hvw
    exact .inl (Scheme.mem_freeVars.mpr ⟨hw, hσ⟩)

theorem isInstance_instantiate (n : Supply) (σ : Scheme) : σ.IsInstance (n.instantiate σ).1 := by
  obtain ⟨g, hfree, -, heq⟩ := n.instantiate_spec σ
  exact Scheme.isInstance_iff.mpr ⟨g, hfree, heq.symm⟩

/-- The instance of a scheme covers every other instance. -/
theorem exists_replace_instantiate {σ : Scheme} {f : String → Ty} {t : Ty}
    (hσ : ∀ v ∈ σ.freeVars, ¬n.Undrawn v) (h : σ.InstanceUnder f t) :
    ∃ g : String → Ty, n.Agree f g ∧ (n.instantiate σ).1.replace g = t := by
  obtain ⟨k, hk, rfl⟩ := h
  obtain ⟨g₀, hfree, hbound, heq⟩ := n.instantiate_spec σ
  -- every quantified variable has a drawn one of its own
  have hdrawn : ∀ w ∈ σ.vars, ∃ i, ∃ hi : i < σ.vars.toList.length,
      w = σ.vars.toList[i] ∧ g₀ w = .var (freshName (n.next + i)) := by
    intro w hw
    obtain ⟨i, hi, rfl⟩ := List.mem_iff_getElem.mp (NameSet.mem_def.mp hw)
    exact ⟨i, hi, rfl, hbound i hi⟩
  have hinj : ∀ w ∈ σ.vars, ∀ w' ∈ σ.vars, g₀ w = g₀ w' → w = w' := by
    intro w hw w' hw' h
    obtain ⟨i, hi, rfl, hwi⟩ := hdrawn w hw
    obtain ⟨j, hj, rfl, hwj⟩ := hdrawn w' hw'
    have hij : n.next + i = n.next + j :=
      freshName_injective (Ty.var.inj (hwi.symm.trans (h.trans hwj)))
    obtain rfl : i = j := by omega
    rfl
  classical
  have hundrawn : ∀ v, ¬n.Undrawn v → ¬∃ w ∈ σ.vars, g₀ w = .var v := by
    rintro v hv ⟨w, hw, hwv⟩
    obtain ⟨i, -, -, hwi⟩ := hdrawn w hw
    exact hv ⟨n.next + i, Nat.le_add_right _ _, Ty.var.inj (hwv.symm.trans hwi)⟩
  refine ⟨fun v => if h : ∃ w ∈ σ.vars, g₀ w = .var v then k h.choose else f v,
    fun v hv => dif_neg (hundrawn v hv), ?_⟩
  rw [heq, Ty.replace_replace]
  refine Ty.replace_congr fun v hv => ?_
  by_cases hq : v ∈ σ.vars
  · obtain ⟨i, -, -, hvi⟩ := hdrawn v hq
    have hex : ∃ w ∈ σ.vars, g₀ w = .var (freshName (n.next + i)) := ⟨v, hq, hvi⟩
    rw [hvi, Ty.replace, dif_pos hex,
      hinj _ hex.choose_spec.1 v hq (hex.choose_spec.2.trans hvi.symm)]
  · rw [hfree v hq, Ty.replace, hk v hq]
    exact dif_neg (hundrawn v (hσ v (Scheme.mem_freeVars.mpr ⟨hv, hq⟩)))

end Supply

end PolyLet
