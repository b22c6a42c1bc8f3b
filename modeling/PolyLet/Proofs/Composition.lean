import PolyLet.Proofs.Instance

/-!
# The algebra of composition

A composition is one substitution after the other, apart from the variables that both of them know.
There the newer target wins, and it need not be what the newer substitution makes of the older
target. So composition is associative only up to such variables, and this module says up to which.

## Main definitions

* `Subst.ConsistentAt older newer v`: if both substitutions know `v`, then the newer target is the
  older one with the newer substitution applied to it

## Main results

* `Subst.image_compose_eq_iff`, `Subst.apply_compose_eq_iff`: a composition is one substitution
  after the other exactly where the two are consistent
* `Subst.compose_assoc`: three substitutions give one map, however they are grouped
* `Subst.compose_assoc_iff`: when exactly the grouping does not matter
* `Subst.compose_not_assoc`: three substitutions for which it does
* `Subst.compose_sequential_iff`: when exactly a composition is one substitution after the other on
  all types, and can be regrouped with every older substitution
-/

namespace PolyLet

/-- Two replacements do the same to a type only if they do the same to each of its variables. -/
theorem Ty.replace_eq_replace_iff {f g : String → Ty} {t : Ty} :
    t.replace f = t.replace g ↔ ∀ v ∈ t.vars, f v = g v := by
  refine ⟨fun h => ?_, replace_congr⟩
  induction t using ind with
  | int => simp [vars]
  | bool => simp [vars]
  | var v => simpa [vars, replace] using h
  | fn p r hp hr =>
    obtain ⟨hpp, hrr⟩ := fn.inj h
    intro v hv
    rcases List.mem_append.mp hv with hv | hv
    · exact hp hpp v hv
    · exact hr hrr v hv
  | tuple ts ih =>
    rw [replace_tuple, replace_tuple, tuple.injEq, List.map_inj_left] at h
    intro v hv
    obtain ⟨t, ht, hvt⟩ := mem_varsAll.mp hv
    exact ih t ht (h t ht) v hvt

namespace Subst

variable {s₁ s₂ s₃ older newer : Subst} {v : String} {t : Ty}

/-! ## Two substitutions -/

/-- If both substitutions have a target for the variable, then the newer one is the older one with
the newer substitution applied to it. -/
def ConsistentAt (older newer : Subst) (v : String) : Prop :=
  ∀ t u, older.get? v = some t → newer.get? v = some u → u = newer.apply t

theorem image_compose_eq_iff :
    (older.compose newer).image v = newer.apply (older.image v) ↔ older.ConsistentAt newer v := by
  rw [image, get?_compose]
  cases ho : older.get? v with
  | none =>
    -- the older substitution leaves the variable to the newer one
    have hv : older.image v = .var v := by simp [image, ho]
    refine iff_of_true ?_ (by simp [ConsistentAt, ho])
    rw [hv, apply_var, Option.map_none, Option.or_none]
    rfl
  | some t =>
    rw [image_of_get? ho]
    cases hn : newer.get? v with
    | none => exact iff_of_true (by simp) (by simp [ConsistentAt, hn])
    | some u => simp [ConsistentAt, ho, hn]

/-- **A composition is one substitution after the other exactly where the two are consistent.** -/
theorem apply_compose_eq_iff :
    (older.compose newer).apply t = newer.apply (older.apply t) ↔
      ∀ v ∈ t.vars, older.ConsistentAt newer v := by
  rw [apply, apply, apply, Ty.replace_replace, Ty.replace_eq_replace_iff]
  constructor
  · exact fun h v hv => image_compose_eq_iff.mp (h v hv)
  · exact fun h v hv => image_compose_eq_iff.mpr (h v hv)

theorem consistentAt_of_disjoint (h : ∀ v ∈ newer.names, v ∉ older.names) (v : String) :
    older.ConsistentAt newer v := by
  intro t u ht hu
  exact absurd (NameMap.mem_names.mpr ⟨t, ht⟩) (h v (NameMap.mem_names.mpr ⟨u, hu⟩))

@[simp] theorem empty_compose (s : Subst) : compose ∅ s = s := by
  refine NameMap.ext fun v => ?_
  rw [get?_compose, NameMap.get?_empty, Option.map_none, Option.or_none]

@[simp] theorem compose_empty (s : Subst) : s.compose ∅ = s := by
  refine NameMap.ext fun v => ?_
  rw [get?_compose, NameMap.get?_empty, Option.none_or, funext apply_empty, Option.map_id']

/-! ## Three substitutions -/

/-- Grouped to the left, an old target meets the two newer substitutions one after the other ... -/
theorem get?_compose_compose_left (s₁ s₂ s₃ : Subst) (v : String) :
    ((s₁.compose s₂).compose s₃).get? v =
      (s₃.get? v).or (((s₂.get? v).map s₃.apply).or
        ((s₁.get? v).map fun t => s₃.apply (s₂.apply t))) := by
  rw [get?_compose, get?_compose, Option.map_or, Option.map_map]
  rfl

/-- ... and grouped to the right it meets their composition. This is all the difference. -/
theorem get?_compose_compose_right (s₁ s₂ s₃ : Subst) (v : String) :
    (s₁.compose (s₂.compose s₃)).get? v =
      (s₃.get? v).or (((s₂.get? v).map s₃.apply).or
        ((s₁.get? v).map (s₂.compose s₃).apply)) := by
  rw [get?_compose, get?_compose, Option.or_assoc]

/-- **Composition is associative as far as the newer two are consistent:** it is enough that they are
so at the variables of the old targets that they do not replace altogether. -/
theorem compose_assoc (h : ∀ v t, s₁.get? v = some t → v ∉ s₂.names → v ∉ s₃.names →
      ∀ w ∈ t.vars, s₂.ConsistentAt s₃ w) :
    (s₁.compose s₂).compose s₃ = s₁.compose (s₂.compose s₃) := by
  refine NameMap.ext fun v => ?_
  rw [get?_compose_compose_left, get?_compose_compose_right]
  cases h₃ : s₃.get? v with
  | some u => rfl
  | none =>
    cases h₂ : s₂.get? v with
    | some u => rfl
    | none =>
      cases h₁ : s₁.get? v with
      | none => rfl
      | some t =>
        have hcons := h v t h₁ (NameMap.get?_eq_none_iff.mp h₂) (NameMap.get?_eq_none_iff.mp h₃)
        simp only [Option.map_some, Option.map_none, Option.none_or, Option.some.injEq]
        exact (apply_compose_eq_iff.mpr hcons).symm

/-- **When the grouping of three substitutions does not matter.** Both groupings do the same to every
type if and only if the newer two are consistent at each variable of a target that only the oldest
one has; and then both groupings are the same map. So the oldest substitution may share any
variables with the others, but a variable that the newer two share can make a difference. -/
theorem compose_assoc_iff (s₁ s₂ s₃ : Subst) :
    ((∀ t : Ty, ((s₁.compose s₂).compose s₃).apply t = (s₁.compose (s₂.compose s₃)).apply t) ↔
      ∀ v t, s₁.get? v = some t → v ∉ s₂.names → v ∉ s₃.names →
        ∀ w ∈ t.vars, ∀ a b, s₂.get? w = some a → s₃.get? w = some b → b = s₃.apply a) ∧
    ((∀ t : Ty, ((s₁.compose s₂).compose s₃).apply t = (s₁.compose (s₂.compose s₃)).apply t) ↔
      (s₁.compose s₂).compose s₃ = s₁.compose (s₂.compose s₃)) := by
  have hcons : (∀ t : Ty, ((s₁.compose s₂).compose s₃).apply t =
        (s₁.compose (s₂.compose s₃)).apply t) →
      ∀ v t, s₁.get? v = some t → v ∉ s₂.names → v ∉ s₃.names →
        ∀ w ∈ t.vars, s₂.ConsistentAt s₃ w := by
    intro h v t h₁ h₂ h₃
    have hv := h (.var v)
    rw [apply_var, apply_var, image, image, get?_compose_compose_left, get?_compose_compose_right,
      NameMap.get?_eq_none_iff.mpr h₂, NameMap.get?_eq_none_iff.mpr h₃, h₁] at hv
    exact apply_compose_eq_iff.mp hv.symm
  refine ⟨⟨hcons, fun h t => ?_⟩, fun h => compose_assoc (hcons h), fun h t => ?_⟩
  · rw [compose_assoc h]
  · rw [h]

/-- With `a := b`, then `b := Int`, then `b := Bool`, the variable `a` stands for `Int` if the first
two are composed first, and for `Bool` if the last two are. -/
theorem compose_not_assoc :
    Subst.apply (Subst.compose (Subst.compose (.singleton "a" (.var "b")) (.singleton "b" .int))
      (.singleton "b" .bool)) (.var "a") ≠
    Subst.apply (Subst.compose (.singleton "a" (.var "b"))
      (Subst.compose (.singleton "b" .int) (.singleton "b" .bool))) (.var "a") := by
  have hleft : Subst.apply (Subst.compose (Subst.compose (.singleton "a" (.var "b"))
      (.singleton "b" .int)) (.singleton "b" .bool)) (.var "a") = .int := rfl
  have hright : Subst.apply (Subst.compose (.singleton "a" (.var "b"))
      (Subst.compose (.singleton "b" .int) (.singleton "b" .bool))) (.var "a") = .bool := rfl
  rw [hleft, hright]
  exact nofun

/-! ## Every type and every older substitution -/

/-- A variable that only the oldest substitution knows shows what the newer two do to its target. -/
theorem consistentAt_of_compose_assoc {x : String} (h₂ : x ∉ s₂.names) (h₃ : x ∉ s₃.names)
    (h : (compose (.singleton x (.var v)) s₂).compose s₃ =
      compose (.singleton x (.var v)) (s₂.compose s₃)) : s₂.ConsistentAt s₃ v := by
  have hx := congrArg (fun s : Subst => s.image x) h
  simp only [image, get?_compose_compose_left, get?_compose_compose_right,
    NameMap.get?_eq_none_iff.mpr h₂, NameMap.get?_eq_none_iff.mpr h₃, NameMap.get?_singleton,
    if_true, Option.map_none, Option.none_or, Option.map_some, Option.getD_some] at hx
  have happly : (s₂.compose s₃).apply (.var v) = s₃.apply (s₂.apply (.var v)) := hx.symm
  exact apply_compose_eq_iff.mp happly v (List.mem_singleton_self v)

/-- **What a composition means.** It is one substitution after the other on every type if and only
if the two are consistent at all variables that they share. It can be regrouped with every older
substitution under the same condition, and the two groupings are then the same map. -/
theorem compose_sequential_iff (s₁ s₂ : Subst) :
    ((∀ t : Ty, (s₁.compose s₂).apply t = s₂.apply (s₁.apply t)) ↔
      ∀ v a b, s₁.get? v = some a → s₂.get? v = some b → b = s₂.apply a) ∧
    ((∀ s : Subst, (s.compose s₁).compose s₂ = s.compose (s₁.compose s₂)) ↔
      ∀ v a b, s₁.get? v = some a → s₂.get? v = some b → b = s₂.apply a) := by
  constructor
  · constructor
    · intro h v
      exact apply_compose_eq_iff.mp (h (.var v)) v (List.mem_singleton_self v)
    · intro h t
      exact apply_compose_eq_iff.mpr fun v _ => h v
  · constructor
    · intro h v
      -- any variable that neither of the two knows can stand for `v`
      obtain ⟨r, -, hr⟩ := exists_renaming (s₁.compose s₂).names.toList
      have hfresh : r v ∉ s₁.names ∧ r v ∉ s₂.names :=
        not_or.mp fun hmem => hr v (mem_names_compose.mpr hmem)
      exact consistentAt_of_compose_assoc hfresh.1 hfresh.2 (h _)
    · intro h s
      exact compose_assoc fun v t _ _ _ w _ => h w

end Subst

end PolyLet
