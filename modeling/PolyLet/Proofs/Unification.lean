import PolyLet.Proofs.Inference.Run

/-!
# Most general unifiers

Unification decides whether two types can be made equal, and what it returns is a solution on which
every other solution depends. A replacement absorbs a substitution when applying the substitution
first changes nothing; every solution absorbs the result of unification.

## Main definitions

* `Subst.AbsorbedBy s f`: the replacement `f` absorbs the substitution `s`
* `Ty.Clash t u`: the outermost shapes of `t` and `u` differ, and neither is a variable

## Main results

* `unify_ind`: induction along the calls of unification
* `unify_unifies`: the result makes the two types equal
* `unify_of_replace_eq`: if there is a solution, unification succeeds and the solution absorbs the
  result
* `unify_most_general`: unification decides unifiability and computes a most general unifier
* `unify_idempotent`: the result settles variables of the two types for good and introduces none
-/

namespace PolyLet

/-! ## Absorption -/

/-- The replacement `f` absorbs the substitution `s`: it agrees with all that `s` settles. -/
def Subst.AbsorbedBy (s : Subst) (f : String → Ty) : Prop :=
  ∀ v, (s.image v).replace f = f v

namespace Subst.AbsorbedBy

variable {s s' : Subst} {f g : String → Ty}

theorem replace_apply (h : s.AbsorbedBy f) (t : Ty) : (s.apply t).replace f = t.replace f := by
  rw [Subst.apply, Ty.replace_replace]
  exact Ty.replace_congr fun v _ => h v

theorem of_get? (h : ∀ v t, s.get? v = some t → t.replace f = f v) : s.AbsorbedBy f := by
  intro v
  cases hv : s.get? v with
  | none => rw [Subst.image, hv]; rfl
  | some t => rw [Subst.image_of_get? hv]; exact h v t hv

theorem replace_of_get? (h : s.AbsorbedBy f) {v : String} {t : Ty} (hv : s.get? v = some t) :
    t.replace f = f v := by
  rw [← h v, Subst.image_of_get? hv]

theorem empty (f : String → Ty) : Subst.AbsorbedBy ∅ f := fun _ => rfl

theorem singleton {v : String} {t : Ty} (h : t.replace f = f v) :
    Subst.AbsorbedBy (NameMap.singleton v t) f := by
  refine of_get? fun w u hw => ?_
  rw [NameMap.get?_singleton] at hw
  split at hw
  next heq => rw [← heq, ← Option.some.inj hw, h]
  next => simp at hw

theorem compose (hs : s.AbsorbedBy f) (hs' : s'.AbsorbedBy f) : (s.compose s').AbsorbedBy f := by
  refine of_get? fun v t hv => ?_
  rw [Subst.get?_compose, Option.or_eq_some_iff] at hv
  rcases hv with hv | ⟨-, hv⟩
  · exact hs'.replace_of_get? hv
  · obtain ⟨u, hu, rfl⟩ := Option.map_eq_some_iff.mp hv
    rw [hs'.replace_apply, hs.replace_of_get? hu]

/-- What absorbs a composition without shared variables absorbs both substitutions. -/
theorem of_compose (hd : ∀ v ∈ s'.names, v ∉ s.names) (h : (s.compose s').AbsorbedBy f) :
    s.AbsorbedBy f ∧ s'.AbsorbedBy f := by
  have hs' : s'.AbsorbedBy f := by
    refine of_get? fun v t hv => h.replace_of_get? ?_
    rw [Subst.get?_compose, hv, Option.some_or]
  refine ⟨of_get? fun v t hv => ?_, hs'⟩
  have hn : s'.get? v = none :=
    NameMap.get?_eq_none_iff.mpr fun hm => hd v hm (NameMap.mem_names.mpr ⟨t, hv⟩)
  rw [← hs'.replace_apply t]
  refine h.replace_of_get? ?_
  rw [Subst.get?_compose, hn, hv, Option.none_or, Option.map_some]

/-- Absorption depends only on the variables that the substitution knows. -/
theorem congr {vs : List String} (hs : s.Resolved vs) (h : s.AbsorbedBy f)
    (hfg : ∀ v ∈ vs, g v = f v) : s.AbsorbedBy g := by
  refine of_get? fun v t hv => ?_
  rw [hfg v (hs.name_mem (NameMap.mem_names.mpr ⟨t, hv⟩)), ← h.replace_of_get? hv]
  exact Ty.replace_congr fun w hw => hfg w (hs.var_mem hv hw)

end Subst.AbsorbedBy

/-! ## Composition of resolved substitutions -/

namespace Subst

variable {s s' : Subst}

/-- Without a shared variable, a composition is one substitution after the other. -/
theorem apply_compose_of_disjoint (h : ∀ v ∈ s'.names, v ∉ s.names) (t : Ty) :
    (s.compose s').apply t = s'.apply (s.apply t) := by
  refine apply_compose (fun v a b ha hb => ?_) t
  exact absurd (NameMap.mem_names.mpr ⟨a, ha⟩) (h v (NameMap.mem_names.mpr ⟨b, hb⟩))

/-- A type without settled variables stays as it is. -/
theorem apply_of_not_mem {t : Ty} (h : ∀ v ∈ t.vars, v ∉ s.names) : s.apply t = t := by
  rw [apply, Ty.replace_congr fun v hv => image_of_not_mem (h v hv), Ty.replace_var]

theorem map_apply_compose_of_disjoint (h : ∀ v ∈ s'.names, v ∉ s.names) (ts : List Ty) :
    ts.map (s.compose s').apply = (ts.map s.apply).map s'.apply := by
  rw [List.map_map]
  exact List.map_congr_left fun t _ => apply_compose_of_disjoint h t

theorem Resolved.mono {vs ws : List String} (hs : s.Resolved vs) (h : ∀ v ∈ vs, v ∈ ws) :
    s.Resolved ws where
  name_mem hv := h _ (hs.name_mem hv)
  var_mem hv hw := h _ (hs.var_mem hv hw)
  var_not_mem hv hw := hs.var_not_mem hv hw

/-- The next parts do not mention what the parts so far have settled, once that is applied to
them. -/
theorem Resolved.disjoint_next {vs : List String} {t u : Ty} (hs : s.Resolved vs)
    (hs' : s'.Resolved ((s.apply t).vars ++ (s.apply u).vars)) : ∀ v ∈ s'.names, v ∉ s.names := by
  intro v hv
  rcases List.mem_append.mp (hs'.name_mem hv) with h | h
  · exact (hs.mem_vars_apply h).2
  · exact (hs.mem_vars_apply h).2

/-- What the next parts settle, after what the parts so far have settled. -/
theorem Resolved.compose_of_apply {vs : List String} {t u : Ty} (hs : s.Resolved vs)
    (hs' : s'.Resolved ((s.apply t).vars ++ (s.apply u).vars)) (ht : ∀ v ∈ t.vars, v ∈ vs)
    (hu : ∀ v ∈ u.vars, v ∈ vs) : (s.compose s').Resolved vs := by
  refine hs.compose hs' (fun _ hv => hv) fun w hw => ?_
  rcases List.mem_append.mp hw with h | h
  · obtain ⟨hm, hn⟩ := hs.mem_vars_apply h
    exact ⟨hm.elim id (ht w), hn⟩
  · obtain ⟨hm, hn⟩ := hs.mem_vars_apply h
    exact ⟨hm.elim id (hu w), hn⟩

/-- The components that are left mention only variables of the lists, and none that is settled. -/
theorem Resolved.rest_cons {t u : Ty} {ts us : List Ty} (hs : s.Resolved (t.vars ++ u.vars)) :
    ∀ w ∈ Ty.varsAll (ts.map s.apply) ++ Ty.varsAll (us.map s.apply),
      w ∈ Ty.varsAll (t :: ts) ++ Ty.varsAll (u :: us) ∧ w ∉ s.names := by
  intro w hw
  simp only [Ty.varsAll, List.mem_append]
  rcases List.mem_append.mp hw with h | h
  · obtain ⟨hm, hn⟩ := hs.mem_varsAll_map_apply h
    rw [List.mem_append] at hm
    exact ⟨by grind, hn⟩
  · obtain ⟨hm, hn⟩ := hs.mem_varsAll_map_apply h
    rw [List.mem_append] at hm
    exact ⟨by grind, hn⟩

/-- A resolved substitution absorbs itself: a second application changes nothing. -/
theorem Resolved.absorbedBy_image {vs : List String} (hs : s.Resolved vs) :
    s.AbsorbedBy s.image := by
  refine .of_get? fun v t hv => ?_
  rw [image_of_get? hv]
  exact apply_of_not_mem fun w hw => hs.var_not_mem hv hw

end Subst

/-! ## Types that no replacement makes equal -/

namespace Ty

/-- A list of components contains more than each of them. -/
theorem size_lt_sizeAll {t : Ty} {ts : List Ty} (h : t ∈ ts) : t.size < sizeAll ts := by
  induction ts with
  | nil => simp at h
  | cons u us ih =>
    rw [sizeAll]
    rcases List.mem_cons.mp h with rfl | h
    · omega
    · have := ih h
      omega

theorem eq_var_or_size_lt (f : String → Ty) {v : String} {t : Ty} (hv : v ∈ t.vars) :
    t = var v ∨ (f v).size < (t.replace f).size := by
  induction t using ind with
  | int => simp [vars] at hv
  | bool => simp [vars] at hv
  | var w => exact .inl (by simpa [vars, eq_comm] using hv)
  | fn p r hp hr =>
    refine .inr ?_
    simp only [vars, List.mem_append] at hv
    simp only [replace, size]
    rcases hv with hv | hv
    · rcases hp hv with rfl | h
      · simp only [replace]; omega
      · omega
    · rcases hr hv with rfl | h
      · simp only [replace]; omega
      · omega
  | tuple ts ih =>
    refine .inr ?_
    obtain ⟨t, ht, hvt⟩ := mem_varsAll.mp hv
    have hlt := size_lt_sizeAll (List.mem_map_of_mem (f := replace f) ht)
    simp only [replace_tuple, size]
    rcases ih t ht hvt with rfl | h
    · simp only [replace] at hlt; omega
    · omega

/-- **Occurs check.** A replacement never makes a variable equal to a larger type that mentions
it. -/
theorem not_mem_vars_of_replace_eq {f : String → Ty} {v : String} {t : Ty} (hne : t ≠ var v)
    (h : f v = t.replace f) : v ∉ t.vars := by
  intro hv
  rcases eq_var_or_size_lt f hv with rfl | hlt
  · exact hne rfl
  · rw [h] at hlt
    exact Nat.lt_irrefl _ hlt

/-- The outermost shapes of the two types differ, and neither is a variable. -/
def Clash : Ty → Ty → Prop
  | var _, _ | _, var _ => False
  | int, int | bool, bool | fn .., fn .. => False
  | tuple ts, tuple us => ts.length ≠ us.length
  | _, _ => True

theorem Clash.replace_ne {t u : Ty} (h : Clash t u) (f : String → Ty) :
    t.replace f ≠ u.replace f := by
  cases t <;> cases u <;> simp only [Clash] at h <;> simp only [replace, ne_eq, reduceCtorEq,
    not_false_eq_true]
  case tuple.tuple ts us =>
    intro heq
    rw [replaceAll_eq_map, replaceAll_eq_map, tuple.injEq] at heq
    exact h (by simpa using congrArg List.length heq)

end Ty

theorem unify_clash {t u : Ty} (h : t.Clash u) : unify t u = .error (.mismatch t u) := by
  have hne : t ≠ u := fun heq => h.replace_ne Ty.var (by rw [heq])
  cases t <;> cases u <;> simp only [Ty.Clash] at h
  case tuple.tuple ts us => rw [unify_tuple hne, dif_neg h]
  all_goals rw [unify, solve.eq_def, if_neg hne]; rfl

/-! ## Induction along the calls -/

/-- **Induction along the calls of unification.** The parts that come later are those of the types
under what the parts before have settled. -/
theorem unify_ind {P : Ty → Ty → Prop} {Q : List Ty → List Ty → Prop} (self : ∀ t, P t t)
    (varLeft : ∀ v t, Ty.var v ≠ t → P (.var v) t)
    (varRight : ∀ t v, (∀ w, t ≠ .var w) → P t (.var v))
    (fn : ∀ p r p' r', Ty.fn p r ≠ .fn p' r' → P p p' →
      (∀ s, unify p p' = .ok s → P (s.apply r) (s.apply r')) → P (.fn p r) (.fn p' r'))
    (tuple : ∀ ts us, ts.length = us.length → Ty.tuple ts ≠ .tuple us → Q ts us →
      P (.tuple ts) (.tuple us))
    (clash : ∀ t u, t.Clash u → P t u) (nil : Q [] [])
    (cons : ∀ t ts u us, P t u →
      (∀ s, unify t u = .ok s → Q (ts.map s.apply) (us.map s.apply)) → Q (t :: ts) (u :: us))
    (t u : Ty) : P t u := by
  refine solve.induct P (fun ts us _ => Q ts us) self varLeft
    (fun t v h _ => varRight t v fun w hw => h w hw)
    (fun p r p' r' hne hp hr => fn p r p' r' hne hp fun s hs => hr s (unify_resolved hs))
    (fun ts us hl hne h => tuple ts us hl hne h)
    (fun ts us hl _ => clash _ _ hl) ?_ (fun _ _ => nil)
    (fun t ts u us _ _ h hs => cons t ts u us h fun s hu => hs s (unify_resolved hu)) t u
  intro t u ht hu hfn htuple hne
  refine clash t u ?_
  cases t with
  | var v => exact (ht v rfl).elim
  | int =>
    cases u with
    | int => exact (hne rfl).elim
    | var w => exact (hu w rfl).elim
    | _ => trivial
  | bool =>
    cases u with
    | bool => exact (hne rfl).elim
    | var w => exact (hu w rfl).elim
    | _ => trivial
  | fn p r =>
    cases u with
    | fn p' r' => exact (hfn p r p' r' rfl rfl).elim
    | var w => exact (hu w rfl).elim
    | _ => trivial
  | tuple ts =>
    cases u with
    | tuple us => exact (htuple ts us rfl rfl).elim
    | var w => exact (hu w rfl).elim
    | _ => trivial

/-! ## What unification returns -/

theorem unify_var_of_replace_eq {f : String → Ty} {v : String} {t : Ty} (hne : t ≠ .var v)
    (h : f v = t.replace f) :
    (if t.mentions v then .error (.infiniteType v t) else .ok (.singleton v t) :
      Except TypeError Subst) = .ok (.singleton v t) ∧
      Subst.AbsorbedBy (NameMap.singleton v t) f := by
  have hv : v ∉ t.vars := Ty.not_mem_vars_of_replace_eq hne h
  exact ⟨if_neg (by simpa using hv), .singleton h.symm⟩

/-- If a replacement makes two types equal, then unification succeeds, and the replacement absorbs
its result. -/
theorem unify_of_replace_eq {f : String → Ty} {t u : Ty} (h : t.replace f = u.replace f) :
    ∃ s, unify t u = .ok s ∧ s.AbsorbedBy f := by
  refine unify_ind (P := fun t u => t.replace f = u.replace f →
      ∃ s, unify t u = .ok s ∧ s.AbsorbedBy f)
    (Q := fun ts us => ∀ hl : ts.length = us.length, ts.map (Ty.replace f) = us.map (Ty.replace f) →
      ∃ s, unifyAll ts us hl = .ok s ∧ s.AbsorbedBy f)
    ?self ?varLeft ?varRight ?fn ?tuple ?clash ?nil ?cons t u h
  case self =>
    intro t _
    exact ⟨∅, unify_self t, .empty f⟩
  case varLeft =>
    intro v t hne h
    obtain ⟨hok, habs⟩ := unify_var_of_replace_eq (Ne.symm hne) h
    exact ⟨_, (unify_var_left hne).trans hok, habs⟩
  case varRight =>
    intro t v hne h
    obtain ⟨hok, habs⟩ := unify_var_of_replace_eq (hne v) h.symm
    exact ⟨_, (unify_var_right (hne v) hne).trans hok, habs⟩
  case fn =>
    intro p r p' r' hne hp hr h
    obtain ⟨hpp, hrr⟩ := Ty.fn.inj h
    obtain ⟨s, hs, habs⟩ := hp hpp
    -- the solution is one of the results too, since it absorbs what the parameters settled
    obtain ⟨s', hs', habs'⟩ := hr s hs (by rw [habs.replace_apply, habs.replace_apply, hrr])
    refine ⟨s.compose s', ?_, habs.compose habs'⟩
    rw [unify_fn hne, hs]
    simp only [bind, Except.bind, hs']
    rfl
  case tuple =>
    intro ts us hl hne hQ h
    simp only [Ty.replace_tuple, Ty.tuple.injEq] at h
    obtain ⟨s, hs, habs⟩ := hQ hl h
    exact ⟨s, by rw [unify_tuple hne, dif_pos hl, hs], habs⟩
  case clash =>
    intro t u hc h
    exact absurd h (hc.replace_ne f)
  case nil =>
    intro _ _
    exact ⟨∅, unifyAll_nil, .empty f⟩
  case cons =>
    intro t ts u us hP hQ hl h
    obtain ⟨htu, hts⟩ := List.cons.inj h
    obtain ⟨s, hs, habs⟩ := hP htu
    have hrest : (ts.map s.apply).map (Ty.replace f) = (us.map s.apply).map (Ty.replace f) := by
      simpa only [List.map_map, Function.comp_def, habs.replace_apply] using hts
    obtain ⟨s', hs', habs'⟩ := hQ s hs (by simpa using hl) hrest
    refine ⟨s.compose s', ?_, habs.compose habs'⟩
    rw [unifyAll_cons, hs]
    simp only [bind, Except.bind, hs']
    rfl

theorem unifyAll_resolved {ts us : List Ty} {hl : ts.length = us.length} {s : Subst}
    (h : unifyAll ts us hl = .ok s) : s.Resolved (Ty.varsAll ts ++ Ty.varsAll us) := by
  rw [unifyAll] at h
  cases hs : solveAll ts us hl with
  | error e => simp [hs, Except.map] at h
  | ok r =>
    simp only [hs, Except.map, Except.ok.injEq] at h
    exact h ▸ r.2

/-- What settles variables of types under a resolved substitution settles none that are settled
already. -/
theorem Subst.Resolved.disjoint_of_apply {s s' : Subst} {vs : List String} (ts us : List Ty)
    (hs : s.Resolved vs)
    (hs' : s'.Resolved (Ty.varsAll (ts.map s.apply) ++ Ty.varsAll (us.map s.apply))) :
    ∀ v ∈ s'.names, v ∉ s.names := by
  intro v hv
  rcases List.mem_append.mp (hs'.name_mem hv) with hm | hm
  · exact (hs.mem_varsAll_map_apply hm).2
  · exact (hs.mem_varsAll_map_apply hm).2

/-- A variable that a type does not mention is made equal to it by its one entry. -/
theorem Subst.apply_singleton_self {v : String} {t : Ty} (h : v ∉ t.vars) :
    Subst.apply (NameMap.singleton v t) t = Subst.apply (NameMap.singleton v t) (.var v) := by
  have hv : (NameMap.singleton v t).get? v = some t := by simp
  rw [Subst.apply_var, Subst.image_of_get? hv]
  refine Subst.apply_of_not_mem fun w hw hn => ?_
  obtain ⟨u, hu⟩ := NameMap.mem_names.mp hn
  rw [NameMap.get?_singleton] at hu
  split at hu
  next heq => exact h (heq ▸ hw)
  next => simp at hu

/-- **The result of unification makes the two types equal.** -/
theorem unify_unifies {t u : Ty} {s : Subst} (h : unify t u = .ok s) : s.apply t = s.apply u := by
  refine unify_ind (P := fun t u => ∀ s, unify t u = .ok s → s.apply t = s.apply u)
    (Q := fun ts us => ∀ hl s, unifyAll ts us hl = .ok s → ts.map s.apply = us.map s.apply)
    ?self ?varLeft ?varRight ?fn ?tuple ?clash ?nil ?cons t u s h
  case self =>
    intro t s _
    rfl
  case varLeft =>
    intro v t hne s h
    rw [unify_var_left hne] at h
    split at h
    next => simp at h
    next hm => exact Except.ok.inj h ▸ (Subst.apply_singleton_self (by simpa using hm)).symm
  case varRight =>
    intro t v hne s h
    rw [unify_var_right (hne v) hne] at h
    split at h
    next => simp at h
    next hm => exact Except.ok.inj h ▸ Subst.apply_singleton_self (by simpa using hm)
  case fn =>
    intro p r p' r' hne hp hr s h
    rw [unify_fn hne] at h
    obtain ⟨s₁, hs₁, h⟩ := except_bind_eq_ok_iff.mp h
    obtain ⟨s₂, hs₂, h⟩ := except_bind_eq_ok_iff.mp h
    obtain rfl := Except.ok.inj h
    have hd := (unify_resolved hs₁).disjoint_next (unify_resolved hs₂)
    simp only [Subst.apply_compose_of_disjoint hd, Subst.apply_fn, hp s₁ hs₁, hr s₁ hs₁ s₂ hs₂]
  case tuple =>
    intro ts us hl hne hQ s h
    rw [unify_tuple hne, dif_pos hl] at h
    rw [Subst.apply_tuple, Subst.apply_tuple, hQ hl s h]
  case clash =>
    intro t u hc s h
    simp [unify_clash hc] at h
  case nil =>
    intro _ s _
    rfl
  case cons =>
    intro t ts u us hP hQ hl s h
    rw [unifyAll_cons] at h
    obtain ⟨s₁, hs₁, h⟩ := except_bind_eq_ok_iff.mp h
    obtain ⟨s₂, hs₂, h⟩ := except_bind_eq_ok_iff.mp h
    obtain rfl := Except.ok.inj h
    have hd := (unify_resolved hs₁).disjoint_of_apply ts us (unifyAll_resolved hs₂)
    have hcomp : (s₁.compose s₂).apply = s₂.apply ∘ s₁.apply :=
      funext (Subst.apply_compose_of_disjoint hd)
    rw [List.map_cons, List.map_cons, hcomp, ← List.map_map, ← List.map_map, hQ s₁ hs₁ _ s₂ hs₂,
      Function.comp_apply, Function.comp_apply, hP s₁ hs₁]

/-- What absorbs the result makes the two types equal. -/
theorem replace_eq_of_unify {t u : Ty} {s : Subst} {f : String → Ty} (h : unify t u = .ok s)
    (hf : s.AbsorbedBy f) : t.replace f = u.replace f := by
  rw [← hf.replace_apply t, unify_unifies h, hf.replace_apply]

/-- **Unification computes most general unifiers.** What it returns makes the two types equal and is
absorbed by every substitution that does so; where it fails, no substitution makes them equal. -/
theorem unify_most_general (t u : Ty) :
    (∀ s, unify t u = .ok s → s.apply t = s.apply u ∧
      ∀ r : Subst, r.apply t = r.apply u → ∀ w : Ty, r.apply (s.apply w) = r.apply w) ∧
    ∀ e, unify t u = .error e → ∀ r : Subst, r.apply t ≠ r.apply u := by
  constructor
  · intro s hs
    refine ⟨unify_unifies hs, fun r hr w => ?_⟩
    obtain ⟨s', hs', habs⟩ := unify_of_replace_eq hr
    obtain rfl : s = s' := Except.ok.inj (hs.symm.trans hs')
    exact habs.replace_apply w
  · intro e he r hr
    obtain ⟨s, hs, -⟩ := unify_of_replace_eq hr
    simp [he] at hs

/-- Two types with a shared variable, and a variable that occurs in the other type. -/
theorem unify_most_general_shared :
    unify (.fn (.var "a") (.var "a")) (.fn .int (.var "b")) =
      .ok (.ofList [("a", .int), ("b", .int)]) ∧
    (∀ r : Subst, r.apply (.fn (.var "a") (.var "a")) = r.apply (.fn .int (.var "b")) →
      ∀ w : Ty, r.apply (Subst.apply (.ofList [("a", .int), ("b", .int)]) w) = r.apply w) ∧
    unify (.var "a") (.fn .int (.var "a")) = .error (.infiniteType "a" (.fn .int (.var "a"))) ∧
    ∀ r : Subst, r.apply (.var "a") ≠ r.apply (.fn .int (.var "a")) := by
  have hparam : unify (.var "a") .int = .ok (.singleton "a" .int) := unify_var_left nofun
  have hresult : unify .int (.var "b") = .ok (.singleton "b" .int) := unify_var_right nofun nofun
  have hok : unify (.fn (.var "a") (.var "a")) (.fn .int (.var "b")) =
      .ok (.ofList [("a", .int), ("b", .int)]) := by
    rw [unify_fn (by simp), hparam]
    show (unify .int (.var "b") >>= fun s => .ok (Subst.compose (.singleton "a" .int) s)) = _
    rw [hresult]
    rfl
  have herror : unify (.var "a") (.fn .int (.var "a")) =
      .error (.infiniteType "a" (.fn .int (.var "a"))) := unify_var_left nofun
  exact ⟨hok, ((unify_most_general _ _).1 _ hok).2, herror, (unify_most_general _ _).2 _ herror⟩

/-- **The result of unification is idempotent and introduces nothing.** The variables that it
settles and those that it mentions are variables of the two types; a settled variable is mentioned
nowhere, so a second application changes nothing. -/
theorem unify_idempotent {t u : Ty} {s : Subst} (h : unify t u = .ok s) :
    (∀ v ∈ s.names, v ∈ t.vars ∨ v ∈ u.vars) ∧
    (∀ v a, s.get? v = some a → ∀ w ∈ a.vars, (w ∈ t.vars ∨ w ∈ u.vars) ∧ w ∉ s.names) ∧
    ∀ w : Ty, s.apply (s.apply w) = s.apply w := by
  have hs : s.Resolved (t.vars ++ u.vars) := unify_resolved h
  refine ⟨fun v hv => ?_, fun v a hv w hw => ⟨?_, hs.var_not_mem hv hw⟩, fun w => ?_⟩
  · exact List.mem_append.mp (hs.name_mem hv)
  · exact List.mem_append.mp (hs.var_mem hv hw)
  · exact hs.absorbedBy_image.replace_apply w

/-- The second component is settled after the first one, and its variable disappears from the target
of the first. -/
theorem unify_idempotent_tuple :
    unify (.tuple [.var "a", .var "b"]) (.tuple [.fn (.var "b") (.var "b"), .int]) =
      .ok (.ofList [("a", .fn .int .int), ("b", .int)]) ∧
    ∀ w : Ty, Subst.apply (.ofList [("a", .fn .int .int), ("b", .int)])
        (Subst.apply (.ofList [("a", .fn .int .int), ("b", .int)]) w) =
      Subst.apply (.ofList [("a", .fn .int .int), ("b", .int)]) w := by
  have hfirst : unify (.var "a") (.fn (.var "b") (.var "b")) =
      .ok (.singleton "a" (.fn (.var "b") (.var "b"))) := unify_var_left nofun
  have hsecond : unify (.var "b") .int = .ok (.singleton "b" .int) := unify_var_left nofun
  have hok : unify (.tuple [.var "a", .var "b"]) (.tuple [.fn (.var "b") (.var "b"), .int]) =
      .ok (.ofList [("a", .fn .int .int), ("b", .int)]) := by
    rw [unify_tuple (by simp)]
    refine (dif_pos rfl).trans ?_
    rw [unifyAll_cons, hfirst]
    show (unifyAll [.var "b"] [.int] rfl >>= fun s => .ok (Subst.compose
      (.singleton "a" (.fn (.var "b") (.var "b"))) s)) = _
    rw [unifyAll_cons, hsecond]
    show ((unifyAll [] [] rfl >>= fun s => .ok (Subst.compose (.singleton "b" .int) s)) >>=
      fun s => .ok (Subst.compose (.singleton "a" (.fn (.var "b") (.var "b"))) s)) = _
    rw [unifyAll_nil]
    rfl
  exact ⟨hok, (unify_idempotent hok).2.2⟩

end PolyLet
