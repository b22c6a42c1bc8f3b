import PolyLet.Subst
import PolyLet.TypeError

/-!
# Unification

Two types are made equal by giving types to their variables. Parts are compared from left to right,
and what one pair of parts settles is applied to the parts that are left. Each settled variable
disappears from them, so the number of variables goes down, or else the size does.

## Main definitions

* `unify t u`: the substitution that makes `t` and `u` equal, or why there is none
* `unifyAll ts us`: the same for two lists of equal length, component by component
* `Subst.Resolved s vs`: the substitution `s` settles variables among `vs` in terms of others among
  `vs` that it does not settle

## Main results

* `unify_resolved`: what `unify` returns is resolved in the variables of the two types
* `unify_fn`, `unify_tuple`, `unifyAll_cons`: unification follows the shape of types
-/

namespace PolyLet

/-! ## Resolved substitutions -/

/-- The substitution settles variables among `vs`, in terms of variables among `vs` that it leaves
alone. -/
structure Subst.Resolved (s : Subst) (vs : List String) : Prop where
  name_mem : ∀ {v}, v ∈ s.names → v ∈ vs
  var_mem : ∀ {v t w}, s.get? v = some t → w ∈ t.vars → w ∈ vs
  var_not_mem : ∀ {v t w}, s.get? v = some t → w ∈ t.vars → w ∉ s.names

namespace Subst.Resolved

variable {s s' : Subst} {vs ws us : List String}

theorem empty (vs : List String) : Subst.Resolved ∅ vs where
  name_mem h := absurd h (List.not_mem_nil)
  var_mem h := by simp at h
  var_not_mem h := by simp at h

theorem singleton {v : String} {t : Ty} (h : v ∉ t.vars) (hv : v ∈ vs) (ht : ∀ w ∈ t.vars, w ∈ vs) :
    Subst.Resolved (NameMap.singleton v t) vs where
  name_mem {x} hx := by
    obtain ⟨a, ha⟩ := NameMap.mem_names.mp hx
    rw [NameMap.get?_singleton] at ha
    split at ha
    next heq => exact heq ▸ hv
    next => simp at ha
  var_mem {x a w} hx hw := by
    rw [NameMap.get?_singleton] at hx
    split at hx
    next => exact ht w (Option.some.inj hx ▸ hw)
    next => simp at hx
  var_not_mem {x a w} hx hw hw' := by
    rw [NameMap.get?_singleton] at hx
    obtain ⟨b, hb⟩ := NameMap.mem_names.mp hw'
    rw [NameMap.get?_singleton] at hb
    split at hx
    next =>
      split at hb
      next heq => exact h (heq ▸ Option.some.inj hx ▸ hw)
      next => simp at hb
    next => simp at hx

/-- A variable of an applied type was there before or is a variable of the substitution, and it is
not settled. -/
theorem mem_vars_apply (hs : s.Resolved vs) {t : Ty} {w : String} (hw : w ∈ (s.apply t).vars) :
    (w ∈ vs ∨ w ∈ t.vars) ∧ w ∉ s.names := by
  obtain ⟨v, hv, hvw⟩ := Subst.mem_vars_apply.mp hw
  by_cases hn : v ∈ s.names
  · obtain ⟨u, hu⟩ := NameMap.mem_names.mp hn
    rw [Subst.image_of_get? hu] at hvw
    exact ⟨.inl (hs.var_mem hu hvw), hs.var_not_mem hu hvw⟩
  · rw [Subst.image_of_not_mem hn] at hvw
    obtain rfl : w = v := by simpa [Ty.vars] using hvw
    exact ⟨.inr hv, hn⟩

theorem mem_varsAll_map_apply (hs : s.Resolved vs) {ts : List Ty} {w : String}
    (hw : w ∈ Ty.varsAll (ts.map s.apply)) : (w ∈ vs ∨ w ∈ Ty.varsAll ts) ∧ w ∉ s.names := by
  obtain ⟨_, hu, hwu⟩ := Ty.mem_varsAll.mp hw
  obtain ⟨t, ht, rfl⟩ := List.mem_map.mp hu
  obtain ⟨h, hn⟩ := hs.mem_vars_apply hwu
  exact ⟨h.imp_right fun hm => Ty.mem_varsAll.mpr ⟨t, ht, hm⟩, hn⟩

theorem compose (hs : s.Resolved vs) (hs' : s'.Resolved ws) (hvs : ∀ v ∈ vs, v ∈ us)
    (hws : ∀ w ∈ ws, w ∈ us ∧ w ∉ s.names) : (s.compose s').Resolved us where
  name_mem hv :=
    (Subst.mem_names_compose.mp hv).elim (fun h => hvs _ (hs.name_mem h))
      fun h => (hws _ (hs'.name_mem h)).1
  var_mem {v t w} hv hw := by
    rw [Subst.get?_compose, Option.or_eq_some_iff] at hv
    rcases hv with hv | ⟨-, hv⟩
    · exact (hws w (hs'.var_mem hv hw)).1
    · obtain ⟨u, hu, rfl⟩ := Option.map_eq_some_iff.mp hv
      rcases (hs'.mem_vars_apply hw).1 with h | h
      · exact (hws w h).1
      · exact hvs w (hs.var_mem hu h)
  var_not_mem {v t w} hv hw hw' := by
    rw [Subst.get?_compose, Option.or_eq_some_iff] at hv
    rcases hv with hv | ⟨-, hv⟩
    · rcases Subst.mem_names_compose.mp hw' with h | h
      · exact (hws w (hs'.var_mem hv hw)).2 h
      · exact hs'.var_not_mem hv hw h
    · obtain ⟨u, hu, rfl⟩ := Option.map_eq_some_iff.mp hv
      obtain ⟨hmem, hn⟩ := hs'.mem_vars_apply hw
      rcases Subst.mem_names_compose.mp hw' with h | h
      · rcases hmem with hm | hm
        · exact (hws w hm).2 h
        · exact hs.var_not_mem hu hm h
      · exact hn h

end Subst.Resolved

/-! ## The measure -/

/-- The number of different variables in a list. -/
def distinct (vs : List String) : Nat :=
  (NameSet.ofList vs).size

theorem distinct_le {vs us : List String} (h : ∀ v ∈ vs, v ∈ us) : distinct vs ≤ distinct us :=
  NameSet.size_le_of_subset fun v hv => NameSet.mem_ofList.mpr (h v (NameSet.mem_ofList.mp hv))

theorem distinct_lt {vs us : List String} {v : String} (h : ∀ v ∈ vs, v ∈ us) (hv : v ∈ us)
    (hn : v ∉ vs) : distinct vs < distinct us :=
  NameSet.size_lt_of_subset (fun v hv => NameSet.mem_ofList.mpr (h v (NameSet.mem_ofList.mp hv)))
    (NameSet.mem_ofList.mpr hv) fun hm => hn (NameSet.mem_ofList.mp hm)

/-- A part of a problem is smaller than the problem. -/
theorem measure_part {vs us : List String} {m n : Nat} (h : ∀ v ∈ vs, v ∈ us) (hmn : m < n) :
    Prod.Lex (· < ·) (· < ·) (distinct vs, m) (distinct us, n) := by
  rcases Nat.lt_or_eq_of_le (distinct_le h) with hlt | heq
  · exact .left _ _ hlt
  · exact heq ▸ .right _ hmn

/-- What is left of a problem is smaller than the problem, once a substitution has been applied that
is resolved in the part before. -/
theorem measure_rest {s : Subst} {vs rs us : List String} {m n : Nat} (hs : s.Resolved vs)
    (hvs : ∀ v ∈ vs, v ∈ us) (hrs : ∀ w ∈ rs, w ∈ us ∧ w ∉ s.names) (hmn : s = ∅ → m < n) :
    Prod.Lex (· < ·) (· < ·) (distinct rs, m) (distinct us, n) := by
  by_cases h : s = ∅
  -- nothing was settled: the types are smaller
  · exact measure_part (fun w hw => (hrs w hw).1) (hmn h)
  -- a variable was settled, and it is gone from what is left
  · obtain ⟨v, hv⟩ : ∃ v, v ∈ s.names := Classical.byContradiction fun hno =>
      h (NameMap.ext fun x => by
        rw [NameMap.get?_empty, NameMap.get?_eq_none_iff]
        exact fun hx => hno ⟨x, hx⟩)
    exact .left _ _ (distinct_lt (fun w hw => (hrs w hw).1) (hvs v (hs.name_mem hv))
      fun hm => (hrs v hm).2 hv)

/-! ## Solving -/

/-- The substitution that gives the type `t` to the variable `v`, unless `t` mentions `v`. -/
def settle (v : String) (t : Ty) {vs : List String} (hv : v ∈ vs) (ht : ∀ w ∈ t.vars, w ∈ vs) :
    Except TypeError {s : Subst // s.Resolved vs} :=
  if h : v ∈ t.vars then .error (.infiniteType v t)
  else .ok ⟨.singleton v t, .singleton h hv ht⟩

mutual

/-- Unification of two types, with what the recursion needs to know about its result. -/
def solve (t u : Ty) : Except TypeError {s : Subst // s.Resolved (t.vars ++ u.vars)} :=
  if t = u then .ok ⟨∅, .empty _⟩
  else
    match t, u with
    | .var v, u => settle v u (by simp [Ty.vars]) (fun w hw => by simp [hw])
    | t, .var v => settle v t (by simp [Ty.vars]) (fun w hw => by simp [hw])
    | .fn p r, .fn p' r' => do
      let ⟨s, hs⟩ ← solve p p'
      -- what is left mentions no variable that is already settled
      have hr : ∀ w ∈ (s.apply r).vars ++ (s.apply r').vars,
          w ∈ (Ty.fn p r).vars ++ (Ty.fn p' r').vars ∧ w ∉ s.names := by
        intro w hw
        rcases List.mem_append.mp hw with h | h <;> have h := hs.mem_vars_apply h <;>
          simp only [Ty.vars, List.mem_append] at h ⊢ <;> grind
      let ⟨s', hs'⟩ ← solve (s.apply r) (s.apply r')
      .ok ⟨s.compose s', hs.compose hs' (by simp [Ty.vars]; grind) hr⟩
    | .tuple ts, .tuple us =>
      if h : ts.length = us.length then solveAll ts us h
      else .error (.mismatch (.tuple ts) (.tuple us))
    | t, u => .error (.mismatch t u)
termination_by (distinct (t.vars ++ u.vars), t.size + u.size)
decreasing_by
  · exact measure_part (by simp [Ty.vars]; grind) (by simp [Ty.size]; omega)
  · refine measure_rest hs (by simp [Ty.vars]; grind) hr fun he => ?_
    subst he
    simp [Ty.size]
    omega
  · exact measure_part (by simp [Ty.vars]) (by simp [Ty.size]; omega)

/-- Unification of two lists of types of the same length, component by component. -/
def solveAll (ts us : List Ty) (h : ts.length = us.length) :
    Except TypeError {s : Subst // s.Resolved (Ty.varsAll ts ++ Ty.varsAll us)} :=
  match ts, us, h with
  | [], [], _ => .ok ⟨∅, .empty _⟩
  | t :: ts, u :: us, h => do
    let ⟨s, hs⟩ ← solve t u
    have hr : ∀ w ∈ Ty.varsAll (ts.map s.apply) ++ Ty.varsAll (us.map s.apply),
        w ∈ Ty.varsAll (t :: ts) ++ Ty.varsAll (u :: us) ∧ w ∉ s.names := by
      intro w hw
      rcases List.mem_append.mp hw with h | h <;> have h := hs.mem_varsAll_map_apply h <;>
        simp only [Ty.varsAll, List.mem_append] at h ⊢ <;> grind
    let ⟨s', hs'⟩ ← solveAll (ts.map s.apply) (us.map s.apply) (by simpa using h)
    .ok ⟨s.compose s', hs.compose hs' (by simp [Ty.varsAll]; grind) hr⟩
termination_by (distinct (Ty.varsAll ts ++ Ty.varsAll us), Ty.sizeAll ts + Ty.sizeAll us)
decreasing_by
  · exact measure_part (by simp [Ty.varsAll]; grind) (by simp [Ty.sizeAll]; omega)
  · refine measure_rest hs (by simp [Ty.varsAll]; grind) hr fun he => ?_
    subst he
    simp [Ty.sizeAll]
    omega

end

/-- The substitution that makes two types equal, or why there is none. -/
def unify (t u : Ty) : Except TypeError Subst :=
  (solve t u).map Subtype.val

/-- The substitution that makes two lists of types of the same length equal, or why there is
none. -/
def unifyAll (ts us : List Ty) (h : ts.length = us.length) : Except TypeError Subst :=
  (solveAll ts us h).map Subtype.val

/-! ## How unification follows the shape of types -/

/-- **The result of unification is resolved.** It settles variables of the two types only, in terms
of other variables of them. -/
theorem unify_resolved {t u : Ty} {s : Subst} (h : unify t u = .ok s) :
    s.Resolved (t.vars ++ u.vars) := by
  rw [unify] at h
  cases hs : solve t u with
  | error e => simp [hs, Except.map] at h
  | ok r =>
    simp only [hs, Except.map, Except.ok.injEq] at h
    exact h ▸ r.2

theorem unify_self (t : Ty) : unify t t = .ok ∅ := by
  rw [unify, solve.eq_def, if_pos rfl]
  rfl

theorem unify_var_left {v : String} {t : Ty} (h : .var v ≠ t) :
    unify (.var v) t =
      if t.mentions v then .error (.infiniteType v t) else .ok (.singleton v t) := by
  rw [unify, solve.eq_def, if_neg h]
  simp only [settle, Ty.mentions]
  split <;> simp_all [Except.map]

theorem unify_var_right {v : String} {t : Ty} (h : t ≠ .var v) (ht : ∀ w, t ≠ .var w) :
    unify t (.var v) =
      if t.mentions v then .error (.infiniteType v t) else .ok (.singleton v t) := by
  rw [unify, solve.eq_def, if_neg h]
  cases t with
  | var w => exact absurd rfl (ht w)
  | _ =>
    simp only [settle, Ty.mentions]
    split <;> simp_all [Except.map]

theorem unify_fn {p r p' r' : Ty} (h : Ty.fn p r ≠ .fn p' r') :
    unify (.fn p r) (.fn p' r') = (do
      let s ← unify p p'
      let s' ← unify (s.apply r) (s.apply r')
      pure (s.compose s')) := by
  rw [unify, solve.eq_def, if_neg h]
  simp only [unify]
  cases solve p p' with
  | error e => rfl
  | ok s =>
    simp only [bind, Except.bind, Except.map]
    cases solve (s.1.apply r) (s.1.apply r') <;> rfl

theorem unify_tuple {ts us : List Ty} (h : Ty.tuple ts ≠ .tuple us) :
    unify (.tuple ts) (.tuple us) =
      if hl : ts.length = us.length then unifyAll ts us hl
      else .error (.mismatch (.tuple ts) (.tuple us)) := by
  rw [unify, solve.eq_def, if_neg h]
  by_cases hl : ts.length = us.length
  · simp only [hl, ↓reduceDIte, unifyAll]
    rfl
  · simp [hl, Except.map]

theorem unifyAll_nil : unifyAll [] [] rfl = .ok ∅ := by
  rw [unifyAll, solveAll.eq_def]
  rfl

theorem unifyAll_cons {t u : Ty} {ts us : List Ty} (h : (t :: ts).length = (u :: us).length) :
    unifyAll (t :: ts) (u :: us) h = (do
      let s ← unify t u
      let s' ← unifyAll (ts.map s.apply) (us.map s.apply) (by simpa using h)
      pure (s.compose s')) := by
  rw [unifyAll, solveAll.eq_def]
  simp only [unify, unifyAll]
  cases solve t u with
  | error e => rfl
  | ok s =>
    simp only [bind, Except.bind, Except.map]
    cases solveAll (ts.map s.1.apply) (us.map s.1.apply) (by simpa using h) <;> rfl

end PolyLet
