import Mathlib.Order.Filter.AtTopBot.Basic
import Mathlib.Order.Filter.Finite
import Mathlib.Order.RelClasses
import PolyLet.Proofs.Composition
import PolyLet.Proofs.Unification

/-!
# The recursion of unification

Unification calls itself on the parts of two types, from left to right, each time under what the
parts before have settled. The types of such a call may be larger than those that it was made for.
But they are larger only if a variable was replaced, and a variable that was replaced is gone: the
number of different variables goes down, or else the size does. So the calls end for every pair of
types, and unification is the one function that follows its own equation.

## Main definitions

* `Ty.parts t`: the types directly below `t`
* `unifyStep call t u`: one round of unification, where `call` takes the place of the calls
* `unifyCalls t u`: the pairs of types for which unification of `t` and `u` calls itself
* `pairMeasure (t, u)`: the number of different variables of two types, and their size

## Main results

* `pairMeasure_unifyCalls_lt`: every call has a smaller measure
* `unifyStep_eq_unify`: a round depends on nothing but its calls
* `exists_unify_depth`: the calls of two types are nested up to some depth only
* `unify_terminates`: unification terminates
-/

namespace PolyLet

/-! ## Parts of types -/

namespace Ty

/-- The types directly below a type, from left to right. -/
def parts : Ty → List Ty
  | fn p r => [p, r]
  | tuple ts => ts
  | _ => []

theorem mem_vars_of_mem_parts {t u : Ty} {v : String} (h : t ∈ u.parts) (hv : v ∈ t.vars) :
    v ∈ u.vars := by
  cases u with
  | fn p r =>
    rw [vars, List.mem_append]
    obtain rfl | rfl : t = p ∨ t = r := by simpa [parts] using h
    · exact .inl hv
    · exact .inr hv
  | tuple ts => exact mem_varsAll.mpr ⟨t, h, hv⟩
  | _ => cases h

theorem size_lt_of_mem_parts {t u : Ty} (h : t ∈ u.parts) : t.size < u.size := by
  cases u with
  | fn p r =>
    rw [size]
    obtain rfl | rfl : t = p ∨ t = r := by simpa [parts] using h
    · omega
    · omega
  | tuple ts =>
    have hlt : t.size < sizeAll ts := size_lt_sizeAll h
    rw [size]
    omega
  | _ => cases h

end Ty

/-! ## One round -/

/-- The substitution that gives a type to a variable, unless the type mentions the variable. -/
def giveVar (v : String) (t : Ty) : Except TypeError Subst :=
  if t.mentions v then .error (.infiniteType v t) else .ok (.singleton v t)

/-- The pairs of a list made equal by `call` from left to right, each under what is settled by
then; `acc` is what is settled at the start. -/
def unifyPairs (call : Ty → Ty → Except TypeError Subst) (acc : Subst) (ps : List (Ty × Ty)) :
    Except TypeError Subst :=
  ps.foldlM (fun acc p => do
    let s ← call (acc.apply p.1) (acc.apply p.2)
    pure (acc.compose s)) acc

/-- **One round of unification,** where `call` takes the place of the calls that unification makes
of itself. -/
def unifyStep (call : Ty → Ty → Except TypeError Subst) (t u : Ty) : Except TypeError Subst :=
  if t = u then .ok ∅
  else
    match t, u with
    | .var v, u => giveVar v u
    | t, .var v => giveVar v t
    | .fn p r, .fn p' r' => do
      let s ← call p p'
      let s' ← call (s.apply r) (s.apply r')
      pure (s.compose s')
    | .tuple ts, .tuple us =>
      if ts.length = us.length then unifyPairs call ∅ (ts.zip us)
      else .error (.mismatch (.tuple ts) (.tuple us))
    | t, u => .error (.mismatch t u)

/-- The pairs of types for which the pairs of a list lead to calls, from left to right up to the
first that cannot be made equal. -/
def pairCalls (acc : Subst) : List (Ty × Ty) → List (Ty × Ty)
  | [] => []
  | (t, u) :: ps =>
    (acc.apply t, acc.apply u) ::
      match unify (acc.apply t) (acc.apply u) with
      | .ok s => pairCalls (acc.compose s) ps
      | .error _ => []

/-- The pairs of types for which unification of two types calls itself. -/
def unifyCalls (t u : Ty) : List (Ty × Ty) :=
  if t = u then []
  else
    match t, u with
    | .fn p r, .fn p' r' => pairCalls ∅ [(p, p'), (r, r')]
    | .tuple ts, .tuple us => if ts.length = us.length then pairCalls ∅ (ts.zip us) else []
    | _, _ => []

section Round

variable {call : Ty → Ty → Except TypeError Subst} {acc : Subst}

@[simp] theorem unifyPairs_nil : unifyPairs call acc [] = .ok acc := rfl

theorem unifyPairs_cons {t u : Ty} {ps : List (Ty × Ty)} :
    unifyPairs call acc ((t, u) :: ps) = (do
      let s ← call (acc.apply t) (acc.apply u)
      unifyPairs call (acc.compose s) ps) := by
  rw [unifyPairs, List.foldlM_cons, bind_assoc]
  rfl

/-- A function that agrees with unification on the calls makes the pairs equal in the same way. -/
theorem unifyPairs_congr {ps : List (Ty × Ty)}
    (h : ∀ c ∈ pairCalls acc ps, call c.1 c.2 = unify c.1 c.2) :
    unifyPairs call acc ps = unifyPairs unify acc ps := by
  induction ps generalizing acc with
  | nil => rfl
  | cons p ps ih =>
    obtain ⟨t, u⟩ := p
    rw [pairCalls, List.forall_mem_cons] at h
    obtain ⟨hhead, htail⟩ := h
    rw [unifyPairs_cons, unifyPairs_cons]
    refine except_bind_congr hhead fun s hs => ih ?_
    rw [hs] at htail
    exact htail

/-- Components taken one by one, under what is settled by then, and components taken under one
substitution after the other come to the same. -/
theorem unifyPairs_zip {vs : List String} {ts us : List Ty} (hl : ts.length = us.length)
    (hacc : acc.Resolved vs) (hts : ∀ t ∈ ts, ∀ v ∈ t.vars, v ∈ vs)
    (hus : ∀ u ∈ us, ∀ v ∈ u.vars, v ∈ vs) :
    unifyPairs unify acc (ts.zip us) =
      (unifyAll (ts.map acc.apply) (us.map acc.apply) (by simpa using hl)).map acc.compose := by
  induction ts generalizing acc us with
  | nil =>
    obtain rfl := List.length_eq_zero_iff.mp hl.symm
    simp only [List.map_nil, unifyAll_nil]
    exact congrArg Except.ok (Subst.compose_empty acc).symm
  | cons t ts ih =>
    cases us with
    | nil => simp at hl
    | cons u us =>
      obtain ⟨ht, hts⟩ := List.forall_mem_cons.mp hts
      obtain ⟨hu, hus⟩ := List.forall_mem_cons.mp hus
      rw [List.zip_cons_cons, unifyPairs_cons]
      simp only [List.map_cons]
      rw [unifyAll_cons]
      cases hs : unify (acc.apply t) (acc.apply u) with
      | error e => rfl
      | ok s =>
        have hsr := unify_resolved hs
        have hd := hacc.disjoint_next hsr
        have hrest := ih (by simpa using hl) (hacc.compose_of_apply hsr ht hu) hts hus
        simp only [Subst.map_apply_compose_of_disjoint hd] at hrest
        refine hrest.trans ?_
        simp only [bind, Except.bind]
        cases hs' : unifyAll ((ts.map acc.apply).map s.apply) ((us.map acc.apply).map s.apply)
            (by simpa using hl) with
        | error e => rfl
        | ok s' =>
          -- this component and the rest have no variable in common, so they can be regrouped
          have hd' := hsr.disjoint_of_apply _ _ (unifyAll_resolved hs')
          refine congrArg Except.ok ?_
          exact Subst.compose_assoc fun _ _ _ _ _ w _ => Subst.consistentAt_of_disjoint hd' w

theorem unifyAll_eq_unifyPairs {ts us : List Ty} (hl : ts.length = us.length) :
    unifyAll ts us hl = unifyPairs unify ∅ (ts.zip us) := by
  have hvs : ∀ rs : List Ty, (∀ v ∈ Ty.varsAll rs, v ∈ Ty.varsAll ts ++ Ty.varsAll us) →
      ∀ t ∈ rs, ∀ v ∈ t.vars, v ∈ Ty.varsAll ts ++ Ty.varsAll us :=
    fun rs h t ht v hv => h v (Ty.mem_varsAll.mpr ⟨t, ht, hv⟩)
  rw [unifyPairs_zip hl (.empty (Ty.varsAll ts ++ Ty.varsAll us))
    (hvs ts fun v hv => List.mem_append_left _ hv) (hvs us fun v hv => List.mem_append_right _ hv)]
  simp only [Subst.map_apply_empty]
  cases unifyAll ts us hl with
  | error e => rfl
  | ok s => exact congrArg Except.ok (Subst.empty_compose s).symm

/-- **A round depends on nothing but its calls.** If `call` answers them as unification does, then
so does the round. -/
theorem unifyStep_eq_unify {t u : Ty} (h : ∀ c ∈ unifyCalls t u, call c.1 c.2 = unify c.1 c.2) :
    unifyStep call t u = unify t u := by
  -- the cases of unification; what is known about the calls is in `h`
  refine unify_ind (P := fun t u => (∀ c ∈ unifyCalls t u, call c.1 c.2 = unify c.1 c.2) →
      unifyStep call t u = unify t u) (Q := fun _ _ => True)
    ?self ?varLeft ?varRight ?fn ?tuple ?clash trivial (fun _ _ _ _ _ _ => trivial) t u h
  case self =>
    intro t _
    rw [unifyStep.eq_def, if_pos rfl, unify_self]
  case varLeft =>
    intro v t hne _
    rw [unifyStep.eq_def, if_neg hne, unify_var_left hne]
    rfl
  case varRight =>
    intro t v hne _
    rw [unifyStep.eq_def, if_neg (hne v), unify_var_right (hne v) hne]
    cases t with
    | var w => exact absurd rfl (hne w)
    | _ => rfl
  case fn =>
    intro p r p' r' hne _ _ h
    rw [unifyCalls.eq_def, if_neg hne] at h
    simp only [pairCalls, Subst.apply_empty, Subst.empty_compose, List.forall_mem_cons] at h
    obtain ⟨hp, hr⟩ := h
    rw [unifyStep.eq_def, if_neg hne, unify_fn hne]
    refine except_bind_congr hp fun s hs => except_bind_congr ?_ fun _ _ => rfl
    rw [hs] at hr
    exact hr _ List.mem_cons_self
  case tuple =>
    intro ts us hl hne _ h
    rw [unifyCalls.eq_def, if_neg hne] at h
    simp only [if_pos hl] at h
    rw [unifyStep.eq_def, if_neg hne, unify_tuple hne]
    simp only [if_pos hl, dif_pos hl]
    rw [unifyPairs_congr h, unifyAll_eq_unifyPairs hl]
  case clash =>
    intro t u hc _
    have hne : t ≠ u := fun heq => hc.replace_ne Ty.var (by rw [heq])
    rw [unify_clash hc, unifyStep.eq_def, if_neg hne]
    cases t <;> cases u <;> simp only [Ty.Clash] at hc
    case tuple.tuple ts us => exact if_neg hc
    all_goals rfl

end Round

/-! ## The measure of the calls -/

/-- The number of different variables of two types, and their size together. -/
def pairMeasure (c : Ty × Ty) : Nat × Nat :=
  (distinct (c.1.vars ++ c.2.vars), c.1.size + c.2.size)

/-- Parts of two types have a smaller measure than the types, under whatever is settled among the
variables of these. -/
theorem pairMeasure_apply_lt {s : Subst} {t u a b : Ty} (hs : s.Resolved (t.vars ++ u.vars))
    (ha : a ∈ t.parts) (hb : b ∈ u.parts) :
    Prod.Lex (· < ·) (· < ·) (pairMeasure (s.apply a, s.apply b)) (pairMeasure (t, u)) := by
  have hat : ∀ v ∈ a.vars, v ∈ t.vars ++ u.vars :=
    fun v hv => List.mem_append_left _ (Ty.mem_vars_of_mem_parts ha hv)
  have hbu : ∀ v ∈ b.vars, v ∈ t.vars ++ u.vars :=
    fun v hv => List.mem_append_right _ (Ty.mem_vars_of_mem_parts hb hv)
  refine measure_rest hs (fun _ hv => hv) (fun w hw => ?_) fun he => ?_
  -- the variables of the call are variables of the two types that are not settled
  · rcases List.mem_append.mp hw with hw | hw
    · obtain ⟨hm, hn⟩ := hs.mem_vars_apply hw
      exact ⟨hm.elim id (hat w), hn⟩
    · obtain ⟨hm, hn⟩ := hs.mem_vars_apply hw
      exact ⟨hm.elim id (hbu w), hn⟩
  -- if none is settled, then the parts are as they were
  · have hsa := Ty.size_lt_of_mem_parts ha
    have hsb := Ty.size_lt_of_mem_parts hb
    subst he
    simp only [Subst.apply_empty]
    omega

theorem pairMeasure_pairCalls_lt {acc : Subst} {t u : Ty} {ps : List (Ty × Ty)}
    (hacc : acc.Resolved (t.vars ++ u.vars)) (hps : ∀ p ∈ ps, p.1 ∈ t.parts ∧ p.2 ∈ u.parts) :
    ∀ c ∈ pairCalls acc ps, Prod.Lex (· < ·) (· < ·) (pairMeasure c) (pairMeasure (t, u)) := by
  induction ps generalizing acc with
  | nil =>
    intro c hc
    cases hc
  | cons p ps ih =>
    obtain ⟨a, b⟩ := p
    obtain ⟨⟨ha, hb⟩, hps⟩ := List.forall_mem_cons.mp hps
    rw [pairCalls, List.forall_mem_cons]
    refine ⟨pairMeasure_apply_lt hacc ha hb, ?_⟩
    cases hs : unify (acc.apply a) (acc.apply b) with
    | error e =>
      intro c hc
      cases hc
    | ok s =>
      refine ih (hacc.compose_of_apply (unify_resolved hs) (fun v hv => ?_) fun v hv => ?_) hps
      · exact List.mem_append_left _ (Ty.mem_vars_of_mem_parts ha hv)
      · exact List.mem_append_right _ (Ty.mem_vars_of_mem_parts hb hv)

/-- **Every call has a smaller measure** than the types that it is made for. -/
theorem pairMeasure_unifyCalls_lt {t u : Ty} :
    ∀ c ∈ unifyCalls t u, Prod.Lex (· < ·) (· < ·) (pairMeasure c) (pairMeasure (t, u)) := by
  intro c hc
  rw [unifyCalls.eq_def] at hc
  split at hc
  next => cases hc
  next =>
    split at hc
    next p r p' r' =>
      refine pairMeasure_pairCalls_lt (.empty _) ?_ c hc
      simp [Ty.parts]
    next ts us =>
      split at hc
      next =>
        refine pairMeasure_pairCalls_lt (.empty _) ?_ c hc
        rintro ⟨a, b⟩ hab
        exact List.of_mem_zip hab
      next => cases hc
    next => cases hc

theorem unifyCalls_wellFounded :
    WellFounded fun c d : Ty × Ty => c ∈ unifyCalls d.1 d.2 :=
  Subrelation.wf (fun hc => pairMeasure_unifyCalls_lt _ hc)
    (InvImage.wf pairMeasure (Nat.lt_wfRel.wf.prod_lex Nat.lt_wfRel.wf))

/-! ## Termination -/

/-- **The calls of two types are nested up to some depth only.** After so many rounds the answer is
that of unification, whatever takes the place of the calls that are left. -/
theorem exists_unify_depth (t u : Ty) :
    ∃ d, ∀ n, d ≤ n → ∀ call, unifyStep^[n] call t u = unify t u := by
  refine unifyCalls_wellFounded.induction
    (C := fun c => ∃ d, ∀ n, d ≤ n → ∀ call, unifyStep^[n] call c.1 c.2 = unify c.1 c.2) (t, u) ?_
  rintro ⟨t, u⟩ ih
  -- there are finitely many calls, so one depth is enough for all of them
  obtain ⟨d, hd⟩ : ∃ d, ∀ n, d ≤ n → ∀ c ∈ unifyCalls t u, ∀ call,
      unifyStep^[n] call c.1 c.2 = unify c.1 c.2 := by
    rw [← Filter.eventually_atTop]
    refine (Filter.eventually_all_finite (List.finite_toSet (unifyCalls t u))).mpr fun c hc => ?_
    exact Filter.eventually_atTop.mpr (ih c hc)
  refine ⟨d + 1, fun n hn call => ?_⟩
  obtain ⟨m, rfl⟩ : ∃ m, n = m + 1 := ⟨n - 1, by omega⟩
  rw [Function.iterate_succ_apply']
  exact unifyStep_eq_unify fun c hc => hd m (by omega) c hc call

/-- Unification is the only function that one round leaves as it is. -/
theorem unifyStep_eq_self_iff {call : Ty → Ty → Except TypeError Subst} :
    unifyStep call = call ↔ call = unify := by
  constructor
  · intro h
    funext t u
    obtain ⟨d, hd⟩ := exists_unify_depth t u
    rw [← hd d (Nat.le_refl d) call, Function.iterate_fixed h]
  · rintro rfl
    funext t u
    exact unifyStep_eq_unify fun _ _ => rfl

/-- **Unification terminates.** Every call that it makes of itself, also under what other calls have
settled, has fewer different variables, or as many and a smaller size; so calls cannot follow each
other for ever. A round depends on nothing but these calls, unification is the only function that a
round leaves as it is, and for every two types finitely many rounds give its answer, whatever takes
the place of the calls that are left. -/
theorem unify_terminates :
    (∀ t u, ∀ c ∈ unifyCalls t u,
      Prod.Lex (· < ·) (· < ·) (pairMeasure c) (pairMeasure (t, u))) ∧
    (WellFounded fun c d : Ty × Ty => c ∈ unifyCalls d.1 d.2) ∧
    (∀ call t u, (∀ c ∈ unifyCalls t u, call c.1 c.2 = unify c.1 c.2) →
      unifyStep call t u = unify t u) ∧
    (∀ call, unifyStep call = call ↔ call = unify) ∧
    ∀ t u, ∃ d, ∀ n, d ≤ n → ∀ call, unifyStep^[n] call t u = unify t u :=
  ⟨fun _ _ => pairMeasure_unifyCalls_lt, unifyCalls_wellFounded,
    fun _ _ _ => unifyStep_eq_unify, fun _ => unifyStep_eq_self_iff, exists_unify_depth⟩

/-- For `a -> (a, a, a)` and `(b, b) -> c`, the second call is made for types that are larger than
those at the start, since `a` has been replaced; but `a` is gone. -/
theorem unify_terminates_growing :
    unifyCalls (.fn (.var "a") (.tuple [.var "a", .var "a", .var "a"]))
      (.fn (.tuple [.var "b", .var "b"]) (.var "c")) =
      [(.var "a", .tuple [.var "b", .var "b"]),
        (.tuple [.tuple [.var "b", .var "b"], .tuple [.var "b", .var "b"],
          .tuple [.var "b", .var "b"]], .var "c")] ∧
    Prod.Lex (· < ·) (· < ·)
      (pairMeasure (.tuple [.tuple [.var "b", .var "b"], .tuple [.var "b", .var "b"],
        .tuple [.var "b", .var "b"]], .var "c"))
      (pairMeasure (.fn (.var "a") (.tuple [.var "a", .var "a", .var "a"]),
        .fn (.tuple [.var "b", .var "b"]) (.var "c"))) ∧
    pairMeasure (.tuple [.tuple [.var "b", .var "b"], .tuple [.var "b", .var "b"],
      .tuple [.var "b", .var "b"]], .var "c") = (2, 20) ∧
    pairMeasure (.fn (.var "a") (.tuple [.var "a", .var "a", .var "a"]),
      .fn (.tuple [.var "b", .var "b"]) (.var "c")) = (3, 16) ∧
    unifyStep unify (.fn (.var "a") (.tuple [.var "a", .var "a", .var "a"]))
      (.fn (.tuple [.var "b", .var "b"]) (.var "c")) =
      unify (.fn (.var "a") (.tuple [.var "a", .var "a", .var "a"]))
        (.fn (.tuple [.var "b", .var "b"]) (.var "c")) := by
  have hparam : unify (.var "a") (.tuple [.var "b", .var "b"]) =
      .ok (.singleton "a" (.tuple [.var "b", .var "b"])) := unify_var_left nofun
  have hresult : unify (.tuple [.tuple [.var "b", .var "b"], .tuple [.var "b", .var "b"],
      .tuple [.var "b", .var "b"]]) (.var "c") =
      .ok (.singleton "c" (.tuple [.tuple [.var "b", .var "b"], .tuple [.var "b", .var "b"],
        .tuple [.var "b", .var "b"]])) := unify_var_right nofun nofun
  have hcalls : unifyCalls (.fn (.var "a") (.tuple [.var "a", .var "a", .var "a"]))
      (.fn (.tuple [.var "b", .var "b"]) (.var "c")) =
      [(.var "a", .tuple [.var "b", .var "b"]),
        (.tuple [.tuple [.var "b", .var "b"], .tuple [.var "b", .var "b"],
          .tuple [.var "b", .var "b"]], .var "c")] := by
    have happly : Subst.apply (.singleton "a" (.tuple [.var "b", .var "b"]))
        (.tuple [.var "a", .var "a", .var "a"]) =
        .tuple [.tuple [.var "b", .var "b"], .tuple [.var "b", .var "b"],
          .tuple [.var "b", .var "b"]] := rfl
    have hother : Subst.apply (.singleton "a" (.tuple [.var "b", .var "b"])) (.var "c") =
        .var "c" := rfl
    rw [unifyCalls.eq_def, if_neg (by simp)]
    simp only [pairCalls, Subst.apply_empty, hparam, Subst.empty_compose, happly, hother, hresult]
  refine ⟨hcalls, unify_terminates.1 _ _ _ ?_, rfl, rfl, ?_⟩
  · rw [hcalls]
    exact List.mem_cons_of_mem _ List.mem_cons_self
  · exact unify_terminates.2.2.1 unify _ _ fun _ _ => rfl

end PolyLet
