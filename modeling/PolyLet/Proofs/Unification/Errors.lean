import PolyLet.Proofs.Unification.Calls

/-!
# Where unification fails

If two types cannot be made equal, unification names two parts that are to blame. They stand at the
same position of the two types, on the side on which they are named, once everything to the left of
that position has been made equal in the most general way. So an error never depends on what comes
after it, and never on a choice that was made before it.

## Main definitions

* `Ty.part? p t`: the part of the type `t` at the position `p`
* `Ty.AgreeBefore p t u`: the types `t` and `u` are the same to the left of the position `p`
* `Subst.SolvesBefore r t u p`: the substitution `r` makes `t` and `u` equal to the left of `p`, in
  the most general way
* `TypeError.Describes e a b`: the error `e` says why `a` and `b` cannot be made equal
* `TypeError.LocatedAt e t u p`: the error `e` describes the parts at the position `p`

## Main results

* `TypeError.LocatedAt.head`, `TypeError.LocatedAt.tail`: errors in the first component and in those
  after it
* `exists_locatedAt_of_unify`: every error of unification is located somewhere
* `unify_error_genuine`: errors name what stands there, on the right side
-/

namespace PolyLet

/-! ## Positions -/

namespace Ty

/-- The part of a type at a position, which says at every step to which of the parts to go. -/
def part? : List Nat → Ty → Option Ty
  | [], t => some t
  | i :: p, t => t.parts[i]?.bind (part? p)

/-- Two types are the same to the left of a position: of the parts at each step, those before the
one to go to are the same. -/
def AgreeBefore : List Nat → Ty → Ty → Prop
  | [], _, _ => True
  | i :: p, t, u => t.parts.take i = u.parts.take i ∧
      ∀ a b, t.parts[i]? = some a → u.parts[i]? = some b → AgreeBefore p a b

variable {t u : Ty} {ts us : List Ty} {i : Nat} {p : List Nat}

theorem part?_head : (tuple (t :: ts)).part? (0 :: p) = t.part? p := rfl

theorem part?_tail : (tuple (t :: ts)).part? ((i + 1) :: p) = (tuple ts).part? (i :: p) := rfl

theorem agreeBefore_head :
    AgreeBefore (0 :: p) (tuple (t :: ts)) (tuple (u :: us)) ↔ AgreeBefore p t u := by
  simp [AgreeBefore, parts]

theorem agreeBefore_tail :
    AgreeBefore ((i + 1) :: p) (tuple (t :: ts)) (tuple (u :: us)) ↔
      t = u ∧ AgreeBefore (i :: p) (tuple ts) (tuple us) := by
  simp only [AgreeBefore, parts, List.take_succ_cons, List.cons.injEq, List.getElem?_cons_succ,
    and_assoc]

end Ty

/-! ## Solutions up to a position -/

/-- The substitution makes the two types equal to the left of the position. It speaks about their
variables only, and every replacement that makes them equal there absorbs it. -/
structure Subst.SolvesBefore (r : Subst) (t u : Ty) (p : List Nat) : Prop where
  resolved : r.Resolved (t.vars ++ u.vars)
  agree : Ty.AgreeBefore p (r.apply t) (r.apply u)
  general : ∀ f : String → Ty, Ty.AgreeBefore p (t.replace f) (u.replace f) → r.AbsorbedBy f

namespace Subst.SolvesBefore

variable {r s : Subst} {t u : Ty} {ts us : List Ty} {i : Nat} {p : List Nat}

/-- To the left of everything there is nothing to solve. -/
theorem root (t u : Ty) : Subst.SolvesBefore ∅ t u [] where
  resolved := .empty _
  agree := trivial
  general f _ := .empty f

theorem head (h : r.SolvesBefore t u p) :
    r.SolvesBefore (.tuple (t :: ts)) (.tuple (u :: us)) (0 :: p) where
  resolved := by
    refine h.resolved.mono fun v hv => ?_
    simp only [Ty.vars, Ty.varsAll, List.mem_append] at hv ⊢
    exact hv.imp .inl .inl
  agree := by
    rw [apply_tuple, apply_tuple, List.map_cons, List.map_cons, Ty.agreeBefore_head]
    exact h.agree
  general f hf := by
    rw [Ty.replace_tuple, Ty.replace_tuple, List.map_cons, List.map_cons, Ty.agreeBefore_head] at hf
    exact h.general f hf

/-- A solution for the components that are left, after what makes the first ones equal. -/
theorem tail (hs : unify t u = .ok s)
    (h : r.SolvesBefore (.tuple (ts.map s.apply)) (.tuple (us.map s.apply)) (i :: p)) :
    (s.compose r).SolvesBefore (.tuple (t :: ts)) (.tuple (u :: us)) ((i + 1) :: p) := by
  have hsr := unify_resolved hs
  have hd : ∀ v ∈ r.names, v ∉ s.names := hsr.disjoint_of_apply ts us h.resolved
  refine ⟨?_, ?_, ?_⟩
  · refine hsr.compose h.resolved (fun v hv => ?_) hsr.rest_cons
    simp only [Ty.vars, Ty.varsAll, List.mem_append] at hv ⊢
    exact hv.imp .inl .inl
  · have hrest := h.agree
    simp only [apply_tuple] at hrest
    simp only [apply_compose_of_disjoint hd, apply_tuple, List.map_cons, Ty.agreeBefore_tail,
      unify_unifies hs, true_and]
    exact hrest
  · intro f hf
    simp only [Ty.replace_tuple, List.map_cons, Ty.agreeBefore_tail] at hf
    obtain ⟨hfirst, hrest⟩ := hf
    -- what makes the first components equal absorbs their most general solution
    obtain ⟨s', hs', habs⟩ := unify_of_replace_eq hfirst
    obtain rfl : s = s' := Except.ok.inj (hs.symm.trans hs')
    refine habs.compose (h.general f ?_)
    simpa only [Ty.replace_tuple, List.map_map, Function.comp_def, habs.replace_apply] using hrest

end Subst.SolvesBefore

/-! ## Errors at a position -/

/-- The error says why the first type and the second one cannot be made equal: they clash, or one of
them is a variable that the other one mentions without being it. -/
inductive TypeError.Describes : TypeError → Ty → Ty → Prop
  | mismatch {a b : Ty} (h : a.Clash b) : Describes (.mismatch a b) a b
  | infiniteLeft {v : String} {t : Ty} (hv : v ∈ t.vars) (hne : t ≠ .var v) :
      Describes (.infiniteType v t) (.var v) t
  | infiniteRight {v : String} {t : Ty} (hv : v ∈ t.vars) (hne : t ≠ .var v) :
      Describes (.infiniteType v t) t (.var v)

/-- The error describes the parts of the two types at the position, once everything to the left of
it has been made equal. -/
def TypeError.LocatedAt (e : TypeError) (t u : Ty) (p : List Nat) : Prop :=
  ∃ r a b, Subst.SolvesBefore r t u p ∧ (r.apply t).part? p = some a ∧
    (r.apply u).part? p = some b ∧ e.Describes a b

namespace TypeError.LocatedAt

variable {e : TypeError} {s : Subst} {t u : Ty} {ts us : List Ty} {i : Nat} {p : List Nat}

theorem root (h : e.Describes t u) : e.LocatedAt t u [] :=
  ⟨∅, t, u, .root t u, by rw [Subst.apply_empty]; rfl, by rw [Subst.apply_empty]; rfl, h⟩

theorem head (h : e.LocatedAt t u p) :
    e.LocatedAt (.tuple (t :: ts)) (.tuple (u :: us)) (0 :: p) := by
  obtain ⟨r, a, b, hr, ha, hb, hab⟩ := h
  refine ⟨r, a, b, hr.head, ?_, ?_, hab⟩
  · rw [Subst.apply_tuple, List.map_cons, Ty.part?_head, ha]
  · rw [Subst.apply_tuple, List.map_cons, Ty.part?_head, hb]

theorem tail (hs : unify t u = .ok s)
    (h : e.LocatedAt (.tuple (ts.map s.apply)) (.tuple (us.map s.apply)) (i :: p)) :
    e.LocatedAt (.tuple (t :: ts)) (.tuple (u :: us)) ((i + 1) :: p) := by
  obtain ⟨r, a, b, hr, ha, hb, hab⟩ := h
  have hd : ∀ v ∈ r.names, v ∉ s.names := (unify_resolved hs).disjoint_of_apply ts us hr.resolved
  refine ⟨s.compose r, a, b, hr.tail hs, ?_, ?_, hab⟩
  · rw [Subst.apply_tuple, List.map_cons, Ty.part?_tail, Subst.map_apply_compose_of_disjoint hd,
      ← Subst.apply_tuple, ha]
  · rw [Subst.apply_tuple, List.map_cons, Ty.part?_tail, Subst.map_apply_compose_of_disjoint hd,
      ← Subst.apply_tuple, hb]

/-- A function has its parameter and its result for parts, as a pair has its components. -/
theorem fn {q r q' r' : Ty} (h : e.LocatedAt (.tuple [q, r]) (.tuple [q', r']) (i :: p)) :
    e.LocatedAt (.fn q r) (.fn q' r') (i :: p) := by
  obtain ⟨s, a, b, ⟨hres, hag, hgen⟩, ha, hb, hab⟩ := h
  refine ⟨s, a, b, ⟨?_, hag, hgen⟩, ha, hb, hab⟩
  simpa only [Ty.vars, Ty.varsAll, List.append_nil] using hres

end TypeError.LocatedAt

/-! ## The errors of unification -/

theorem describes_of_giveVar {v : String} {t : Ty} {e : TypeError} (hne : t ≠ .var v)
    (h : giveVar v t = .error e) : e.Describes (.var v) t ∧ e.Describes t (.var v) := by
  rw [giveVar] at h
  split at h
  next hm =>
    obtain rfl := Except.error.inj h
    have hv : v ∈ t.vars := Ty.mentions_iff.mp hm
    exact ⟨.infiniteLeft hv hne, .infiniteRight hv hne⟩
  next => cases h

/-- **Every error of unification is located somewhere.** -/
theorem exists_locatedAt_of_unify {t u : Ty} {e : TypeError} (h : unify t u = .error e) :
    ∃ p, e.LocatedAt t u p := by
  -- for lists: the position begins with the component in which the error is
  refine unify_ind (P := fun t u => ∀ e, unify t u = .error e → ∃ p, e.LocatedAt t u p)
    (Q := fun ts us => ∀ hl e, unifyAll ts us hl = .error e →
      ∃ i p, e.LocatedAt (.tuple ts) (.tuple us) (i :: p))
    ?self ?varLeft ?varRight ?fn ?tuple ?clash ?nil ?cons t u e h
  case self =>
    intro t e h
    rw [unify_self] at h
    cases h
  case varLeft =>
    intro v t hne e h
    rw [unify_var_left hne] at h
    exact ⟨[], .root (describes_of_giveVar (Ne.symm hne) h).1⟩
  case varRight =>
    intro t v hne e h
    rw [unify_var_right (hne v) hne] at h
    exact ⟨[], .root (describes_of_giveVar (hne v) h).2⟩
  case fn =>
    intro q r q' r' hne hq hr e h
    rw [unify_fn hne] at h
    rcases except_bind_eq_error_iff.mp h with h | ⟨s, hs, h⟩
    · obtain ⟨p, hp⟩ := hq e h
      exact ⟨0 :: p, hp.head.fn⟩
    · rcases except_bind_eq_error_iff.mp h with h | ⟨s', -, h⟩
      · obtain ⟨p, hp⟩ := hr s hs e h
        exact ⟨1 :: p, (TypeError.LocatedAt.tail hs hp.head).fn⟩
      · cases h
  case tuple =>
    intro ts us hl hne hQ e h
    rw [unify_tuple hne, dif_pos hl] at h
    obtain ⟨i, p, hp⟩ := hQ hl e h
    exact ⟨i :: p, hp⟩
  case clash =>
    intro t u hc e h
    rw [unify_clash hc] at h
    obtain rfl := Except.error.inj h
    exact ⟨[], .root (.mismatch hc)⟩
  case nil =>
    intro _ e h
    rw [unifyAll_nil] at h
    cases h
  case cons =>
    intro t ts u us hP hQ hl e h
    rw [unifyAll_cons] at h
    rcases except_bind_eq_error_iff.mp h with h | ⟨s, hs, h⟩
    · obtain ⟨p, hp⟩ := hP e h
      exact ⟨0, p, hp.head⟩
    · rcases except_bind_eq_error_iff.mp h with h | ⟨s', -, h⟩
      · obtain ⟨i, p, hp⟩ := hQ s hs _ e h
        exact ⟨i + 1, p, hp.tail hs⟩
      · cases h

/-- **The errors of unification are genuine, and the right way round.** A mismatch names two parts
that stand at one position of the two types, the expected one in the first and the found one in the
second type, and whose shapes clash. An infinite type is a variable and a part at one position, on
either side, where the part mentions the variable without being it. What makes this visible is a
most general solution for all that stands to the left of the position. There are no other errors. -/
theorem unify_error_genuine (t u : Ty) :
    (∀ a b, unify t u = .error (.mismatch a b) →
      ∃ (r : Subst) (p : List Nat), r.SolvesBefore t u p ∧
        (r.apply t).part? p = some a ∧ (r.apply u).part? p = some b ∧ a.Clash b) ∧
    (∀ v w, unify t u = .error (.infiniteType v w) →
      ∃ (r : Subst) (p : List Nat), r.SolvesBefore t u p ∧
        ((r.apply t).part? p = some (.var v) ∧ (r.apply u).part? p = some w ∨
          (r.apply t).part? p = some w ∧ (r.apply u).part? p = some (.var v)) ∧
        v ∈ w.vars ∧ w ≠ .var v) ∧
    ∀ e, unify t u = .error e → (∃ a b, e = .mismatch a b) ∨ ∃ v w, e = .infiniteType v w := by
  refine ⟨fun a b h => ?_, fun v w h => ?_, fun e h => ?_⟩
  · obtain ⟨p, r, a', b', hr, ha, hb, hab⟩ := exists_locatedAt_of_unify h
    cases hab with
    | mismatch hc => exact ⟨r, p, hr, ha, hb, hc⟩
  · obtain ⟨p, r, a, b, hr, ha, hb, hab⟩ := exists_locatedAt_of_unify h
    cases hab with
    | infiniteLeft hv hne => exact ⟨r, p, hr, .inl ⟨ha, hb⟩, hv, hne⟩
    | infiniteRight hv hne => exact ⟨r, p, hr, .inr ⟨ha, hb⟩, hv, hne⟩
  · obtain ⟨p, r, a, b, -, -, -, hab⟩ := exists_locatedAt_of_unify h
    cases hab with
    | mismatch => exact .inl ⟨a, b, rfl⟩
    | infiniteLeft => exact .inr ⟨_, _, rfl⟩
    | infiniteRight => exact .inr ⟨_, _, rfl⟩

/-- In the pairs of `a` and `a -> Int` and of `Bool` and `Bool -> Bool`, the result of the function
is wrong once `a` is known; in those of `a` and `b` and of `b -> Int` and `a`, the variable `b`
would have to be a function from itself. -/
theorem unify_error_genuine_pair :
    unify (.tuple [.var "a", .fn (.var "a") .int]) (.tuple [.bool, .fn .bool .bool]) =
      .error (.mismatch .int .bool) ∧
    (∃ (r : Subst) (p : List Nat),
      r.SolvesBefore (.tuple [.var "a", .fn (.var "a") .int]) (.tuple [.bool, .fn .bool .bool]) p ∧
      (r.apply (.tuple [.var "a", .fn (.var "a") .int])).part? p = some .int ∧
      (r.apply (.tuple [.bool, .fn .bool .bool])).part? p = some .bool ∧ Ty.int.Clash .bool) ∧
    unify (.tuple [.var "a", .var "b"]) (.tuple [.fn (.var "b") .int, .var "a"]) =
      .error (.infiniteType "b" (.fn (.var "b") .int)) ∧
    ∃ (r : Subst) (p : List Nat),
      r.SolvesBefore (.tuple [.var "a", .var "b"]) (.tuple [.fn (.var "b") .int, .var "a"]) p ∧
      ((r.apply (.tuple [.var "a", .var "b"])).part? p = some (.var "b") ∧
        (r.apply (.tuple [.fn (.var "b") .int, .var "a"])).part? p =
          some (.fn (.var "b") .int) ∨
        (r.apply (.tuple [.var "a", .var "b"])).part? p = some (.fn (.var "b") .int) ∧
        (r.apply (.tuple [.fn (.var "b") .int, .var "a"])).part? p = some (.var "b")) ∧
      "b" ∈ (Ty.fn (.var "b") .int).vars ∧ Ty.fn (.var "b") .int ≠ .var "b" := by
  have hbool : unify (.var "a") .bool = .ok (.singleton "a" .bool) := unify_var_left nofun
  have hclash : unify (.fn .bool .int) (.fn .bool .bool) = .error (.mismatch .int .bool) := by
    rw [unify_fn (by simp), unify_self]
    show (unify .int .bool >>= fun s => .ok (Subst.compose ∅ s)) = _
    rw [unify_clash (by trivial)]
    rfl
  have hmismatch : unify (.tuple [.var "a", .fn (.var "a") .int])
      (.tuple [.bool, .fn .bool .bool]) = .error (.mismatch .int .bool) := by
    rw [unify_tuple (by simp)]
    refine (dif_pos rfl).trans ?_
    rw [unifyAll_cons, hbool]
    show (unifyAll [.fn .bool .int] [.fn .bool .bool] rfl >>= fun s =>
      .ok (Subst.compose (.singleton "a" .bool) s)) = _
    rw [unifyAll_cons, hclash]
    rfl
  have hfn : unify (.var "a") (.fn (.var "b") .int) =
      .ok (.singleton "a" (.fn (.var "b") .int)) := unify_var_left nofun
  have hoccurs : unify (.var "b") (.fn (.var "b") .int) =
      .error (.infiniteType "b" (.fn (.var "b") .int)) := unify_var_left nofun
  have hinfinite : unify (.tuple [.var "a", .var "b"]) (.tuple [.fn (.var "b") .int, .var "a"]) =
      .error (.infiniteType "b" (.fn (.var "b") .int)) := by
    rw [unify_tuple (by simp)]
    refine (dif_pos rfl).trans ?_
    rw [unifyAll_cons, hfn]
    show (unifyAll [.var "b"] [.fn (.var "b") .int] rfl >>= fun s =>
      .ok (Subst.compose (.singleton "a" (.fn (.var "b") .int)) s)) = _
    rw [unifyAll_cons, hoccurs]
    rfl
  exact ⟨hmismatch, (unify_error_genuine _ _).1 _ _ hmismatch, hinfinite,
    (unify_error_genuine _ _).2.1 _ _ hinfinite⟩

end PolyLet
