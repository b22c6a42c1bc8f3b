import PolyLet.Proofs.Binding
import PolyLet.Proofs.Unification.Errors

/-!
# What a pattern binds

A pattern binds its names to the parts of a scheme, and changes nothing else. A name that occurs
more than once is bound to the part at its rightmost place: the components of a tuple are bound one
after the other, each in the environment that the ones before it leave. The quantifiers are filtered
anew at every level, but what a part drops it does not mention, so in the end a part has those
quantifiers of the whole scheme that it mentions.

## Main definitions

* `Pattern.part? q p`: the part of the pattern `p` at the position `q`
* `Pattern.LastAt p x q`: the rightmost place of the name `x` in the pattern `p` is `q`
* `Scheme.part? σ q`: the part of the scheme `σ` at the position `q`

## Main results

* `Scheme.part?_cons`: a part of a component is a part of the whole
* `Env.get?_bind_of_not_mem`: binding a pattern changes its own names only
* `Env.get?_bind_of_mem`: a name is bound to the part of the scheme at its rightmost place
* `Env.mem_names_bind`: the names after binding
* `Env.bind_lookup`: all look-ups after binding
-/

namespace PolyLet

variable {x : String} {i : Nat} {q : List Nat}

/-! ## Positions in patterns -/

namespace Pattern

variable {p : Pattern} {ps : List Pattern}

/-- The part of a pattern at a position, which says at every step to which component to go. -/
def part? : List Nat → Pattern → Option Pattern
  | [], p => some p
  | i :: q, tuple ps => ps[i]?.bind (part? q)
  | _ :: _, var _ => none

theorem part?_head : (tuple (p :: ps)).part? (0 :: q) = p.part? q := rfl

theorem part?_tail : (tuple (p :: ps)).part? ((i + 1) :: q) = (tuple ps).part? (i :: q) := rfl

theorem mem_names_of_part? (h : p.part? q = some (var x)) : x ∈ p.names := by
  induction q generalizing p with
  | nil =>
    obtain rfl : p = var x := Option.some.inj h
    exact List.mem_singleton_self x
  | cons i q ih =>
    cases p with
    | var y => cases h
    | tuple ps =>
      obtain ⟨p, hp, hx⟩ := Option.bind_eq_some_iff.mp h
      rw [names, namesAll_eq_flatMap]
      exact List.mem_flatMap.mpr ⟨p, List.mem_of_getElem? hp, ih hx⟩

/-- The name stands at the position, and at all its other positions further to the left. -/
structure LastAt (p : Pattern) (x : String) (q : List Nat) : Prop where
  leaf : p.part? q = some (var x)
  last : ∀ q', p.part? q' = some (var x) → q' = q ∨ List.Lex (· < ·) q' q

namespace LastAt

theorem root (x : String) : (var x).LastAt x [] where
  leaf := rfl
  last q' hq' := by
    cases q' with
    | nil => exact .inl rfl
    | cons j q' => cases hq'

/-- The last place in the first component, if the name is in no other one. -/
theorem head (h : p.LastAt x q) (hps : x ∉ namesAll ps) : (tuple (p :: ps)).LastAt x (0 :: q) where
  leaf := h.leaf
  last q' hq' := by
    rcases q' with _ | ⟨_ | j, q'⟩
    · cases hq'
    · exact (h.last q' hq').imp (congrArg (0 :: ·)) .cons
    · rw [part?_tail] at hq'
      exact absurd (mem_names_of_part? hq') hps

/-- The last place in the components after the first one, whatever the first one is. -/
theorem tail (h : (tuple ps).LastAt x (i :: q)) : (tuple (p :: ps)).LastAt x ((i + 1) :: q) where
  leaf := h.leaf
  last q' hq' := by
    rcases q' with _ | ⟨_ | j, q'⟩
    · cases hq'
    -- what is in the first component is further to the left
    · exact .inr (.rel (Nat.succ_pos i))
    · rcases h.last (j :: q') hq' with heq | hlex
      · obtain ⟨rfl, rfl⟩ := List.cons.inj heq
        exact .inl rfl
      · cases hlex with
        | rel hlt => exact .inr (.rel (Nat.succ_lt_succ hlt))
        | cons hlex => exact .inr (.cons hlex)

end LastAt

end Pattern

/-! ## Parts of schemes -/

theorem Ty.mem_vars_of_part? {t u : Ty} {v : String} (h : t.part? q = some u) (hv : v ∈ u.vars) :
    v ∈ t.vars := by
  induction q generalizing t with
  | nil =>
    obtain rfl : t = u := Option.some.inj h
    exact hv
  | cons i q ih =>
    obtain ⟨t', ht', hu⟩ := Option.bind_eq_some_iff.mp h
    exact mem_vars_of_mem_parts (List.mem_of_getElem? ht') (ih hu)

namespace Scheme

variable {σ τ : Scheme}

/-- The part of a scheme at a position. Below the root it keeps the quantifiers that it mentions. -/
def part? (σ : Scheme) : List Nat → Option Scheme
  | [] => some σ
  | i :: q => (σ.body.part? (i :: q)).map σ.component

theorem component_component {t u : Ty} (h : ∀ v ∈ u.vars, v ∈ t.vars) :
    (σ.component t).component u = σ.component u := by
  have hvars : (σ.vars.filter t.mentions).filter u.mentions = σ.vars.filter u.mentions := by
    ext v
    simp only [NameSet.mem_filter, Ty.mentions_iff]
    constructor
    · rintro ⟨⟨hσ, -⟩, hu⟩
      exact ⟨hσ, hu⟩
    · rintro ⟨hσ, hu⟩
      exact ⟨⟨hσ, h v hu⟩, hu⟩
  rw [component, component, component, hvars]

/-- A part of a component is a part of the whole: the quantifiers that the component drops would be
dropped further down. -/
theorem part?_cons {ts : List Ty} {t : Ty} (hb : σ.body = .tuple ts) (ht : ts[i]? = some t) :
    σ.part? (i :: q) = (σ.component t).part? q := by
  have hbody : σ.body.part? (i :: q) = t.part? q := by
    rw [hb, Ty.part?, Ty.parts, ht, Option.bind_some]
  rw [part?, hbody]
  cases q with
  | nil => rfl
  | cons j q =>
    rw [part?]
    refine Option.map_congr fun u hu => ?_
    exact (component_component fun v hv => Ty.mem_vars_of_part? hu hv).symm

theorem PartOf.of_part? (h : σ.part? q = some τ) : τ.PartOf σ := by
  cases q with
  | nil =>
    obtain rfl : σ = τ := Option.some.inj h
    exact .refl σ
  | cons i q =>
    obtain ⟨t, ht, rfl⟩ := Option.map_eq_some_iff.mp h
    exact .component_of_vars fun v hv => Ty.mem_vars_of_part? ht hv

end Scheme

/-! ## Look-ups after binding -/

namespace Env

variable {env env' : Env} {p : Pattern} {ps : List Pattern} {σ : Scheme} {ts : List Ty}

/-- The components of a tuple change their own names only, if each of them does. -/
theorem get?_bindAll_of_not_mem
    (ih : ∀ p ∈ ps, ∀ (env env' : Env) (σ : Scheme), env.bind p σ = .ok env' → x ∉ p.names →
      env'.get? x = env.get? x)
    (h : env.bindAll σ ps ts = .ok env') (hx : x ∉ Pattern.namesAll ps) :
    env'.get? x = env.get? x := by
  induction ps generalizing env ts with
  | nil =>
    rw [bindAll_nil_left] at h
    rw [Except.ok.inj h]
  | cons p ps ihs =>
    cases ts with
    | nil =>
      rw [bindAll_nil_right] at h
      rw [Except.ok.inj h]
    | cons t ts =>
      rw [Pattern.namesAll, List.mem_append, not_or] at hx
      obtain ⟨env₁, hp, hps⟩ := bindAll_cons_eq_ok_iff.mp h
      rw [ihs (fun q hq => ih q (List.mem_cons_of_mem p hq)) hps hx.2]
      exact ih p List.mem_cons_self env env₁ _ hp hx.1

/-- **Binding a pattern changes its own names only.** -/
theorem get?_bind_of_not_mem (h : env.bind p σ = .ok env') (hx : x ∉ p.names) :
    env'.get? x = env.get? x := by
  induction p using Pattern.ind generalizing env env' σ with
  | var y =>
    obtain rfl := Except.ok.inj h
    rw [NameMap.get?_insert, if_neg fun heq => hx (List.mem_singleton.mpr heq.symm)]
  | tuple ps ih =>
    obtain ⟨ts, -, -, h⟩ := bind_tuple_eq_ok_iff.mp h
    exact get?_bindAll_of_not_mem (fun p hp _ _ _ => ih p hp) h hx

/-- In the components of a tuple, a name is bound to a part of the component of its last place, if
each of them binds it to its last place. -/
theorem get?_bindAll_of_mem
    (ih : ∀ p ∈ ps, ∀ (env env' : Env) (σ : Scheme), env.bind p σ = .ok env' → x ∈ p.names →
      ∃ q τ, p.LastAt x q ∧ σ.part? q = some τ ∧ env'.get? x = some τ)
    (hl : ts.length = ps.length) (h : env.bindAll σ ps ts = .ok env')
    (hx : x ∈ Pattern.namesAll ps) :
    ∃ i q t τ, (Pattern.tuple ps).LastAt x (i :: q) ∧ ts[i]? = some t ∧
      (σ.component t).part? q = some τ ∧ env'.get? x = some τ := by
  induction ps generalizing env ts with
  | nil => cases hx
  | cons p ps ihs =>
    cases ts with
    | nil => cases hl
    | cons t ts =>
      obtain ⟨env₁, hp, hps⟩ := bindAll_cons_eq_ok_iff.mp h
      by_cases hrest : x ∈ Pattern.namesAll ps
      -- a later component binds the name, perhaps again
      · obtain ⟨i, q, u, τ, hlast, hu, hpart, hget⟩ :=
          ihs (fun q hq => ih q (List.mem_cons_of_mem p hq)) (Nat.succ.inj hl) hps hrest
        exact ⟨i + 1, q, u, τ, hlast.tail, hu, hpart, hget⟩
      -- what the first component binds it to is not changed any more
      · have hx : x ∈ p.names := (List.mem_append.mp hx).resolve_right hrest
        obtain ⟨q, τ, hlast, hpart, hget⟩ := ih p List.mem_cons_self env env₁ _ hp hx
        refine ⟨0, q, t, τ, hlast.head hrest, rfl, hpart, ?_⟩
        rw [get?_bindAll_of_not_mem (fun _ _ _ _ _ => get?_bind_of_not_mem) hps hrest, hget]

/-- **A name is bound to the part of the scheme at its rightmost place.** -/
theorem get?_bind_of_mem (h : env.bind p σ = .ok env') (hx : x ∈ p.names) :
    ∃ q τ, p.LastAt x q ∧ σ.part? q = some τ ∧ env'.get? x = some τ := by
  induction p using Pattern.ind generalizing env env' σ with
  | var y =>
    obtain rfl := Except.ok.inj h
    obtain rfl : x = y := List.mem_singleton.mp hx
    exact ⟨[], σ, .root x, rfl, by rw [NameMap.get?_insert, if_pos rfl]⟩
  | tuple ps ih =>
    obtain ⟨ts, hb, hl, h⟩ := bind_tuple_eq_ok_iff.mp h
    obtain ⟨i, q, t, τ, hlast, ht, hpart, hget⟩ :=
      get?_bindAll_of_mem (fun p hp _ _ _ => ih p hp) hl h hx
    exact ⟨i :: q, τ, hlast, (Scheme.part?_cons hb ht).trans hpart, hget⟩

/-- The names after binding are those of the pattern and those from before. -/
theorem mem_names_bind (h : env.bind p σ = .ok env') :
    x ∈ env'.names ↔ x ∈ p.names ∨ x ∈ env.names := by
  by_cases hx : x ∈ p.names
  · obtain ⟨_, τ, -, -, hget⟩ := get?_bind_of_mem h hx
    exact iff_of_true (NameMap.mem_names.mpr ⟨τ, hget⟩) (.inl hx)
  · rw [NameMap.mem_names, NameMap.mem_names, get?_bind_of_not_mem h hx, or_iff_right hx]

/-- **What a pattern binds.** After binding, a name of the pattern has the scheme of the part of the
type at its rightmost place. A name alone takes the whole scheme; below a tuple, the part is
quantified by those quantifiers of the scheme that occur in it. A variable that is free in this
scheme is free in the whole one. All other names keep their schemes. -/
theorem bind_lookup (h : env.bind p σ = .ok env') (x : String) :
    (x ∈ p.names → ∃ q t τ, p.LastAt x q ∧ σ.body.part? q = some t ∧
      env'.get? x = some τ ∧ τ.body = t ∧ (q = [] → τ = σ) ∧
      (q ≠ [] → ∀ v, v ∈ τ.vars ↔ v ∈ σ.vars ∧ v ∈ t.vars) ∧
      ∀ v ∈ τ.freeVars, v ∈ σ.freeVars) ∧
    (x ∉ p.names → env'.get? x = env.get? x) := by
  refine ⟨fun hx => ?_, get?_bind_of_not_mem h⟩
  obtain ⟨q, τ, hlast, hpart, hget⟩ := get?_bind_of_mem h hx
  have hfree : ∀ v ∈ τ.freeVars, v ∈ σ.freeVars :=
    fun v => (Scheme.PartOf.of_part? hpart).mem_freeVars
  cases q with
  | nil =>
    obtain rfl : σ = τ := Option.some.inj hpart
    exact ⟨[], σ.body, σ, hlast, rfl, hget, rfl, fun _ => rfl, fun h => absurd rfl h, hfree⟩
  | cons i q =>
    obtain ⟨t, ht, rfl⟩ := Option.map_eq_some_iff.mp hpart
    refine ⟨i :: q, t, _, hlast, ht, hget, rfl, fun h => (List.cons_ne_nil _ _ h).elim, ?_, hfree⟩
    intro _ v
    rw [Scheme.component, NameSet.mem_filter, Ty.mentions_iff]

/-- The pattern `(x, (y, x))` meets `forall a b. (a, (b -> c, (b, c)))`. The second `x` counts: it
is bound to the part `(b, c)`, which is quantified by `b`, while `z` keeps its type. -/
theorem bind_lookup_repeated :
    Env.bind (.ofList [("x", .mono .int), ("z", .mono .bool)])
      (.tuple [.var "x", .tuple [.var "y", .var "x"]])
      ⟨.ofList ["a", "b"], .tuple [.var "a",
        .tuple [.fn (.var "b") (.var "c"), .tuple [.var "b", .var "c"]]]⟩ =
      .ok (.ofList [("x", ⟨.ofList ["b"], .tuple [.var "b", .var "c"]⟩),
        ("y", ⟨.ofList ["b"], .fn (.var "b") (.var "c")⟩), ("z", .mono .bool)]) ∧
    (∃ q t τ, (Pattern.tuple [.var "x", .tuple [.var "y", .var "x"]]).LastAt "x" q ∧
      (Ty.tuple [.var "a",
        .tuple [.fn (.var "b") (.var "c"), .tuple [.var "b", .var "c"]]]).part? q = some t ∧
      some (⟨.ofList ["b"], .tuple [.var "b", .var "c"]⟩ : Scheme) = some τ ∧ τ.body = t ∧
      (q ≠ [] → ∀ v, v ∈ τ.vars ↔ v ∈ NameSet.ofList ["a", "b"] ∧ v ∈ t.vars)) ∧
    NameMap.get? (.ofList [("x", ⟨.ofList ["b"], .tuple [.var "b", .var "c"]⟩),
        ("y", ⟨.ofList ["b"], .fn (.var "b") (.var "c")⟩), ("z", .mono .bool)]) "z" =
      some (Scheme.mono .bool) := by
  have hbind : Env.bind (.ofList [("x", .mono .int), ("z", .mono .bool)])
      (.tuple [.var "x", .tuple [.var "y", .var "x"]])
      ⟨.ofList ["a", "b"], .tuple [.var "a",
        .tuple [.fn (.var "b") (.var "c"), .tuple [.var "b", .var "c"]]]⟩ =
      .ok (.ofList [("x", ⟨.ofList ["b"], .tuple [.var "b", .var "c"]⟩),
        ("y", ⟨.ofList ["b"], .fn (.var "b") (.var "c")⟩), ("z", .mono .bool)]) := rfl
  obtain ⟨q, t, τ, hlast, ht, hget, hbody, -, hvars, -⟩ :=
    (bind_lookup hbind "x").1 (by decide)
  exact ⟨hbind, ⟨q, t, τ, hlast, ht, hget, hbody, hvars⟩, (bind_lookup hbind "z").2 (by decide)⟩

end Env

end PolyLet
