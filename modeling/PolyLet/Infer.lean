import PolyLet.Pattern.Binding
import PolyLet.Supply
import PolyLet.Unify

/-!
# Type inference

The type of an expression is found by going through it once from left to right. Every part is looked
at in the environment with all that is known by then, and gives what it adds as a substitution. A
`let` is recursive: while its bound expression is looked at, the names of the pattern have one type
each; afterwards they are generalized. The first error ends inference; it carries the place of the
node whose own rule failed.

## Main definitions

* `Inference`: a computation with a supply of fresh variables, whose state outlives an error
* `infer env e`: the substitution and the type of `e` in `env`
* `inferType env e`: the type alone, from a new supply
-/

namespace PolyLet

/-- A computation that draws fresh variables and may fail. The variables drawn before an error stay
drawn. -/
abbrev Inference := EStateM InferError Supply

/-- The outcome of a step at the node with the place `span`. -/
def raiseAt {α : Type} (span : Span) : Except TypeError α → Inference α
  | .ok a => pure a
  | .error cause => throw ⟨cause, span⟩

/-- Whether a type can be that of a function: it is one or not known yet. -/
def Ty.mayBeFn : Ty → Bool
  | .fn .. | .var _ => true
  | _ => false

mutual

/-- **Type inference.** The substitution that an expression forces on the environment, and the type
of the expression after it. -/
def infer (env : Env) : Expr → Inference (Subst × Ty)
  | .int .. => pure (∅, .int)
  | .bool .. => pure (∅, .bool)
  | .var span x =>
    match env.get? x with
    | none => throw ⟨.unboundVariable x, span⟩
    | some σ => do
      let t ← modifyGet (Supply.instantiate · σ)
      pure (∅, t)
  | .app span func arg => do
    let (s₁, funcTy) ← infer env func
    let (s₂, argTy) ← infer (s₁.applyEnv env) arg
    let result ← modifyGet Supply.fresh
    -- what is no function is reported as a whole, not by the first part that differs
    let head := s₂.apply funcTy
    let expected := Ty.fn argTy result
    let s₃ ← raiseAt span (if head.mayBeFn then unify head expected
      else .error (.mismatch expected head))
    pure ((s₁.compose s₂).compose s₃, s₃.apply result)
  | .lam span param body => do
    let paramTy ← modifyGet (Supply.freshFor · param)
    let env' ← raiseAt span (env.bind param (.mono paramTy))
    let (s, bodyTy) ← infer env' body
    pure (s, .fn (s.apply paramTy) bodyTy)
  | .letIn span pattern bound body => do
    -- the bound expression may use the names of the pattern, at one type each
    let placeholder ← modifyGet (Supply.freshFor · pattern)
    let recEnv ← raiseAt span (env.bind pattern (.mono placeholder))
    let (s₁, boundTy) ← infer recEnv bound
    -- a pattern that can never fit is reported as such, before the types are compared
    raiseAt span (checkShape pattern boundTy)
    let s₂ ← raiseAt span (unify (s₁.apply placeholder) boundTy)
    -- the body may use them at every instance
    let s := s₁.compose s₂
    let outer := s.applyEnv env
    let bodyEnv ← raiseAt span (outer.bind pattern (generalize outer (s₂.apply boundTy)))
    let (s₃, bodyTy) ← infer bodyEnv body
    pure (s.compose s₃, bodyTy)
  | .ite span cond thenBranch elseBranch => do
    let (s₁, condTy) ← infer env cond
    let s₂ ← raiseAt span (unify .bool condTy)
    let s₁₂ := s₁.compose s₂
    let (s₃, thenTy) ← infer (s₁₂.applyEnv env) thenBranch
    let s₁₃ := s₁₂.compose s₃
    let (s₄, elseTy) ← infer (s₁₃.applyEnv env) elseBranch
    let s₅ ← raiseAt span (unify (s₄.apply thenTy) elseTy)
    pure ((s₁₃.compose s₄).compose s₅, s₅.apply elseTy)
  | .tuple _ elems => do
    let (s, tys) ← inferAll env ∅ elems
    pure (s, .tuple (tys.map s.apply))

/-- The types of the components of a tuple from left to right, where `s` is what the components
before them add. The types are given as they were found, without what later components add. -/
def inferAll (env : Env) (s : Subst) : List Expr → Inference (Subst × List Ty)
  | [] => pure (s, [])
  | e :: es => do
    let (s', t) ← infer (s.applyEnv env) e
    let (s'', ts) ← inferAll env (s.compose s') es
    pure (s'', t :: ts)

end

/-- The result of a computation with a given supply, without the supply that is left. -/
def Inference.result {α : Type} (m : Inference α) (n : Supply) : Except InferError α :=
  match m.run n with
  | .ok a _ => .ok a
  | .error e _ => .error e

/-- The type of an expression in an environment, from a new supply. -/
def inferType (env : Env) (e : Expr) : Except InferError Ty := do
  let (s, t) ← (infer env e).result {}
  pure (s.apply t)

end PolyLet
