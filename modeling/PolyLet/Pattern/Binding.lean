import PolyLet.Env
import PolyLet.TypeError

/-!
# Binding patterns

A pattern that meets a scheme gives schemes to its names. A name takes the whole scheme; a tuple
pattern needs a tuple of its own length and takes it apart, each component with those quantifiers
that it mentions.

## Main definitions

* `Env.bind env p σ`: the environment with the names of `p` bound to the parts of `σ`
* `checkShape p t`: whether the type `t` leaves room for the pattern `p`
-/

namespace PolyLet

/-- The scheme of a component of a tuple: it keeps the quantifiers that it mentions. -/
def Scheme.component (σ : Scheme) (t : Ty) : Scheme :=
  ⟨σ.vars.filter t.mentions, t⟩

mutual

/-- The environment with the names of a pattern bound to the parts of a scheme. Of two equal names
the right one wins. -/
def Env.bind (env : Env) : Pattern → Scheme → Except TypeError Env
  | .var x, σ => .ok (env.insert x σ)
  | .tuple ps, σ =>
    match σ.body with
    | .tuple ts =>
      if ts.length = ps.length then Env.bindAll env σ ps ts
      else .error (.patternArity (.tuple ps) (.tuple ts))
    | t => .error (.patternType (.tuple ps) t)

/-- The environment with the names of the patterns of a list bound to the parts of the components
`ts` of a scheme. -/
def Env.bindAll (env : Env) (σ : Scheme) : List Pattern → List Ty → Except TypeError Env
  | p :: ps, t :: ts => do
    let env' ← Env.bind env p (σ.component t)
    Env.bindAll env' σ ps ts
  | _, _ => .ok env

end

mutual

/-- Checks that a type leaves room for a pattern: where the pattern has a tuple, the type has a
tuple of the same length or a variable. -/
def checkShape : Pattern → Ty → Except TypeError Unit
  | .var _, _ => .ok ()
  | .tuple _, .var _ => .ok ()
  | .tuple ps, .tuple ts =>
    if ps.length = ts.length then checkShapeAll ps ts
    else .error (.patternArity (.tuple ps) (.tuple ts))
  | .tuple ps, t => .error (.patternType (.tuple ps) t)

/-- Checks the components of a tuple from left to right. -/
def checkShapeAll : List Pattern → List Ty → Except TypeError Unit
  | p :: ps, t :: ts => do
    checkShape p t
    checkShapeAll ps ts
  | _, _ => .ok ()

end

end PolyLet
