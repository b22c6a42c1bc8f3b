import PolyLet.Builtin

/-!
# Interactive sessions

A session keeps what type inference works with from one step to the next: an environment, a
substitution, a supply of variables, and a second supply that inference draws from. Steps that fail
change nothing except that the variables drawn by inference stay drawn.

## Main definitions

* `Session`: the state
* `Session.fresh`, `Session.instantiate`, `Session.unify`, `Session.compose`, `Session.infer`,
  `Session.define` and others: the steps
-/

namespace PolyLet

/-- The state of a session. -/
structure Session where
  env : Env
  subst : Subst := ∅
  supply : Supply := {}
  inferSupply : Supply := {}

/-- Why a definition failed: its expression has no type, or its pattern does not fit the type. -/
inductive DefineError where
  | infer (error : InferError)
  | bind (error : TypeError)
  deriving DecidableEq, Repr

namespace Session

/-- Draws a variable. -/
def fresh (s : Session) : Ty × Session :=
  let (t, n) := s.supply.fresh
  (t, { s with supply := n })

/-- Draws a type of the shape of a pattern. -/
def freshFor (s : Session) (p : Pattern) : Ty × Session :=
  let (t, n) := s.supply.freshFor p
  (t, { s with supply := n })

/-- Draws an instance of a scheme. -/
def instantiate (s : Session) (σ : Scheme) : Ty × Session :=
  let (t, n) := s.supply.instantiate σ
  (t, { s with supply := n })

/-- Gives a scheme to a name. -/
def extend (s : Session) (x : String) (σ : Scheme) : Session :=
  { s with env := s.env.insert x σ }

/-- Binds a pattern to a scheme. -/
def bind (s : Session) (p : Pattern) (σ : Scheme) : Except TypeError Session := do
  let env ← s.env.bind p σ
  pure { s with env := env }

/-- Makes two types equal under the substitution, which grows by what that takes. -/
def unify (s : Session) (t u : Ty) : Except TypeError Session := do
  let r ← PolyLet.unify (s.subst.apply t) (s.subst.apply u)
  pure { s with subst := s.subst.compose r }

/-- Composes a newer substitution into the one of the session. -/
def compose (s : Session) (newer : Subst) : Session :=
  { s with subst := s.subst.compose newer }

/-- Applies the substitution to the environment. -/
def applyEnv (s : Session) : Session :=
  { s with env := s.subst.applyEnv s.env }

/-- Forgets the substitution. -/
def resetSubst (s : Session) : Session :=
  { s with subst := ∅ }

/-- Infers the type of an expression in the environment. -/
def infer (s : Session) (e : Expr) : Except InferError (Subst × Ty) × Session :=
  match (PolyLet.infer s.env e).run s.inferSupply with
  | .ok r n => (.ok r, { s with inferSupply := n })
  | .error e n => (.error e, { s with inferSupply := n })

/-- Infers the type of an expression, generalizes it and binds a pattern to it. -/
def define (s : Session) (p : Pattern) (e : Expr) : Except DefineError Unit × Session :=
  match s.infer e with
  | (.error error, s) => (.error (.infer error), s)
  | (.ok (r, t), s) =>
    let outer := r.applyEnv s.env
    match outer.bind p (generalize outer t) with
    | .error error => (.error (.bind error), s)
    | .ok env => (.ok (), { s with env := env })

end Session

end PolyLet
