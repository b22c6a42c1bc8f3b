import PolyLet.Expr
import PolyLet.Ty

/-!
# Type errors

Why an expression has no type.

## Main definitions

* `TypeError`: the causes, with `TypeError.message`
* `InferError`: a cause at the place of the expression that raised it
-/

namespace PolyLet

/-- Why an expression has no type. -/
inductive TypeError where
  /-- The name is not bound. -/
  | unboundVariable (name : String)
  /-- One type is needed and another one is there. -/
  | mismatch (expected found : Ty)
  /-- The variable would have to stand for a type that mentions it. -/
  | infiniteType (var : String) (type : Ty)
  /-- A tuple pattern meets a tuple of another length. -/
  | patternArity (pattern : Pattern) (type : Ty)
  /-- A tuple pattern meets a type that is no tuple. -/
  | patternType (pattern : Pattern) (type : Ty)
  deriving DecidableEq, Repr

/-- The number of components of a pattern; a name is one. -/
def Pattern.arity : Pattern → Nat
  | var _ => 1
  | tuple ps => ps.length

/-- The number of components of a type; what is no tuple is one. -/
def Ty.arity : Ty → Nat
  | tuple ts => ts.length
  | _ => 1

/-- The message for an error. -/
def TypeError.message : TypeError → String
  | unboundVariable x => "unbound variable `" ++ x ++ "`"
  | mismatch expected found =>
    "type mismatch: expected `" ++ expected.print ++ "`, found `" ++ found.print ++ "`"
  | infiniteType v t => "infinite type: `" ++ v ++ "` occurs in `" ++ t.print ++ "`"
  | patternArity p t =>
    "pattern `" ++ p.print ++ "` has " ++ toString p.arity ++ " elements, but `" ++ t.print
      ++ "` has " ++ toString t.arity
  | patternType p t =>
    "pattern `" ++ p.print ++ "` cannot destructure a value of type `" ++ t.print ++ "`"

/-- A type error and the place of the expression that raised it. -/
structure InferError where
  cause : TypeError
  span : Span
  deriving DecidableEq, Repr

end PolyLet
