import PolyLet.Infer

/-!
# The names that every program can use

Equality of any two values of one type, and the arithmetic of integers.

## Main definitions

* `builtins`: the names with their schemes, in the order of their declaration
* `builtinEnv`: the environment of a program
* `check e`: the type scheme of a program
-/

namespace PolyLet

/-- The type of an operation on two integers. -/
def integerOperation : Ty :=
  .fn .int (.fn .int .int)

/-- The names that every program can use, in the order of their declaration. -/
def builtins : List (String × Scheme) :=
  [("eq", ⟨.ofList ["a"], .fn (.var "a") (.fn (.var "a") .bool)⟩),
    ("add", .mono integerOperation),
    ("sub", .mono integerOperation),
    ("mul", .mono integerOperation)]

/-- The environment of a program. -/
def builtinEnv : Env :=
  .ofList builtins

/-- The type scheme of a program, or why it has none. -/
def check (e : Expr) : Except InferError Scheme := do
  let t ← inferType builtinEnv e
  pure (generalize builtinEnv t)

end PolyLet
