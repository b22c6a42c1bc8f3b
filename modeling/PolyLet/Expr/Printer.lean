import PolyLet.Expr

/-!
# The text of expressions

Expressions are printed on one line with as few parentheses as the grammar allows. The language has
no negative literals, so a negative integer is printed as a subtraction.

## Main definitions

* `Expr.Place`: where an expression stands inside another one
* `Expr.print`: the text of an expression
-/

namespace PolyLet

/-- The literal of a truth value. -/
def boolLiteral (b : Bool) : String :=
  if b then "True" else "False"

/-- An integer as an expression of the language. The least integer has no counterpart above zero, so
it takes two subtractions. -/
def integerExpr (n : Int64) : String :=
  if n = Int64.minValue then "sub (sub 0 " ++ toString Int64.maxValue.toInt ++ ") 1"
  else if n < 0 then "sub 0 " ++ toString n.toInt.natAbs
  else toString n.toInt.natAbs

/-- A text, in parentheses if they are needed. -/
def parenthesizeIf (needed : Bool) (text : String) : String :=
  if needed then "(" ++ text ++ ")" else text

namespace Expr

/-- Where an expression stands inside another one. -/
inductive Place where
  /-- Nothing that follows can be taken for a part of it. -/
  | top
  /-- The function of an application. -/
  | head
  /-- The argument of an application. -/
  | argument
  deriving DecidableEq, Repr

/-- Whether an expression needs parentheses at a place. -/
def needsParens (place : Place) : Expr → Bool
  | lam .. | letIn .. | ite .. => place ≠ .top
  | app .. => place = .argument
  | int _ n => n < 0 && place = .argument
  | bool .. | var .. | tuple .. => false

mutual

/-- The text of an expression at a place. -/
def printAt (place : Place) : Expr → String
  | int s n => parenthesizeIf (needsParens place (int s n)) (integerExpr n)
  | bool _ b => boolLiteral b
  | var _ x => x
  | app s f a =>
    parenthesizeIf (needsParens place (app s f a)) (printAt .head f ++ " " ++ printAt .argument a)
  | lam s p b =>
    parenthesizeIf (needsParens place (lam s p b)) ("fn " ++ p.print ++ " -> " ++ printAt .top b)
  | letIn s p e b =>
    parenthesizeIf (needsParens place (letIn s p e b))
      ("let " ++ p.print ++ " = " ++ printAt .top e ++ " in " ++ printAt .top b)
  | ite s c t e =>
    parenthesizeIf (needsParens place (ite s c t e))
      ("if " ++ printAt .top c ++ " then " ++ printAt .top t ++ " else " ++ printAt .top e)
  | tuple _ es => "(" ++ ", ".intercalate (printAll es) ++ ")"

/-- The texts of the components of a tuple. -/
def printAll : List Expr → List String
  | [] => []
  | e :: es => printAt .top e :: printAll es

end

/-- The text of an expression. -/
def print (e : Expr) : String :=
  printAt .top e

end Expr

end PolyLet
