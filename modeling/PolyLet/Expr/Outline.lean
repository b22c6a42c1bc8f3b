import PolyLet.Expr.Printer

/-!
# The outline of expressions

The tree of an expression, one node a line: what the node is, its place, and below it its parts,
each level indented by two more spaces.

## Main definitions

* `Expr.heading`: what a node is
* `Expr.outlineLines`, `Expr.outline`: the lines of a tree and its text
-/

namespace PolyLet.Expr

/-- What a node is, without its parts. -/
def heading : Expr → String
  | int _ n => "Int " ++ toString n.toInt
  | bool _ b => "Bool " ++ boolLiteral b
  | var _ x => "Var " ++ x
  | app .. => "App"
  | lam _ p _ => "Lam " ++ p.print
  | letIn _ p _ _ => "Let " ++ p.print
  | ite .. => "If"
  | tuple .. => "Tuple"

/-- The line of a node at a depth. -/
def outlineLine (depth : Nat) (e : Expr) : String :=
  "".pushn ' ' (2 * depth) ++ e.heading ++ " @" ++ toString e.span.start ++ ".."
    ++ toString e.span.stop

mutual

/-- The lines of a tree whose root is at a depth. -/
def outlineAt (depth : Nat) : Expr → List String
  | int s n => [outlineLine depth (int s n)]
  | bool s b => [outlineLine depth (bool s b)]
  | var s x => [outlineLine depth (var s x)]
  | app s f a =>
    outlineLine depth (app s f a) :: (outlineAt (depth + 1) f ++ outlineAt (depth + 1) a)
  | lam s p b => outlineLine depth (lam s p b) :: outlineAt (depth + 1) b
  | letIn s p e b =>
    outlineLine depth (letIn s p e b) :: (outlineAt (depth + 1) e ++ outlineAt (depth + 1) b)
  | ite s c t e =>
    outlineLine depth (ite s c t e)
      :: (outlineAt (depth + 1) c ++ outlineAt (depth + 1) t ++ outlineAt (depth + 1) e)
  | tuple s es => outlineLine depth (tuple s es) :: outlineAll (depth + 1) es

/-- The lines of the trees of a list. -/
def outlineAll (depth : Nat) : List Expr → List String
  | [] => []
  | e :: es => outlineAt depth e ++ outlineAll depth es

end

/-- The lines of a tree. -/
def outlineLines (e : Expr) : List String :=
  outlineAt 0 e

/-- The outline of a tree: its lines, each with its end. -/
def outline (e : Expr) : String :=
  String.join (e.outlineLines.map (· ++ "\n"))

end PolyLet.Expr
