import PolyLet.Pattern
import PolyLet.Span

/-!
# Expressions

The trees of programs. Every node carries the span of the source text it was read from, and two
programs are the same when their trees agree apart from the spans.

## Main definitions

* `Expr`: literals, names, applications, functions, `let`, `if` and tuples
* `Expr.span`, `Expr.withSpan`: the place of a node
* `Expr.unlocated`: a tree without its places
* `Expr.sameTree`: equality apart from places
* `Expr.children`, `IsNode m e`: the nodes of a tree
-/

namespace PolyLet

/-- An expression. Integers have 64 bits. The reader makes no tuple of one component, but trees
built by hand may have one. -/
inductive Expr where
  | int (span : Span) (value : Int64)
  | bool (span : Span) (value : Bool)
  | var (span : Span) (name : String)
  | app (span : Span) (func arg : Expr)
  | lam (span : Span) (param : Pattern) (body : Expr)
  | letIn (span : Span) (pattern : Pattern) (bound body : Expr)
  | ite (span : Span) (cond thenBranch elseBranch : Expr)
  | tuple (span : Span) (elems : List Expr)
  deriving Repr, Inhabited

namespace Expr

/-! ## Equality -/

mutual

/-- Decides equality of expressions, places included. -/
def decEq (a b : Expr) : Decidable (a = b) :=
  if h : a.ctorIdx = b.ctorIdx then
    match a, b, h with
    | int s m, int s' n, _ => decidable_of_iff (s = s' ∧ m = n) (by simp)
    | bool s m, bool s' n, _ => decidable_of_iff (s = s' ∧ m = n) (by simp)
    | var s x, var s' y, _ => decidable_of_iff (s = s' ∧ x = y) (by simp)
    | app s f a, app s' f' a', _ =>
      have := decEq f f'
      have := decEq a a'
      decidable_of_iff (s = s' ∧ f = f' ∧ a = a') (by simp)
    | lam s p b, lam s' p' b', _ =>
      have := decEq b b'
      decidable_of_iff (s = s' ∧ p = p' ∧ b = b') (by simp)
    | letIn s p e b, letIn s' p' e' b', _ =>
      have := decEq e e'
      have := decEq b b'
      decidable_of_iff (s = s' ∧ p = p' ∧ e = e' ∧ b = b') (by simp)
    | ite s c t e, ite s' c' t' e', _ =>
      have := decEq c c'
      have := decEq t t'
      have := decEq e e'
      decidable_of_iff (s = s' ∧ c = c' ∧ t = t' ∧ e = e') (by simp)
    | tuple s es, tuple s' es', _ =>
      have := decEqAll es es'
      decidable_of_iff (s = s' ∧ es = es') (by simp)
  else isFalse fun e => h (e ▸ rfl)

/-- Decides equality of lists of expressions, places included. -/
def decEqAll : (as bs : List Expr) → Decidable (as = bs)
  | [], [] => isTrue rfl
  | a :: as, b :: bs =>
    have := decEq a b
    have := decEqAll as bs
    decidable_of_iff (a = b ∧ as = bs) (by simp)
  | [], _ :: _ => isFalse nofun
  | _ :: _, [] => isFalse nofun

end

instance : DecidableEq Expr := decEq

/-! ## Places -/

/-- The place of an expression. -/
def span : Expr → Span
  | int s _ | bool s _ | var s _ | app s _ _ | lam s _ _ | letIn s _ _ _ | ite s _ _ _
  | tuple s _ => s

/-- The same expression at another place; its parts stay where they are. -/
def withSpan (s : Span) : Expr → Expr
  | int _ n => int s n
  | bool _ b => bool s b
  | var _ x => var s x
  | app _ f a => app s f a
  | lam _ p b => lam s p b
  | letIn _ p e b => letIn s p e b
  | ite _ c t e => ite s c t e
  | tuple _ es => tuple s es

mutual

/-- The same tree with every place forgotten. -/
def unlocated : Expr → Expr
  | int _ n => int {} n
  | bool _ b => bool {} b
  | var _ x => var {} x
  | app _ f a => app {} f.unlocated a.unlocated
  | lam _ p b => lam {} p b.unlocated
  | letIn _ p e b => letIn {} p e.unlocated b.unlocated
  | ite _ c t e => ite {} c.unlocated t.unlocated e.unlocated
  | tuple _ es => tuple {} (unlocatedAll es)

/-- The trees of a list with every place forgotten. -/
def unlocatedAll : List Expr → List Expr
  | [] => []
  | e :: es => e.unlocated :: unlocatedAll es

end

theorem unlocatedAll_eq_map (es : List Expr) : unlocatedAll es = es.map unlocated := by
  induction es with
  | nil => rfl
  | cons e es ih => exact congrArg (e.unlocated :: ·) ih

/-- Whether two expressions agree apart from the places of their nodes. -/
def sameTree (a b : Expr) : Bool :=
  a.unlocated = b.unlocated

/-! ## Nodes -/

/-- The expressions directly below a node, in the order of the source. -/
def children : Expr → List Expr
  | int _ _ | bool _ _ | var _ _ => []
  | app _ f a => [f, a]
  | lam _ _ b => [b]
  | letIn _ _ e b => [e, b]
  | ite _ c t e => [c, t, e]
  | tuple _ es => es

theorem children_withSpan (s : Span) (e : Expr) : (e.withSpan s).children = e.children := by
  cases e <;> rfl

end Expr

/-- The expression `m` is a node of `e`. -/
inductive IsNode (m : Expr) : Expr → Prop
  | root : IsNode m m
  | child {c e : Expr} (hc : c ∈ e.children) (h : IsNode m c) : IsNode m e

end PolyLet
