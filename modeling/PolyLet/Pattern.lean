/-!
# Patterns

A pattern takes a value apart and names the pieces: a name stands for a whole value, a tuple pattern
for a tuple, component by component.

## Main definitions

* `Pattern`: names and tuples of patterns
* `Pattern.names`: the names that a pattern binds
* `Pattern.print`: the text of a pattern
-/

namespace PolyLet

/-- A pattern. The reader makes no tuple of one component, but trees built by hand may have one. -/
inductive Pattern where
  | var (name : String)
  | tuple (elems : List Pattern)
  deriving Repr, Inhabited

namespace Pattern

/-! ## Equality -/

mutual

/-- Decides equality of patterns. -/
def decEq : (p q : Pattern) → Decidable (p = q)
  | var x, var y => decidable_of_iff (x = y) (by simp)
  | tuple ps, tuple qs =>
    have := decEqAll ps qs
    decidable_of_iff (ps = qs) (by simp)
  | var _, tuple _ => isFalse nofun
  | tuple _, var _ => isFalse nofun

/-- Decides equality of lists of patterns. -/
def decEqAll : (ps qs : List Pattern) → Decidable (ps = qs)
  | [], [] => isTrue rfl
  | p :: ps, q :: qs =>
    have := decEq p q
    have := decEqAll ps qs
    decidable_of_iff (p = q ∧ ps = qs) (by simp)
  | [], _ :: _ => isFalse nofun
  | _ :: _, [] => isFalse nofun

end

instance : DecidableEq Pattern := decEq

/-! ## Names -/

mutual

/-- The names that a pattern binds, from left to right. -/
def names : Pattern → List String
  | var x => [x]
  | tuple ps => namesAll ps

/-- The names that the patterns of a list bind. -/
def namesAll : List Pattern → List String
  | [] => []
  | p :: ps => p.names ++ namesAll ps

end

theorem namesAll_eq_flatMap (ps : List Pattern) : namesAll ps = ps.flatMap names := by
  induction ps with
  | nil => rfl
  | cons p ps ih => rw [namesAll, ih, List.flatMap_cons]

/-! ## Text -/

mutual

/-- The text of a pattern. -/
def print : Pattern → String
  | var x => x
  | tuple ps => "(" ++ ", ".intercalate (printAll ps) ++ ")"

/-- The texts of the patterns of a list. -/
def printAll : List Pattern → List String
  | [] => []
  | p :: ps => print p :: printAll ps

end

/-- The pattern of a parenthesised list: parentheses around a single pattern do not matter. -/
def ofElems : List Pattern → Pattern
  | [p] => p
  | ps => tuple ps

end Pattern

end PolyLet
