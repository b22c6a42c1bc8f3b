import PolyLet.Subst
import PolyLet.Ty.Normal

/-!
# Type schemes

A type scheme is a type in which some variables are quantified: they stand for any types at all,
anew wherever the scheme is used.

## Main definitions

* `Scheme`: quantified variables and a body
* `Scheme.freeVars`: the variables that are not quantified
* `Scheme.print`: the text of a scheme, with its quantified variables named for readers
* `Subst.applyScheme`: a substitution of the free variables
-/

namespace PolyLet

/-- A type with quantified variables. -/
structure Scheme where
  vars : NameSet
  body : Ty
  deriving DecidableEq, Repr, Inhabited

namespace Scheme

/-- The scheme that quantifies nothing. -/
def mono (t : Ty) : Scheme :=
  ⟨∅, t⟩

/-- The variables of the body that are not quantified. -/
def freeVars (σ : Scheme) : NameSet :=
  σ.body.freeVars.filter (· ∉ σ.vars)

@[simp] theorem mem_freeVars {σ : Scheme} {v : String} :
    v ∈ σ.freeVars ↔ v ∈ σ.body.vars ∧ v ∉ σ.vars := by
  simp [freeVars]

/-- The quantified variables as they are printed: those of the body in the order of their first
occurrences, then those that the body does not mention. -/
def quantifiers (σ : Scheme) : List String :=
  σ.body.varsInOrder.filter (· ∈ σ.vars)
    ++ σ.vars.toList.filter fun v => !σ.body.mentions v

/-- The names for readers of the quantified variables, none of which is free in the scheme. -/
def quantifierNames (σ : Scheme) : List String :=
  letterNames σ.freeVars σ.quantifiers.length

/-- The text of a scheme. Quantified variables are named for readers, free ones keep their names. -/
def print (σ : Scheme) : String :=
  if σ.vars.isEmpty then σ.body.print
  else
    "forall " ++ " ".intercalate σ.quantifierNames ++ ". "
      ++ (σ.body.rename (renameBy σ.quantifiers σ.quantifierNames)).print

end Scheme

/-- The scheme with the free variables of the substitution replaced. The quantified ones stay. -/
def Subst.applyScheme (s : Subst) (σ : Scheme) : Scheme :=
  ⟨σ.vars, (s.without σ.vars).apply σ.body⟩

end PolyLet
