import PolyLet.Names.NameMap
import PolyLet.Ty

/-!
# Types up to the names of their variables

The names of type variables do not matter. For a reader they are the letters of the alphabet in the
order in which the variables occur: `a` to `z`, then `a1` to `z1`, and so on.

## Main definitions

* `Ty.rename f`: every variable `v` renamed to `f v`
* `letterName`, `letterNames`: the names for readers
* `Ty.normalize`: a type with its variables named for readers
-/

namespace PolyLet

/-- The name for readers with the number `i`. -/
def letterName (i : Nat) : String :=
  String.singleton (Char.ofNat ('a'.toNat + i % 26))
    ++ if i / 26 = 0 then "" else toString (i / 26)

/-- The first `count` names for readers that are not taken. Each name that is taken costs one, so it
is enough to look at that many more. -/
def letterNames (taken : NameSet) (count : Nat) : List String :=
  (((List.range (count + taken.size)).map letterName).filter (· ∉ taken)).take count

/-- The renaming that sends the names of one list to those of another one, place by place, and
leaves all other names alone. -/
def renameBy (olds news : List String) (v : String) : String :=
  (NameMap.lookup v (olds.zip news)).getD v

namespace Ty

/-- The type with every variable `v` renamed to `f v`. -/
def rename (f : String → String) (t : Ty) : Ty :=
  t.replace fun v => var (f v)

/-- The different variables of a type in the order of their first occurrences. -/
def varsInOrder (t : Ty) : List String :=
  t.vars.eraseDups

/-- The type with its variables named for readers. -/
def normalize (t : Ty) : Ty :=
  t.rename (renameBy t.varsInOrder (letterNames ∅ t.varsInOrder.length))

end Ty

end PolyLet
