import PolyLet.Names.NameMap
import PolyLet.Ty

/-!
# Substitutions

A substitution gives types to finitely many type variables. It is applied in one pass: what it puts
in the place of a variable is not looked at again.

## Main definitions

* `Subst`: a finite map from type variables to types
* `Subst.apply s t`: the type `t` with the variables of `s` replaced
* `Subst.compose older newer`: both substitutions in one, where the newer one wins

## Main results

* `Subst.get?_compose`: the look-up in a composition
* `Subst.apply_compose`: where the two substitutions agree, composition is application in a row
* `Subst.apply_empty`: the empty substitution changes nothing
-/

namespace PolyLet

/-- A finite map from type variables to types. -/
abbrev Subst := NameMap Ty

namespace Subst

/-- The type that a substitution puts in the place of a variable. -/
def image (s : Subst) (v : String) : Ty :=
  (s.get? v).getD (.var v)

/-- The type with the variables of the substitution replaced, in one pass. -/
def apply (s : Subst) (t : Ty) : Ty :=
  t.replace s.image

/-- Both substitutions in one. The newer one is applied to the targets of the older one, and where
both have a target for a variable the newer one wins. -/
def compose (older newer : Subst) : Subst :=
  (older.map (apply newer)).override newer

/-- The substitution without its targets for the given variables. -/
def without (s : Subst) (vars : NameSet) : Subst :=
  s.filterNames fun v => v ∉ vars

theorem image_of_get? {s : Subst} {v : String} {t : Ty} (h : s.get? v = some t) :
    s.image v = t := by
  simp [image, h]

theorem image_of_not_mem {s : Subst} {v : String} (h : v ∉ s.names) : s.image v = .var v := by
  simp [image, NameMap.get?_eq_none_iff.mpr h]

@[simp] theorem apply_empty (t : Ty) : apply (∅ : Subst) t = t :=
  Ty.replace_var t

@[simp] theorem map_apply_empty (ts : List Ty) : ts.map (apply (∅ : Subst)) = ts :=
  (List.map_congr_left fun t _ => apply_empty t).trans (List.map_id' ts)

@[simp] theorem apply_fn (s : Subst) (p r : Ty) : s.apply (.fn p r) = .fn (s.apply p) (s.apply r) :=
  rfl

@[simp] theorem apply_tuple (s : Subst) (ts : List Ty) :
    s.apply (.tuple ts) = .tuple (ts.map s.apply) :=
  Ty.replace_tuple s.image ts

@[simp] theorem apply_var (s : Subst) (v : String) : s.apply (.var v) = s.image v :=
  rfl

theorem get?_compose (older newer : Subst) (v : String) :
    (older.compose newer).get? v = (newer.get? v).or ((older.get? v).map newer.apply) := by
  rw [compose, NameMap.get?_override, NameMap.get?_map]

theorem image_compose {older newer : Subst}
    (h : ∀ v t u, older.get? v = some t → newer.get? v = some u → u = newer.apply t) (v : String) :
    (older.compose newer).image v = newer.apply (older.image v) := by
  rw [image, get?_compose]
  cases ho : older.get? v with
  | none =>
    rw [image, ho]
    simp [image]
  | some t =>
    rw [image_of_get? ho]
    cases hn : newer.get? v with
    | none => simp
    | some u => simpa using h v t u ho hn

/-- Where two substitutions agree on the variables they share, their composition is one after the
other. -/
theorem apply_compose {older newer : Subst}
    (h : ∀ v t u, older.get? v = some t → newer.get? v = some u → u = newer.apply t) (t : Ty) :
    (older.compose newer).apply t = newer.apply (older.apply t) := by
  rw [apply, apply, apply, Ty.replace_replace]
  exact Ty.replace_congr fun v _ => image_compose h v

theorem mem_names_compose {older newer : Subst} {v : String} :
    v ∈ (older.compose newer).names ↔ v ∈ older.names ∨ v ∈ newer.names := by
  simp only [NameMap.mem_names, get?_compose, ← Option.isSome_iff_exists, Option.isSome_or,
    Option.isSome_map, Bool.or_eq_true]
  exact or_comm

theorem mem_vars_apply {s : Subst} {t : Ty} {w : String} :
    w ∈ (s.apply t).vars ↔ ∃ v ∈ t.vars, w ∈ (s.image v).vars :=
  Ty.mem_vars_replace

end Subst

end PolyLet
