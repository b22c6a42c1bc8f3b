import PolyLet.Names.NameSet

/-!
# Types

The types of values: integers, truth values, functions, tuples, and type variables, which stand for
types not known yet.

## Main definitions

* `Ty`: types
* `Ty.vars`, `Ty.freeVars`, `Ty.mentions`: the variables of a type, in the order of their
  occurrences, as a set, and one by one
* `Ty.replace f`: every variable `v` replaced by the type `f v`
* `Ty.print`: the text of a type

## Main results

* `Ty.replace_replace`: two replacements in a row are one
* `Ty.replace_congr`: a replacement depends only on the variables of the type
* `Ty.mem_vars_replace`: the variables after a replacement
-/

namespace PolyLet

/-- A type. The reader of programs never leads to a tuple of one component, but types built by hand
may have one. -/
inductive Ty where
  | int
  | bool
  | var (name : String)
  | fn (param result : Ty)
  | tuple (elems : List Ty)
  deriving Repr, Inhabited

namespace Ty

/-! ## Equality -/

mutual

/-- Decides equality of types. -/
def decEq (t u : Ty) : Decidable (t = u) :=
  if h : t.ctorIdx = u.ctorIdx then
    match t, u, h with
    | int, int, _ => isTrue rfl
    | bool, bool, _ => isTrue rfl
    | var v, var w, _ => decidable_of_iff (v = w) (by simp)
    | fn p r, fn p' r', _ =>
      have := decEq p p'
      have := decEq r r'
      decidable_of_iff (p = p' ∧ r = r') (by simp)
    | tuple ts, tuple us, _ =>
      have := decEqAll ts us
      decidable_of_iff (ts = us) (by simp)
  else isFalse fun e => h (e ▸ rfl)

/-- Decides equality of lists of types. -/
def decEqAll : (ts us : List Ty) → Decidable (ts = us)
  | [], [] => isTrue rfl
  | t :: ts, u :: us =>
    have := decEq t u
    have := decEqAll ts us
    decidable_of_iff (t = u ∧ ts = us) (by simp)
  | [], _ :: _ => isFalse nofun
  | _ :: _, [] => isFalse nofun

end

instance : DecidableEq Ty := decEq

/-! ## Variables -/

mutual

/-- The variables of a type, one for each occurrence, from left to right. -/
def vars : Ty → List String
  | int | bool => []
  | var v => [v]
  | fn p r => p.vars ++ r.vars
  | tuple ts => varsAll ts

/-- The variables of the types of a list, one for each occurrence, from left to right. -/
def varsAll : List Ty → List String
  | [] => []
  | t :: ts => t.vars ++ varsAll ts

end

/-- The set of the variables of a type. -/
def freeVars (t : Ty) : NameSet :=
  .ofList t.vars

/-- Whether a variable occurs in a type. -/
def mentions (t : Ty) (v : String) : Bool :=
  v ∈ t.vars

theorem mem_varsAll {v : String} {ts : List Ty} : v ∈ varsAll ts ↔ ∃ t ∈ ts, v ∈ t.vars := by
  induction ts with
  | nil => simp [varsAll]
  | cons t ts ih => simp [varsAll, ih]

@[simp] theorem mem_freeVars {v : String} {t : Ty} : v ∈ t.freeVars ↔ v ∈ t.vars :=
  NameSet.mem_ofList

@[simp] theorem mentions_iff {v : String} {t : Ty} : t.mentions v = true ↔ v ∈ t.vars := by
  simp [mentions]

/-! ## Induction -/

/-- Induction on types, where the hypothesis is given for every component of a tuple. -/
@[elab_as_elim] theorem ind {motive : Ty → Prop} (int : motive int) (bool : motive bool)
    (var : ∀ v, motive (var v)) (fn : ∀ p r, motive p → motive r → motive (fn p r))
    (tuple : ∀ ts, (∀ t ∈ ts, motive t) → motive (tuple ts)) (t : Ty) : motive t :=
  @Ty.rec motive (fun ts => ∀ t ∈ ts, motive t) int bool var fn tuple (by simp)
    (fun _ _ ht hts => List.forall_mem_cons.mpr ⟨ht, hts⟩) t

/-! ## Replacing variables -/

mutual

/-- The type with every variable `v` replaced by `f v`. -/
def replace (f : String → Ty) : Ty → Ty
  | int => int
  | bool => bool
  | var v => f v
  | fn p r => fn (p.replace f) (r.replace f)
  | tuple ts => tuple (replaceAll f ts)

/-- The types of a list with every variable `v` replaced by `f v`. -/
def replaceAll (f : String → Ty) : List Ty → List Ty
  | [] => []
  | t :: ts => t.replace f :: replaceAll f ts

end

theorem replaceAll_eq_map (f : String → Ty) (ts : List Ty) :
    replaceAll f ts = ts.map (replace f) := by
  induction ts with
  | nil => rfl
  | cons t ts ih => simp [replaceAll, ih]

@[simp] theorem replace_tuple (f : String → Ty) (ts : List Ty) :
    (tuple ts).replace f = tuple (ts.map (replace f)) := by
  rw [replace, replaceAll_eq_map]

theorem replace_congr {f g : String → Ty} {t : Ty} (h : ∀ v ∈ t.vars, f v = g v) :
    t.replace f = t.replace g := by
  induction t using ind with
  | int => rfl
  | bool => rfl
  | var v => exact h v (by simp [vars])
  | fn p r hp hr =>
    simp only [vars, List.mem_append] at h
    rw [replace, replace, hp fun v hv => h v (.inl hv), hr fun v hv => h v (.inr hv)]
  | tuple ts ih =>
    simp only [vars] at h
    rw [replace_tuple, replace_tuple]
    exact congrArg tuple (List.map_congr_left fun t ht =>
      ih t ht fun v hv => h v (mem_varsAll.mpr ⟨t, ht, hv⟩))

@[simp] theorem replace_var (t : Ty) : t.replace var = t := by
  induction t using ind with
  | int => rfl
  | bool => rfl
  | var v => rfl
  | fn p r hp hr => rw [replace, hp, hr]
  | tuple ts ih =>
    rw [replace_tuple, List.map_congr_left ih, List.map_id']

theorem replace_replace (f g : String → Ty) (t : Ty) :
    (t.replace f).replace g = t.replace fun v => (f v).replace g := by
  induction t using ind with
  | int => rfl
  | bool => rfl
  | var v => rfl
  | fn p r hp hr => simp only [replace, hp, hr]
  | tuple ts ih =>
    simp only [replace_tuple, List.map_map]
    exact congrArg tuple (List.map_congr_left ih)

theorem mem_vars_replace {f : String → Ty} {t : Ty} {w : String} :
    w ∈ (t.replace f).vars ↔ ∃ v ∈ t.vars, w ∈ (f v).vars := by
  induction t using ind with
  | int => simp [replace, vars]
  | bool => simp [replace, vars]
  | var v => simp [replace, vars]
  | fn p r hp hr => simp only [replace, vars, List.mem_append, hp, hr, or_and_right, exists_or]
  | tuple ts ih =>
    simp only [replace_tuple, vars, mem_varsAll, List.mem_map]
    constructor
    · rintro ⟨_, ⟨t, ht, rfl⟩, hw⟩
      obtain ⟨v, hv, hvw⟩ := (ih t ht).mp hw
      exact ⟨v, ⟨t, ht, hv⟩, hvw⟩
    · rintro ⟨v, ⟨t, ht, hv⟩, hvw⟩
      exact ⟨t.replace f, ⟨t, ht, rfl⟩, (ih t ht).mpr ⟨v, hv, hvw⟩⟩

/-! ## Size -/

mutual

/-- The number of nodes of a type and of its lists of components. -/
def size : Ty → Nat
  | int | bool | var _ => 1
  | fn p r => 1 + p.size + r.size
  | tuple ts => 1 + sizeAll ts

/-- The number of nodes of the types of a list, and one for each type. -/
def sizeAll : List Ty → Nat
  | [] => 0
  | t :: ts => 1 + t.size + sizeAll ts

end

/-! ## Text -/

/-- Whether a type is a function type. -/
def isFn : Ty → Bool
  | fn .. => true
  | _ => false

mutual

/-- The text of a type. The arrow groups to the right, so only a function type before an arrow
stands in parentheses. -/
def print : Ty → String
  | int => "Int"
  | bool => "Bool"
  | var v => v
  | fn p r => (if p.isFn then "(" ++ p.print ++ ")" else p.print) ++ " -> " ++ r.print
  | tuple ts => "(" ++ ", ".intercalate (printAll ts) ++ ")"

/-- The texts of the types of a list. -/
def printAll : List Ty → List String
  | [] => []
  | t :: ts => t.print :: printAll ts

end

end Ty

end PolyLet
