/-!
# Finite sets of names

A finite set of names is kept as its members in increasing order, so that equal sets are equal
values and every listing of a set has one order. Names are compared by their code points, which is
also the order of their UTF-8 bytes.

## Main definitions

* `NameSet`: an increasing list of names, with membership, `insert`, `ofList`, `union` and `filter`

## Main results

* `NameSet.ext`: sets with the same members are equal
* `NameSet.size_le_of_subset`, `NameSet.size_lt_of_subset`: the size of a subset
-/

namespace PolyLet

/-- A finite set of names, as its members in increasing order. -/
structure NameSet where
  toList : List String
  sorted : toList.Pairwise (· < ·)
  deriving DecidableEq, Repr

namespace NameSet

/-! ## Members -/

instance : Membership String NameSet := ⟨fun s x => x ∈ s.toList⟩

theorem mem_def {s : NameSet} {x : String} : x ∈ s ↔ x ∈ s.toList := Iff.rfl

instance (x : String) (s : NameSet) : Decidable (x ∈ s) :=
  inferInstanceAs (Decidable (x ∈ s.toList))

/-- The set without members. -/
def empty : NameSet := ⟨[], .nil⟩

instance : EmptyCollection NameSet := ⟨empty⟩

instance : Inhabited NameSet := ⟨empty⟩

@[simp] theorem not_mem_empty (x : String) : x ∉ (∅ : NameSet) :=
  List.not_mem_nil

/-- The number of members. -/
def size (s : NameSet) : Nat := s.toList.length

/-- Whether a set has no member. -/
def isEmpty (s : NameSet) : Bool := s.toList.isEmpty

theorem nodup (s : NameSet) : s.toList.Nodup :=
  s.sorted.imp String.ne_of_lt

/-! ## Insertion -/

/-- Puts a name in its place of an increasing list. -/
def insertName (x : String) : List String → List String
  | [] => [x]
  | y :: ys => if x < y then x :: y :: ys else if x = y then y :: ys else y :: insertName x ys

theorem mem_insertName {x y : String} {l : List String} :
    y ∈ insertName x l ↔ y = x ∨ y ∈ l := by
  induction l with
  | nil => simp [insertName]
  | cons z zs ih =>
    rw [insertName]
    split
    next => simp
    next =>
      split
      next h => subst h; simp
      next => simp only [List.mem_cons, ih]; exact or_left_comm

theorem sorted_insertName (x : String) {l : List String} (h : l.Pairwise (· < ·)) :
    (insertName x l).Pairwise (· < ·) := by
  induction l with
  | nil => simp [insertName]
  | cons z zs ih =>
    have hz := List.pairwise_cons.mp h
    rw [insertName]
    split
    next hlt =>
      exact h.cons fun w hw => (List.mem_cons.mp hw).elim (fun e => e ▸ hlt)
        fun m => String.lt_trans hlt (hz.1 w m)
    next hlt =>
      split
      next => exact h
      next hne =>
        have hgt : z < x := Std.lt_of_le_of_ne (String.not_lt.mp hlt) (Ne.symm hne)
        exact (ih hz.2).cons fun w hw => (mem_insertName.mp hw).elim (fun e => e ▸ hgt) (hz.1 w)

/-- The set with one more member. -/
def insert (x : String) (s : NameSet) : NameSet :=
  ⟨insertName x s.toList, sorted_insertName x s.sorted⟩

@[simp] theorem mem_insert {x y : String} {s : NameSet} : y ∈ s.insert x ↔ y = x ∨ y ∈ s :=
  mem_insertName

/-- The set of the names of a list. -/
def ofList (l : List String) : NameSet :=
  l.foldr insert ∅

@[simp] theorem mem_ofList {x : String} {l : List String} : x ∈ ofList l ↔ x ∈ l := by
  induction l with
  | nil => simp [ofList]
  | cons y ys ih => simpa [ofList] using or_congr_right ih

/-! ## Union and filter -/

/-- The members of either set. -/
def union (s t : NameSet) : NameSet :=
  s.toList.foldr insert t

instance : Union NameSet := ⟨union⟩

@[simp] theorem mem_union {x : String} {s t : NameSet} : x ∈ s ∪ t ↔ x ∈ s ∨ x ∈ t := by
  suffices h : ∀ l : List String, x ∈ l.foldr insert t ↔ x ∈ l ∨ x ∈ t from h s.toList
  intro l
  induction l with
  | nil => simp
  | cons y ys ih => simp [ih, or_assoc]

/-- The members for which `p` holds. -/
def filter (p : String → Bool) (s : NameSet) : NameSet :=
  ⟨s.toList.filter p, s.sorted.filter p⟩

@[simp] theorem mem_filter {p : String → Bool} {x : String} {s : NameSet} :
    x ∈ s.filter p ↔ x ∈ s ∧ p x = true :=
  List.mem_filter

/-! ## Extensionality and size -/

theorem eq_of_sorted {l l' : List String} (h : l.Pairwise (· < ·)) (h' : l'.Pairwise (· < ·))
    (hmem : ∀ x, x ∈ l ↔ x ∈ l') : l = l' := by
  induction l generalizing l' with
  | nil =>
    cases l' with
    | nil => rfl
    | cons y ys => exact absurd ((hmem y).mpr (by simp)) (by simp)
  | cons x xs ih =>
    cases l' with
    | nil => exact absurd ((hmem x).mp (by simp)) (by simp)
    | cons y ys =>
      have hx := List.pairwise_cons.mp h
      have hy := List.pairwise_cons.mp h'
      have hxy : x = y := by
        rcases List.mem_cons.mp ((hmem x).mp (by simp)) with e | m
        · exact e
        · rcases List.mem_cons.mp ((hmem y).mpr (by simp)) with e | m'
          · exact e.symm
          · exact absurd (hx.1 y m') (String.lt_asymm (hy.1 x m))
      subst hxy
      rw [ih hx.2 hy.2 fun z => ?_]
      by_cases hz : z = x
      · subst hz
        exact iff_of_false (fun m => String.lt_irrefl z (hx.1 z m))
          (fun m => String.lt_irrefl z (hy.1 z m))
      · simpa [hz] using hmem z

/-- Sets with the same members are equal. -/
@[ext] theorem ext {s t : NameSet} (h : ∀ x, x ∈ s ↔ x ∈ t) : s = t := by
  cases s; cases t
  simpa using eq_of_sorted ‹_› ‹_› h

theorem size_le_of_subset {s t : NameSet} (h : ∀ x ∈ s, x ∈ t) : s.size ≤ t.size :=
  s.nodup.length_le_of_subset h

theorem size_lt_of_subset {s t : NameSet} {x : String} (h : ∀ y ∈ s, y ∈ t) (hx : x ∈ t)
    (hxs : x ∉ s) : s.size < t.size := by
  have hn : (x :: s.toList).Nodup := List.nodup_cons.mpr ⟨hxs, s.nodup⟩
  refine hn.length_le_of_subset fun y hy => ?_
  rcases List.mem_cons.mp hy with rfl | m
  · exact hx
  · exact h y m

end NameSet

end PolyLet
