import PolyLet.Names.NameSet

/-!
# Finite maps from names

A finite map from names is kept as its entries in increasing order of names, so that equal maps are
equal values and every listing of a map has one order.

## Main definitions

* `NameMap α`: entries with increasing names
* `NameMap.get?`, `NameMap.insert`, `NameMap.ofList`, `NameMap.map`, `NameMap.filterNames`: look up,
  change and build maps
* `NameMap.override`: two maps in one, where the second one wins

## Main results

* `NameMap.ext`: maps with the same look-ups are equal
* `NameMap.get?_insert`, `NameMap.get?_map`, `NameMap.get?_filterNames`,
  `NameMap.get?_override`: what each operation does to a look-up
-/

namespace PolyLet

variable {α β : Type}

/-- A finite map from names, as its entries in increasing order of names. -/
structure NameMap (α : Type) where
  entries : List (String × α)
  sorted : entries.Pairwise (·.1 < ·.1)
  deriving Repr

namespace NameMap

instance [DecidableEq α] : DecidableEq (NameMap α) := fun m m' =>
  decidable_of_iff (m.entries = m'.entries) (by cases m; cases m'; simp)

/-! ## Look-up -/

/-- The value that a list of entries has for a name: that of its first entry. -/
def lookup (x : String) : List (String × α) → Option α
  | [] => none
  | (y, a) :: es => if y = x then some a else lookup x es

/-- The value of a name. -/
def get? (m : NameMap α) (x : String) : Option α :=
  lookup x m.entries

/-- The names that have a value. -/
def names (m : NameMap α) : NameSet :=
  ⟨m.entries.map Prod.fst, List.pairwise_map.mpr m.sorted⟩

/-- The number of entries. -/
def size (m : NameMap α) : Nat := m.entries.length

/-- Whether a map has no entry. -/
def isEmpty (m : NameMap α) : Bool := m.entries.isEmpty

theorem lookup_isSome {x : String} {es : List (String × α)} :
    (lookup x es).isSome = true ↔ x ∈ es.map Prod.fst := by
  induction es with
  | nil => simp [lookup]
  | cons e es ih =>
    rw [lookup]
    split
    next h => simp [h]
    next h => simp only [ih, List.map_cons, List.mem_cons, Ne.symm h, false_or]

theorem mem_names {m : NameMap α} {x : String} : x ∈ m.names ↔ ∃ a, m.get? x = some a := by
  rw [← Option.isSome_iff_exists]
  exact lookup_isSome.symm

theorem get?_eq_none_iff {m : NameMap α} {x : String} : m.get? x = none ↔ x ∉ m.names := by
  rw [mem_names, ← Option.isSome_iff_exists]
  simp

/-! ## Building maps -/

/-- The map without entries. -/
def empty : NameMap α := ⟨[], .nil⟩

instance : EmptyCollection (NameMap α) := ⟨empty⟩

instance : Inhabited (NameMap α) := ⟨empty⟩

@[simp] theorem get?_empty (x : String) : (∅ : NameMap α).get? x = none := rfl

/-- Puts an entry in its place of an increasing list, instead of an entry with the same name. -/
def insertEntry (x : String) (a : α) : List (String × α) → List (String × α)
  | [] => [(x, a)]
  | (y, b) :: es =>
    if x < y then (x, a) :: (y, b) :: es
    else if x = y then (x, a) :: es
    else (y, b) :: insertEntry x a es

theorem mem_insertEntry {x : String} {a : α} {e : String × α} {es : List (String × α)} :
    e ∈ insertEntry x a es → e = (x, a) ∨ e ∈ es := by
  induction es with
  | nil => simp [insertEntry]
  | cons f fs ih =>
    rw [insertEntry]
    split
    next => simp
    next =>
      split
      next => exact fun h => (List.mem_cons.mp h).imp_right (List.mem_cons_of_mem f)
      next =>
        intro h
        rcases List.mem_cons.mp h with rfl | m
        · exact .inr List.mem_cons_self
        · exact (ih m).imp_right (List.mem_cons_of_mem f)

theorem sorted_insertEntry (x : String) (a : α) {es : List (String × α)}
    (h : es.Pairwise (·.1 < ·.1)) : (insertEntry x a es).Pairwise (·.1 < ·.1) := by
  induction es with
  | nil => simp [insertEntry]
  | cons f fs ih =>
    have hf := List.pairwise_cons.mp h
    rw [insertEntry]
    split
    next hlt =>
      exact h.cons fun g hg => (List.mem_cons.mp hg).elim (fun e => e ▸ hlt)
        fun m => String.lt_trans hlt (hf.1 g m)
    next hlt =>
      split
      next heq => exact hf.2.cons fun g hg => heq ▸ hf.1 g hg
      next hne =>
        have hgt : f.1 < x := Std.lt_of_le_of_ne (String.not_lt.mp hlt) (Ne.symm hne)
        exact (ih hf.2).cons fun g hg => (mem_insertEntry hg).elim (fun e => e ▸ hgt) (hf.1 g)

theorem lookup_insertEntry (x y : String) (a : α) (es : List (String × α)) :
    lookup y (insertEntry x a es) = if x = y then some a else lookup y es := by
  induction es with
  | nil => simp [insertEntry, lookup]
  | cons f fs ih =>
    rw [insertEntry]
    split
    next => rw [lookup]
    next =>
      split
      next heq =>
        subst heq
        simp only [lookup]
        split <;> rfl
      next hne =>
        simp only [lookup, ih]
        by_cases hf : f.1 = y
        · have : x ≠ y := fun e => hne (e.trans hf.symm)
          simp [hf, this]
        · simp [hf]

/-- The map with the value `a` for the name `x`. -/
def insert (m : NameMap α) (x : String) (a : α) : NameMap α :=
  ⟨insertEntry x a m.entries, sorted_insertEntry x a m.sorted⟩

theorem get?_insert (m : NameMap α) (x y : String) (a : α) :
    (m.insert x a).get? y = if x = y then some a else m.get? y :=
  lookup_insertEntry x y a m.entries

/-- The map with one entry. -/
def singleton (x : String) (a : α) : NameMap α :=
  (∅ : NameMap α).insert x a

@[simp] theorem get?_singleton (x y : String) (a : α) :
    (singleton x a).get? y = if x = y then some a else none := by
  rw [singleton, get?_insert, get?_empty]

/-- Two maps in one: a name that has a value in `newer` has that value. -/
def override (older newer : NameMap α) : NameMap α :=
  newer.entries.foldl (fun m e => m.insert e.1 e.2) older

/-- The map of a list of entries, where a later entry wins over an earlier one. -/
def ofList (es : List (String × α)) : NameMap α :=
  es.foldl (fun m e => m.insert e.1 e.2) ∅

theorem get?_foldl_insert {es : List (String × α)} (h : (es.map Prod.fst).Nodup) (m : NameMap α)
    (x : String) :
    (es.foldl (fun m e => m.insert e.1 e.2) m).get? x = (lookup x es).or (m.get? x) := by
  induction es generalizing m with
  | nil => simp [lookup]
  | cons e es ih =>
    have he := List.nodup_cons.mp h
    rw [List.foldl_cons, ih he.2, get?_insert, lookup]
    split
    next heq =>
      have : lookup x es = none := by
        rw [← Option.not_isSome_iff_eq_none, lookup_isSome, ← heq]
        exact he.1
      simp [this]
    next => rfl

theorem get?_ofList {es : List (String × α)} (h : (es.map Prod.fst).Nodup) (x : String) :
    (ofList es).get? x = lookup x es := by
  rw [ofList, get?_foldl_insert h, get?_empty, Option.or_none]

/-- The newer map wins. -/
theorem get?_override (older newer : NameMap α) (x : String) :
    (older.override newer).get? x = (newer.get? x).or (older.get? x) :=
  get?_foldl_insert newer.names.nodup older x

/-- The map with every value changed by `f`. -/
def map (f : α → β) (m : NameMap α) : NameMap β :=
  ⟨m.entries.map fun e => (e.1, f e.2), List.pairwise_map.mpr m.sorted⟩

theorem lookup_map (f : α → β) (x : String) (es : List (String × α)) :
    lookup x (es.map fun e => (e.1, f e.2)) = (lookup x es).map f := by
  induction es with
  | nil => rfl
  | cons e es ih =>
    simp only [List.map_cons, lookup, ih]
    split <;> rfl

@[simp] theorem get?_map (f : α → β) (m : NameMap α) (x : String) :
    (m.map f).get? x = (m.get? x).map f :=
  lookup_map f x m.entries

/-- The entries whose names satisfy `p`. -/
def filterNames (p : String → Bool) (m : NameMap α) : NameMap α :=
  ⟨m.entries.filter fun e => p e.1, m.sorted.filter _⟩

theorem lookup_filter (p : String → Bool) (x : String) (es : List (String × α)) :
    lookup x (es.filter fun e => p e.1) = if p x then lookup x es else none := by
  induction es with
  | nil => simp [lookup]
  | cons e es ih =>
    rw [List.filter_cons]
    split
    next hp =>
      rw [lookup, ih, lookup]
      split
      next heq => simp [← heq, hp]
      next => rfl
    next hp =>
      rw [ih, lookup]
      by_cases heq : e.1 = x
      · simp [← heq, hp]
      · simp [heq]

theorem get?_filterNames (p : String → Bool) (m : NameMap α) (x : String) :
    (m.filterNames p).get? x = if p x then m.get? x else none :=
  lookup_filter p x m.entries

/-! ## Extensionality -/

theorem lookup_eq_some_iff {x : String} {a : α} {es : List (String × α)}
    (h : (es.map Prod.fst).Nodup) : lookup x es = some a ↔ (x, a) ∈ es := by
  induction es with
  | nil => simp [lookup]
  | cons e es ih =>
    have he := List.nodup_cons.mp h
    rw [lookup]
    split
    next heq =>
      subst heq
      constructor
      · rintro ⟨rfl⟩
        simp
      · intro hm
        rcases List.mem_cons.mp hm with e' | m
        · rw [← e']
        · exact absurd (List.mem_map_of_mem m) he.1
    next hne =>
      rw [ih he.2, List.mem_cons, or_iff_right]
      rintro rfl
      exact hne rfl

theorem mem_entries {m : NameMap α} {x : String} {a : α} :
    (x, a) ∈ m.entries ↔ m.get? x = some a :=
  (lookup_eq_some_iff m.names.nodup).symm

/-- Maps with the same look-ups are equal. -/
@[ext] theorem ext {m m' : NameMap α} (h : ∀ x, m.get? x = m'.get? x) : m = m' := by
  -- both maps have the same names in the same order ...
  have hnames : m.entries.map Prod.fst = m'.entries.map Prod.fst :=
    congrArg NameSet.toList (NameSet.ext (s := m.names) (t := m'.names) fun x => by
      simp only [mem_names, h])
  -- ... and the same value at each of them
  have hentries : m.entries = m'.entries := by
    refine List.ext_getElem (by simpa using congrArg List.length hnames) fun i hi hi' => ?_
    have hfst : (m.entries[i]).1 = (m'.entries[i]).1 := by
      have := List.getElem_of_eq hnames (i := i) (by simpa using hi)
      simpa using this
    have hmem : m.get? (m.entries[i]).1 = some (m.entries[i]).2 :=
      mem_entries.mp (List.getElem_mem hi)
    have hmem' : m'.get? (m'.entries[i]).1 = some (m'.entries[i]).2 :=
      mem_entries.mp (List.getElem_mem hi')
    rw [h, hfst, hmem'] at hmem
    exact Prod.ext hfst (Option.some.inj hmem).symm
  cases m; cases m'
  simpa using hentries

end NameMap

end PolyLet
