/-!
# Sets of characters given by ranges

A Unicode property is a set of code points, written as a table of ranges in increasing order.

## Main definitions

* `CharRange`: the code points from a first to a last one
* `CharRange.covers rs n`: one of the ranges `rs` holds the code point `n`
* `CharTable`: ranges in increasing order, and `CharTable.holds` of a character

## Main results

* `CharTable.holds_iff`: the search through a table finds every range
-/

namespace PolyLet

/-- The code points from `first` to `last`, both included. -/
structure CharRange where
  first : Nat
  last : Nat
  deriving DecidableEq, Repr

namespace CharRange

/-- Whether the range holds the code point `n`. -/
def holds (r : CharRange) (n : Nat) : Bool :=
  r.first ≤ n && n ≤ r.last

/-- Whether one of the ranges holds the code point `n`. The ranges are in increasing order, so the
search ends at the first range that starts after `n`. -/
def covers : List CharRange → Nat → Bool
  | [], _ => false
  | r :: rs, n => if n < r.first then false else n ≤ r.last || covers rs n

/-- Whether no range is empty, the first one starts at `k` or behind it, and every other one starts
behind the one before it. -/
def increasingFrom : Nat → List CharRange → Bool
  | _, [] => true
  | k, r :: rs => k ≤ r.first && r.first ≤ r.last && increasingFrom (r.last + 1) rs

theorem increasingFrom_cons {k : Nat} {r : CharRange} {rs : List CharRange} :
    increasingFrom k (r :: rs) = true ↔
      k ≤ r.first ∧ r.first ≤ r.last ∧ increasingFrom (r.last + 1) rs = true := by
  simp only [increasingFrom, Bool.and_eq_true, decide_eq_true_eq, and_assoc]

theorem le_first_of_increasingFrom {k : Nat} {rs : List CharRange}
    (h : increasingFrom k rs = true) : ∀ r ∈ rs, k ≤ r.first := by
  induction rs generalizing k with
  | nil => exact fun r hr => absurd hr List.not_mem_nil
  | cons q rs ih =>
    obtain ⟨hk, hq, hrs⟩ := increasingFrom_cons.mp h
    refine fun r hr => (List.mem_cons.mp hr).elim (fun e => e ▸ hk) fun hr => ?_
    have := ih hrs r hr
    omega

theorem covers_iff {k : Nat} {rs : List CharRange} (h : increasingFrom k rs = true) (n : Nat) :
    covers rs n = true ↔ ∃ r ∈ rs, r.holds n = true := by
  induction rs generalizing k with
  | nil => simp [covers]
  | cons q rs ih =>
    obtain ⟨-, hq, hrs⟩ := increasingFrom_cons.mp h
    have hcons : (∃ r ∈ q :: rs, r.holds n = true) ↔ q.holds n = true ∨ covers rs n = true := by
      rw [ih hrs]
      simp only [List.mem_cons, exists_eq_or_imp]
    rw [hcons, covers, holds, Bool.and_eq_true, decide_eq_true_eq, decide_eq_true_eq]
    split
    next hn =>
      -- the ranges behind start later still
      have hrest : ¬covers rs n = true := by
        rw [ih hrs]
        rintro ⟨r, hr, hrn⟩
        have hle := le_first_of_increasingFrom hrs r hr
        simp only [holds, Bool.and_eq_true, decide_eq_true_eq] at hrn
        omega
      exact iff_of_false Bool.false_ne_true fun h => h.elim (fun hqn => by omega) hrest
    next hn =>
      rw [Bool.or_eq_true, decide_eq_true_eq, and_iff_right (Nat.not_lt.mp hn)]

end CharRange

/-- A set of characters, as a table of the ranges of their code points in increasing order. -/
structure CharTable where
  ranges : List CharRange
  increasing : CharRange.increasingFrom 0 ranges = true

namespace CharTable

/-- Whether the character is in the set. -/
def holds (t : CharTable) (c : Char) : Bool :=
  CharRange.covers t.ranges c.toNat

/-- **The search finds every range.** -/
theorem holds_iff {t : CharTable} {c : Char} :
    t.holds c = true ↔ ∃ r ∈ t.ranges, r.holds c.toNat = true :=
  CharRange.covers_iff t.increasing c.toNat

end CharTable

end PolyLet
