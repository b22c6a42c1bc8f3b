import Mathlib.Data.List.Nodup
import Mathlib.Data.Set.Function
import PolyLet.Proofs.Renaming
import PolyLet.Proofs.Supply

/-!
# Normal forms of types

Types are equal up to the names of their variables exactly if their normal forms are equal. The
letters may be among the variables of a type already, so all variables are renamed at once: each one
takes the letter with the number of its first occurrence among the different variables. A renaming
that keeps different variables apart keeps these numbers, and different numbers have different
letters, so the renaming to the normal form can be undone.

## Main definitions

* `Ty.AlphaEq t u`: the types differ only in the names of their variables

## Main results

* `letterName_injective`, `letterNames_nodup`, `length_letterNames`: the names for readers differ
  from each other, and there are as many as were asked for
* `renameBy_renameBy`: renaming to different names can be undone
* `map_renameBy`, `injOn_renameBy`: renaming place by place gives the new names, and keeps names apart
* `exists_injective_extension`: a renaming that keeps some names apart can be made to keep all apart
* `Ty.normalize_rename`: a renaming does not change the normal form
* `Ty.normalize_eq_iff_exists_rename`: normal forms decide equality up to names
-/

namespace PolyLet

variable {v : String} {vs olds news : List String} {ρ : String → String}

/-! ## The names for readers -/

theorem letterName_injective : Function.Injective letterName := by
  intro i j h
  have hl := congrArg String.toList h
  simp only [letterName, String.toList_append, String.toList_singleton, List.singleton_append,
    List.cons.injEq] at hl
  obtain ⟨hletter, hnumber⟩ := hl
  -- the letter gives the remainder ...
  have hmod : i % 26 = j % 26 := by
    have htoNat : ∀ k : Nat, (Char.ofNat ('a'.toNat + k % 26)).toNat = 'a'.toNat + k % 26 := by
      intro k
      have ha : 'a'.toNat = 97 := rfl
      have hk : Nat.isValidChar ('a'.toNat + k % 26) := .inl (by omega)
      rw [Char.ofNat, dif_pos hk]
      rfl
    have heq := congrArg Char.toNat hletter
    rw [htoNat, htoNat] at heq
    omega
  -- ... and what follows it the quotient, which is left out only if it is zero
  have hdiv : i / 26 = j / 26 := by
    have hne : ∀ k : Nat, toString k ≠ "" := fun k h => Nat.repr_ne_empty h
    split at hnumber <;> split at hnumber
    · omega
    · exact absurd (String.toList_inj.mp hnumber).symm (hne _)
    · exact absurd (String.toList_inj.mp hnumber) (hne _)
    · exact Nat.repr_inj.mp (String.toList_inj.mp hnumber)
  omega

theorem nodup_map_letterName (count : Nat) : ((List.range count).map letterName).Nodup :=
  List.nodup_range.map letterName_injective

theorem letterNames_nodup (taken : NameSet) (count : Nat) : (letterNames taken count).Nodup :=
  ((nodup_map_letterName _).filter _).sublist (List.take_sublist _ _)

/-- There are as many names as were asked for: each name that is taken costs one at most. -/
theorem length_letterNames (taken : NameSet) (count : Nat) :
    (letterNames taken count).length = count := by
  let names := (List.range (count + taken.size)).map letterName
  have hnames : names.length = count + taken.size := by simp [names]
  have htaken : (names.filter (· ∈ taken)).length ≤ taken.size := by
    refine List.Nodup.length_le_of_subset ((nodup_map_letterName _).filter _) fun v hv => ?_
    exact of_decide_eq_true (List.mem_filter.mp hv).2
  have hsplit : names.length =
      (names.filter (· ∈ taken)).length + (names.filter (· ∉ taken)).length := by
    simpa only [decide_not] using List.length_eq_length_filter_add (l := names) (· ∈ taken)
  have hle : count ≤ (names.filter (· ∉ taken)).length := by omega
  rw [letterNames, List.length_take]
  exact Nat.min_eq_left hle

/-! ## Renaming place by place -/

theorem renameBy_cons (old new : String) (olds news : List String) (v : String) :
    renameBy (old :: olds) (new :: news) v = if old = v then new else renameBy olds news v := by
  rw [renameBy, List.zip_cons_cons, NameMap.lookup]
  split <;> rfl

theorem renameBy_mem (hl : olds.length ≤ news.length) (hv : v ∈ olds) :
    renameBy olds news v ∈ news := by
  induction olds generalizing news with
  | nil => cases hv
  | cons old olds ih =>
    cases news with
    | nil => cases hl
    | cons new news =>
      rw [renameBy_cons]
      split
      next => exact List.mem_cons_self
      next hne =>
        have hv := (List.mem_cons.mp hv).resolve_left (Ne.symm hne)
        exact List.mem_cons_of_mem new (ih (Nat.le_of_succ_le_succ hl) hv)

/-- Renaming to different names can be undone. -/
theorem renameBy_renameBy (hnews : news.Nodup) (hl : olds.length ≤ news.length) (hv : v ∈ olds) :
    renameBy news olds (renameBy olds news v) = v := by
  induction olds generalizing news with
  | nil => cases hv
  | cons old olds ih =>
    cases news with
    | nil => cases hl
    | cons new news =>
      obtain ⟨hnew, hnews⟩ := List.nodup_cons.mp hnews
      rw [renameBy_cons, renameBy_cons]
      by_cases hold : old = v
      · rw [if_pos hold, if_pos rfl, hold]
      -- the others are renamed to other names than the first one
      · have hl := Nat.le_of_succ_le_succ hl
        have hv := (List.mem_cons.mp hv).resolve_left (Ne.symm hold)
        have hne : new ≠ renameBy olds news v := fun heq => hnew (heq ▸ renameBy_mem hl hv)
        rw [if_neg hold, if_neg hne, ih hnews hl hv]

theorem renameBy_of_not_mem (hv : v ∉ olds) : renameBy olds news v = v := by
  induction olds generalizing news with
  | nil => rfl
  | cons old olds ih =>
    cases news with
    | nil => rfl
    | cons new news =>
      obtain ⟨hne, hv⟩ := not_or.mp fun h => hv (List.mem_cons.mpr h)
      rw [renameBy_cons, if_neg (Ne.symm hne), ih hv]

theorem renameBy_append_left {others : List String} (hv : v ∈ olds) :
    renameBy (olds ++ others) news v = renameBy olds news v := by
  induction olds generalizing news with
  | nil => cases hv
  | cons old olds ih =>
    cases news with
    | nil => rfl
    | cons new news =>
      rw [List.cons_append, renameBy_cons, renameBy_cons]
      by_cases hold : old = v
      · rw [if_pos hold, if_pos hold]
      · rw [if_neg hold, if_neg hold, ih ((List.mem_cons.mp hv).resolve_left (Ne.symm hold))]

/-- The old names become the new ones, place by place. -/
theorem map_renameBy (holds : olds.Nodup) (hl : olds.length = news.length) :
    olds.map (renameBy olds news) = news := by
  induction olds generalizing news with
  | nil => exact (List.length_eq_zero_iff.mp hl.symm).symm
  | cons old olds ih =>
    cases news with
    | nil => cases hl
    | cons new news =>
      obtain ⟨hold, holds⟩ := List.nodup_cons.mp holds
      have hlater : ∀ v ∈ olds, renameBy (old :: olds) (new :: news) v = renameBy olds news v := by
        rintro v hv
        rw [renameBy_cons, if_neg (ne_of_mem_of_not_mem hv hold).symm]
      rw [List.map_cons, renameBy_cons, if_pos rfl, List.map_congr_left hlater,
        ih holds (Nat.succ.inj hl)]

/-- Renaming to different names keeps names apart, if the new names are none of those that stay. -/
theorem injOn_renameBy (hnews : news.Nodup) (hl : olds.length ≤ news.length)
    (havoid : ∀ v ∈ vs, v ∉ olds → v ∉ news) : Set.InjOn (renameBy olds news) {v | v ∈ vs} := by
  -- a name that is renamed does not become one that stays
  have hne : ∀ v w, v ∈ olds → w ∈ vs → w ∉ olds → renameBy olds news v ≠ renameBy olds news w := by
    intro v w hv hw hwo heq
    rw [renameBy_of_not_mem hwo] at heq
    exact havoid w hw hwo (heq ▸ renameBy_mem hl hv)
  intro v hv w hw heq
  by_cases hvo : v ∈ olds <;> by_cases hwo : w ∈ olds
  · rw [← renameBy_renameBy hnews hl hvo, heq, renameBy_renameBy hnews hl hwo]
  · exact absurd heq (hne v w hvo hw hwo)
  · exact absurd heq.symm (hne w v hwo hv hvo)
  · rwa [renameBy_of_not_mem hvo, renameBy_of_not_mem hwo] at heq

/-- The place of a name decides what it is renamed to, so it does not matter what it is called. -/
theorem renameBy_map (hρ : Function.Injective ρ) (hl : olds.length ≤ news.length) (hv : v ∈ olds) :
    renameBy (olds.map ρ) news (ρ v) = renameBy olds news v := by
  induction olds generalizing news with
  | nil => cases hv
  | cons old olds ih =>
    cases news with
    | nil => cases hl
    | cons new news =>
      rw [List.map_cons, renameBy_cons, renameBy_cons]
      by_cases hold : old = v
      · rw [if_pos hold, if_pos (congrArg ρ hold)]
      · have hv := (List.mem_cons.mp hv).resolve_left (Ne.symm hold)
        rw [if_neg hold, if_neg (hρ.ne hold), ih (Nat.le_of_succ_le_succ hl) hv]

theorem eraseDups_map (hρ : Function.Injective ρ) (vs : List String) :
    (vs.map ρ).eraseDups = vs.eraseDups.map ρ := by
  induction hk : vs.length using Nat.strong_induction_on generalizing vs with
  | _ k ih =>
    cases vs with
    | nil => simp
    | cons v vs =>
      -- the later occurrences of `v` are the later occurrences of `ρ v`
      have hlater : (vs.map ρ).filter (!· == ρ v) = (vs.filter (!· == v)).map ρ := by
        rw [List.filter_map]
        refine congrArg (List.map ρ) (List.filter_congr fun w _ => ?_)
        simp [hρ.eq_iff]
      have hlt : (vs.filter (!· == v)).length < k := by
        have hle := List.length_filter_le (!· == v) vs
        rw [List.length_cons] at hk
        omega
      rw [List.map_cons, List.eraseDups_cons, hlater, ih _ hlt _ rfl, List.eraseDups_cons,
        List.map_cons]

theorem nodup_eraseDups (vs : List String) : vs.eraseDups.Nodup := by
  induction hk : vs.length using Nat.strong_induction_on generalizing vs with
  | _ k ih =>
    cases vs with
    | nil => exact List.nodup_nil
    | cons v vs =>
      have hlt : (vs.filter (!· == v)).length < k := by
        have hle := List.length_filter_le (!· == v) vs
        rw [List.length_cons] at hk
        omega
      rw [List.eraseDups_cons, List.nodup_cons]
      refine ⟨fun hv => ?_, ih _ hlt _ rfl⟩
      have hne := (List.mem_filter.mp (List.mem_eraseDups.mp hv)).2
      simp at hne

/-- A renaming that keeps some names apart can be changed at all others so that it keeps every two
names apart. -/
theorem exists_injective_extension (hρ : Set.InjOn ρ {v | v ∈ vs}) :
    ∃ ρ' : String → String, Function.Injective ρ' ∧ ∀ v ∈ vs, ρ' v = ρ v := by
  -- all others give way to the new names
  obtain ⟨r, hr, havoid⟩ := exists_renaming (vs.map ρ)
  let ρ' : String → String := fun v => if v ∈ vs then ρ v else r v
  have hin : ∀ v ∈ vs, ρ' v = ρ v := fun v hv => if_pos hv
  have hout : ∀ v, v ∉ vs → ρ' v = r v := fun v hv => if_neg hv
  refine ⟨ρ', injective_of_parts (p := (· ∈ vs)) ?_ ?_ ?_, hin⟩
  · intro v w hv hw heq
    rw [hin v hv, hin w hw] at heq
    exact hρ hv hw heq
  · intro v w hv hw heq
    rw [hout v hv, hout w hw] at heq
    exact hr heq
  · intro v w hv hw heq
    rw [hin v hv, hout w hw] at heq
    exact havoid w (heq ▸ List.mem_map_of_mem hv)

/-! ## Equality up to names -/

namespace Ty

variable {t u : Ty}

theorem vars_rename (ρ : String → String) (t : Ty) : (t.rename ρ).vars = t.vars.map ρ := by
  induction t using ind with
  | int => rfl
  | bool => rfl
  | var v => rfl
  | fn p r hp hr => rw [rename_fn, vars, vars, hp, hr, List.map_append]
  | tuple ts ih =>
    rw [rename_tuple, vars, vars]
    induction ts with
    | nil => rfl
    | cons t ts ihs =>
      rw [List.map_cons, varsAll, varsAll, ih t List.mem_cons_self,
        ihs fun u hu => ih u (List.mem_cons_of_mem t hu), List.map_append]

theorem varsInOrder_rename (hρ : Function.Injective ρ) (t : Ty) :
    (t.rename ρ).varsInOrder = t.varsInOrder.map ρ := by
  rw [varsInOrder, vars_rename, eraseDups_map hρ, varsInOrder]

/-- The type `u` is the type `t` with its variables renamed, and different ones stay different. -/
def AlphaEq (t u : Ty) : Prop :=
  ∃ ρ : String → String, Function.Injective ρ ∧ t.rename ρ = u

/-- It is enough that the variables of the type stay different. -/
theorem alphaEq_iff_injOn :
    t.AlphaEq u ↔ ∃ ρ : String → String, Set.InjOn ρ {v | v ∈ t.vars} ∧ t.rename ρ = u := by
  constructor
  · rintro ⟨ρ, hρ, h⟩
    exact ⟨ρ, hρ.injOn, h⟩
  · rintro ⟨ρ, hρ, rfl⟩
    obtain ⟨ρ', hρ', hag⟩ := exists_injective_extension hρ
    exact ⟨ρ', hρ', rename_congr hag⟩

namespace AlphaEq

theorem symm (h : t.AlphaEq u) : u.AlphaEq t := by
  obtain ⟨ρ, hρ, rfl⟩ := h
  obtain ⟨back, hback⟩ := hρ.hasLeftInverse
  refine alphaEq_iff_injOn.mpr ⟨back, ?_, ?_⟩
  · -- the variables are new names, which are taken back to different ones
    intro a ha b hb heq
    obtain ⟨v, -, rfl⟩ := mem_vars_rename.mp ha
    obtain ⟨w, -, rfl⟩ := mem_vars_rename.mp hb
    rw [hback, hback] at heq
    rw [heq]
  · rw [rename_rename, hback.comp_eq_id]
    exact replace_var t

theorem trans {r : Ty} (h : t.AlphaEq u) (h' : u.AlphaEq r) : t.AlphaEq r := by
  obtain ⟨ρ, hρ, rfl⟩ := h
  obtain ⟨ρ', hρ', rfl⟩ := h'
  exact ⟨ρ' ∘ ρ, hρ'.comp hρ, (rename_rename ρ ρ' t).symm⟩

end AlphaEq

/-! ## Normal forms -/

/-- **A renaming does not change the normal form.** -/
theorem normalize_rename (hρ : Function.Injective ρ) (t : Ty) :
    (t.rename ρ).normalize = t.normalize := by
  rw [normalize, varsInOrder_rename hρ, List.length_map, rename_rename, normalize]
  -- the new name of a variable is at the place of the old one
  refine rename_congr fun v hv => ?_
  exact renameBy_map hρ (length_letterNames ∅ _).ge (List.mem_eraseDups.mpr hv)

/-- A type is equal to its normal form up to names. -/
theorem alphaEq_normalize (t : Ty) : t.AlphaEq t.normalize := by
  refine alphaEq_iff_injOn.mpr ⟨_, ?_, rfl⟩
  -- no variable stays as it is
  exact injOn_renameBy (letterNames_nodup ∅ _) (length_letterNames ∅ _).ge
    fun v hv hnot => absurd (List.mem_eraseDups.mpr hv) hnot

/-- **Normal forms decide equality up to names.** Two types have the same normal form exactly if
some renaming that keeps different variables apart makes one of them the other one, and it does not
matter whether it keeps apart all variables or only those of the type. The normal form of a type is
such a renaming of it, and is its own normal form. -/
theorem normalize_eq_iff_exists_rename (t u : Ty) :
    (t.normalize = u.normalize ↔
      ∃ ρ : String → String, Function.Injective ρ ∧ t.rename ρ = u) ∧
    (t.normalize = u.normalize ↔
      ∃ ρ : String → String, Set.InjOn ρ {v | v ∈ t.vars} ∧ t.rename ρ = u) ∧
    t.normalize.normalize = t.normalize ∧
    ∃ ρ : String → String, Function.Injective ρ ∧ t.rename ρ = t.normalize := by
  have hiff : t.normalize = u.normalize ↔ t.AlphaEq u := by
    constructor
    · intro h
      -- from `t` to the common normal form, and from there back to `u`
      have hu := u.alphaEq_normalize.symm
      rw [← h] at hu
      exact t.alphaEq_normalize.trans hu
    · rintro ⟨ρ, hρ, rfl⟩
      exact (normalize_rename hρ t).symm
  obtain ⟨ρ, hρ, hnormal⟩ := t.alphaEq_normalize
  refine ⟨hiff, hiff.trans alphaEq_iff_injOn, ?_, ρ, hρ, hnormal⟩
  rw [← hnormal, normalize_rename hρ t, hnormal]

/-- Letters that are variables already change places. -/
example : (fn (var "b") (fn (var "a1") (fn (var "a") (var "b")))).normalize =
    fn (var "a") (fn (var "b") (fn (var "c") (var "a"))) :=
  rfl

end Ty

end PolyLet
